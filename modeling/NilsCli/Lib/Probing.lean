import Mathlib.Data.Fintype.Card
import Mathlib.Data.Finset.Card
import Mathlib.Logic.Function.Basic

/-!
# Linear probing

A table of `n` slots, each free or taken by a key. A key is looked for from its home slot on, slot
after slot and round the end, until it is found or a slot is free; it is inserted in that free slot.
-/

namespace Lib

variable {κ : Type} {n : Nat}

/-- The slots of a table. -/
abbrev Slots (κ : Type) := Nat → Option κ

variable {home : κ → Nat} {slots : Slots κ} {keys : List κ} {key : κ}

/-- The table has exactly these keys, each in one slot, with taken slots before it. -/
structure Represents (n : Nat) (home : κ → Nat) (slots : Slots κ) (keys : List κ) : Prop where
  sound : ∀ slot < n, ∀ key, slots slot = some key → key ∈ keys
  placed : ∀ key ∈ keys, ∃ j < n, slots ((home key + j) % n) = some key ∧
    ∀ m < j, ∃ k, slots ((home key + m) % n) = some k
  unique : ∀ slot < n, ∀ slot' < n, ∀ key, slots slot = some key → slots slot' = some key →
    slot = slot'

theorem represents_empty (n : Nat) (home : κ → Nat) : Represents n home (fun _ => none) [] :=
  ⟨by simp, by simp, by simp⟩

theorem exists_add_mod_eq (home : Nat) {slot : Nat} (h : slot < n) :
    ∃ m < n, (home + m) % n = slot := by
  refine ⟨(slot + (n - home % n)) % n, Nat.mod_lt _ (by omega), ?_⟩
  have hlt := Nat.mod_lt home (by omega : 0 < n)
  have hsplit := Nat.div_add_mod home n
  rw [Nat.add_mod_mod]
  have hsum : home + (slot + (n - home % n)) = slot + n * (home / n + 1) := by
    rw [Nat.mul_add, Nat.mul_one]
    omega
  rw [hsum, Nat.add_mul_mod_self_left, Nat.mod_eq_of_lt h]

section

variable (h : Represents n home slots keys)

include h

/-- A table with fewer keys than slots has a free slot. -/
theorem Represents.exists_free (hlen : keys.length < n) :
    ∃ slot < n, slots slot = none := by
  by_contra hfull
  push Not at hfull
  have hget : ∀ slot, ∃ key, slot < n → slots slot = some key := by
    intro slot
    by_cases hslot : slot < n
    · obtain ⟨key, hkey⟩ := Option.ne_none_iff_exists'.mp (hfull slot hslot)
      exact ⟨key, fun _ => hkey⟩
    · obtain ⟨key, -⟩ := Option.ne_none_iff_exists'.mp (hfull 0 (by omega))
      exact ⟨key, fun hlt => absurd hlt hslot⟩
  choose get hget using hget
  have hnodup : ((List.range n).map get).Nodup := by
    refine List.Nodup.map_on (fun slot hslot slot' hslot' heq => ?_) List.nodup_range
    have hlt := List.mem_range.mp hslot
    have hlt' := List.mem_range.mp hslot'
    exact h.unique slot hlt slot' hlt' _ (hget slot hlt) (heq ▸ hget slot' hlt')
  have hsub : (List.range n).map get ⊆ keys := by
    intro key hkey
    obtain ⟨slot, hslot, rfl⟩ := List.mem_map.mp hkey
    have hlt := List.mem_range.mp hslot
    exact h.sound slot hlt _ (hget slot hlt)
  have hle := (List.subperm_of_subset hnodup hsub).length_le
  simp at hle
  omega

theorem Represents.congr {keys' : List κ}
    (hkeys : ∀ key, key ∈ keys ↔ key ∈ keys') : Represents n home slots keys' :=
  ⟨fun slot hslot key hkey => (hkeys key).mp (h.sound slot hslot key hkey),
    fun key hkey => h.placed key ((hkeys key).mpr hkey), h.unique⟩

theorem Represents.append_of_mem (hmem : key ∈ keys) :
    Represents n home slots (keys ++ [key]) := by
  refine h.congr fun k => ⟨List.mem_append_left _, fun hk => ?_⟩
  rcases List.mem_append.mp hk with hk | hk
  · exact hk
  · exact List.mem_singleton.mp hk ▸ hmem

/-- A new key in the first free slot behind its home slot. -/
theorem Represents.place (hnew : key ∉ keys) {j : Nat}
    (hjn : j < n) (hnone : slots ((home key + j) % n) = none)
    (hbefore : ∀ m < j, ∃ k, slots ((home key + m) % n) = some k) :
    Represents n home (Function.update slots ((home key + j) % n) (some key)) (keys ++ [key]) := by
  -- the other slots keep what they have
  have hother : ∀ s < n, ∀ k, s ≠ (home key + j) % n →
      Function.update slots ((home key + j) % n) (some key) s = some k →
        slots s = some k ∧ k ∈ keys := by
    intro s hs k hne hk
    rw [Function.update_of_ne hne] at hk
    exact ⟨hk, h.sound s hs k hk⟩
  have htaken : ∀ s k, slots s = some k →
      Function.update slots ((home key + j) % n) (some key) s = some k := by
    intro s k hk
    have hne : s ≠ (home key + j) % n := by
      rintro rfl
      rw [hnone] at hk
      cases hk
    rw [Function.update_of_ne hne, hk]
  refine ⟨fun s hs k hk => ?_, fun k hk => ?_, fun s hs s' hs' k hk hk' => ?_⟩
  · by_cases heq : s = (home key + j) % n
    · rw [heq, Function.update_self] at hk
      simp [Option.some.inj hk]
    · exact List.mem_append_left _ (hother s hs k heq hk).2
  · rcases List.mem_append.mp hk with hk | hk
    · obtain ⟨i, hin, hi, hbefore'⟩ := h.placed k hk
      refine ⟨i, hin, htaken _ _ hi, fun m hm => ?_⟩
      obtain ⟨k', hk'⟩ := hbefore' m hm
      exact ⟨k', htaken _ _ hk'⟩
    · obtain rfl := List.mem_singleton.mp hk
      refine ⟨j, hjn, Function.update_self .., fun m hm => ?_⟩
      obtain ⟨k', hk'⟩ := hbefore m hm
      exact ⟨k', htaken _ _ hk'⟩
  · by_cases heq : s = (home key + j) % n <;> by_cases heq' : s' = (home key + j) % n
    · rw [heq, heq']
    · rw [heq, Function.update_self] at hk
      exact absurd ((Option.some.inj hk) ▸ (hother s' hs' k heq' hk').2) hnew
    · rw [heq', Function.update_self] at hk'
      exact absurd ((Option.some.inj hk') ▸ (hother s hs k heq hk).2) hnew
    · exact h.unique s hs s' hs' k (hother s hs k heq hk).1 (hother s' hs' k heq' hk').1

end

/-! ## Searching -/

variable [DecidableEq κ]

inductive Probed
  | found
  | free (slot : Nat)
  | full
  deriving DecidableEq

/-- The search from the `i`-th slot behind the home slot on, for `fuel` more slots. -/
def probeFrom (n home : Nat) (slots : Slots κ) (key : κ) : Nat → Nat → Probed
  | 0, _ => .full
  | fuel + 1, i =>
    match slots ((home + i) % n) with
    | none => .free ((home + i) % n)
    | some k => if k = key then .found else probeFrom n home slots key fuel (i + 1)

/-- The search through the whole table. -/
def probe (n home : Nat) (slots : Slots κ) (key : κ) : Probed := probeFrom n home slots key n 0

/-- The key is inserted, unless the table is full. -/
def insertKey (n home : Nat) (slots : Slots κ) (key : κ) : Option (Slots κ) :=
  match probe n home slots key with
  | .found => some slots
  | .free slot => some (Function.update slots slot (some key))
  | .full => none

theorem probeFrom_spec (n home : Nat) (slots : Slots κ) (key : κ) (fuel i : Nat) :
    match probeFrom n home slots key fuel i with
    | .found => ∃ j, i ≤ j ∧ slots ((home + j) % n) = some key
    | .free slot => ∃ j, i ≤ j ∧ j < i + fuel ∧ slot = (home + j) % n ∧ slots slot = none ∧
        ∀ m, i ≤ m → m < j → ∃ k, slots ((home + m) % n) = some k ∧ k ≠ key
    | .full => ∀ m, i ≤ m → m < i + fuel → ∃ k, slots ((home + m) % n) = some k ∧ k ≠ key := by
  induction fuel generalizing i with
  | zero => exact fun m hm hlt => absurd hlt (by omega)
  | succ fuel ih =>
    rw [probeFrom]
    cases hslot : slots ((home + i) % n) with
    | none =>
      exact ⟨i, le_refl i, by omega, rfl, hslot, fun m hm hlt => absurd hlt (by omega)⟩
    | some k =>
      by_cases hk : k = key
      · simp only [if_pos hk]
        exact ⟨i, le_refl i, hk ▸ hslot⟩
      · simp only [if_neg hk]
        have hrest := ih (i + 1)
        -- the slot at `i` is taken by another key, the rest is the search from `i + 1` on
        have hhere : ∀ m, i ≤ m → m < i + 1 → ∃ k, slots ((home + m) % n) = some k ∧ k ≠ key := by
          intro m hm hlt
          obtain rfl : m = i := by omega
          exact ⟨k, hslot, hk⟩
        split at hrest
        · obtain ⟨j, hj, hfound⟩ := hrest
          exact ⟨j, by omega, hfound⟩
        · obtain ⟨j, hj, hlt, heq, hnone, hbefore⟩ := hrest
          refine ⟨j, by omega, by omega, heq, hnone, fun m hm hmj => ?_⟩
          rcases Nat.lt_or_ge m (i + 1) with h | h
          · exact hhere m hm h
          · exact hbefore m h hmj
        · intro m hm hlt
          rcases Nat.lt_or_ge m (i + 1) with h | h
          · exact hhere m hm h
          · exact hrest m h (by omega)

theorem probe_eq_found_iff (h : Represents n home slots keys) (hn : 0 < n) :
    probe n (home key) slots key = .found ↔ key ∈ keys := by
  have hspec := probeFrom_spec n (home key) slots key n 0
  constructor
  · intro hfound
    rw [probe] at hfound
    rw [hfound] at hspec
    obtain ⟨j, -, hj⟩ := hspec
    exact h.sound _ (Nat.mod_lt _ hn) key hj
  · intro hkey
    obtain ⟨j, hjn, hj, htaken⟩ := h.placed key hkey
    -- the slot of the key is passed by no search that ends elsewhere
    have hpassed : ¬∃ k, slots ((home key + j) % n) = some k ∧ k ≠ key := by
      rintro ⟨k, hk, hne⟩
      exact hne (Option.some.inj (hk.symm.trans hj))
    rw [probe]
    split at hspec
    next hfound => exact hfound
    next slot hfree =>
      obtain ⟨j', -, -, rfl, hnone, hbefore⟩ := hspec
      rcases Nat.lt_trichotomy j' j with hlt | rfl | hgt
      · obtain ⟨k, hk⟩ := htaken j' hlt
        rw [hnone] at hk
        cases hk
      · rw [hnone] at hj
        cases hj
      · exact absurd (hbefore j (Nat.zero_le j) hgt) hpassed
    next => exact absurd (hspec j (Nat.zero_le j) (by omega)) hpassed

theorem Represents.insert (h : Represents n home slots keys) (hlen : keys.length < n) (key : κ) :
    ∃ slots', insertKey n (home key) slots key = some slots' ∧
      Represents n home slots' (keys ++ [key]) := by
  have hn : 0 < n := by omega
  have hspec := probeFrom_spec n (home key) slots key n 0
  rw [insertKey, probe]
  split
  next hfound =>
    exact ⟨slots, rfl, h.append_of_mem ((probe_eq_found_iff h hn).mp hfound)⟩
  next slot hfree =>
    rw [hfree] at hspec
    obtain ⟨j, -, hjn, rfl, hnone, hbefore⟩ := hspec
    have hnew : key ∉ keys := by
      rw [← probe_eq_found_iff h hn, probe, hfree]
      simp
    refine ⟨_, rfl, h.place hnew (by omega) hnone fun m hm => ?_⟩
    obtain ⟨k, hk, -⟩ := hbefore m (Nat.zero_le m) hm
    exact ⟨k, hk⟩
  next hfull =>
    rw [hfull] at hspec
    obtain ⟨slot, hslot, hnone⟩ := h.exists_free hlen
    obtain ⟨m, hm, rfl⟩ := exists_add_mod_eq (home key) hslot
    obtain ⟨k, hk, -⟩ := hspec m (Nat.zero_le m) (by omega)
    rw [hnone] at hk
    cases hk

end Lib
