import Mathlib.Data.List.Nodup
import Mathlib.Order.Lattice
import NilsCli.Lib.Guard

/-!
# Maps in the order of their keys

A finite map is the list of its rows, strictly increasing in their keys, so that it is determined by
its lookups (`SortedMap.ext_find?`) and a loop over it meets the keys in order.
-/

namespace Lib

structure SortedMap (κ ν : Type) [LinearOrder κ] where
  rows : List (κ × ν)
  sorted : rows.Pairwise fun a b => a.1 < b.1

namespace SortedMap

variable {κ μ ν ε : Type} [LinearOrder κ] {m m' : SortedMap κ ν} {k k' : κ} {v w : ν}

theorem ext_rows (h : m.rows = m'.rows) : m = m' := by
  cases m
  cases m'
  cases h
  rfl

instance [DecidableEq ν] : DecidableEq (SortedMap κ ν) := fun m m' =>
  decidable_of_iff (m.rows = m'.rows) ⟨ext_rows, congrArg rows⟩

def empty : SortedMap κ ν := ⟨[], .nil⟩

def find? (m : SortedMap κ ν) (k : κ) : Option ν := (m.rows.find? (·.1 = k)).map (·.2)

/-- The number of rows. -/
def size (m : SortedMap κ ν) : Nat := m.rows.length

def keys (m : SortedMap κ ν) : List κ := m.rows.map (·.1)

def values (m : SortedMap κ ν) : List ν := m.rows.map (·.2)

/-! ## Lookups -/

theorem keys_nodup (m : SortedMap κ ν) : m.keys.Nodup :=
  List.pairwise_map.mpr (m.sorted.imp fun h => ne_of_lt h)

theorem find?_eq_some_iff : m.find? k = some v ↔ (k, v) ∈ m.rows := by
  unfold find?
  rw [Option.map_eq_some_iff]
  constructor
  · rintro ⟨row, hrow, rfl⟩
    have hk : row.1 = k := by simpa using List.find?_some hrow
    exact hk ▸ List.mem_of_find?_eq_some hrow
  · intro hmem
    cases hfind : m.rows.find? (·.1 = k) with
    | none => exact absurd (List.find?_eq_none.mp hfind _ hmem) (by simp)
    | some row =>
      have hk : row.1 = k := by simpa using List.find?_some hfind
      have hrow := List.inj_on_of_nodup_map m.keys_nodup (List.mem_of_find?_eq_some hfind) hmem hk
      exact ⟨row, rfl, by rw [hrow]⟩

theorem mem_keys_iff : k ∈ m.keys ↔ ∃ v, m.find? k = some v := by
  simp only [keys, List.mem_map, find?_eq_some_iff]
  constructor
  · rintro ⟨row, hrow, rfl⟩
    exact ⟨row.2, hrow⟩
  · rintro ⟨v, hv⟩
    exact ⟨_, hv, rfl⟩

theorem find?_eq_none_iff : m.find? k = none ↔ k ∉ m.keys := by
  rw [mem_keys_iff, not_exists, Option.eq_none_iff_forall_ne_some]

/-- Maps with the same lookups are the same. -/
theorem ext_find? (h : ∀ k, m.find? k = m'.find? k) : m = m' := by
  have hnodup : ∀ m : SortedMap κ ν, m.rows.Nodup := fun m =>
    m.sorted.imp fun hlt heq => absurd (congrArg Prod.fst heq) (ne_of_lt hlt)
  have hperm : m.rows.Perm m'.rows :=
    (List.perm_ext_iff_of_nodup (hnodup m) (hnodup m')).mpr fun row => by
      rw [← find?_eq_some_iff (k := row.1) (v := row.2), h, find?_eq_some_iff]
  exact ext_rows (hperm.eq_of_pairwise (fun _ _ _ _ hab hba => absurd hab (not_lt.mpr (le_of_lt hba)))
    m.sorted m'.sorted)

/-! ## Insertion -/

/-- The rows with `v` at `k`. -/
def insertRow (k : κ) (v : ν) : List (κ × ν) → List (κ × ν)
  | [] => [(k, v)]
  | row :: rows =>
    if k < row.1 then (k, v) :: row :: rows
    else if k = row.1 then (k, v) :: rows
    else row :: insertRow k v rows

theorem mem_insertRow {rows : List (κ × ν)} (h : rows.Pairwise fun a b => a.1 < b.1)
    {row : κ × ν} : row ∈ insertRow k v rows ↔ row = (k, v) ∨ row ∈ rows ∧ row.1 ≠ k := by
  induction rows with
  | nil => simp [insertRow]
  | cons first rows ih =>
    rw [List.pairwise_cons] at h
    unfold insertRow
    by_cases hlt : k < first.1
    · have hall : ∀ row ∈ first :: rows, row.1 ≠ k := by
        intro row hrow
        rcases List.mem_cons.mp hrow with rfl | hrow
        · exact (ne_of_lt hlt).symm
        · exact (ne_of_lt (hlt.trans (h.1 row hrow))).symm
      rw [if_pos hlt, List.mem_cons]
      exact or_congr_right ⟨fun hrow => ⟨hrow, hall row hrow⟩, And.left⟩
    · rw [if_neg hlt]
      by_cases heq : k = first.1
      · have hall : ∀ row ∈ rows, row.1 ≠ k := fun row hrow => heq ▸ (ne_of_lt (h.1 row hrow)).symm
        rw [if_pos heq, List.mem_cons, List.mem_cons]
        refine or_congr_right ⟨fun hrow => ⟨.inr hrow, hall row hrow⟩, ?_⟩
        rintro ⟨rfl | hrow, hne⟩
        · exact absurd heq.symm hne
        · exact hrow
      · rw [if_neg heq, List.mem_cons, List.mem_cons, ih h.2]
        constructor
        · rintro (rfl | rfl | ⟨hrow, hne⟩)
          · exact .inr ⟨.inl rfl, Ne.symm heq⟩
          · exact .inl rfl
          · exact .inr ⟨.inr hrow, hne⟩
        · rintro (rfl | ⟨rfl | hrow, hne⟩)
          · exact .inr (.inl rfl)
          · exact .inl rfl
          · exact .inr (.inr ⟨hrow, hne⟩)

theorem insertRow_sorted {rows : List (κ × ν)} (h : rows.Pairwise fun a b => a.1 < b.1) (k : κ)
    (v : ν) : (insertRow k v rows).Pairwise fun a b => a.1 < b.1 := by
  induction rows with
  | nil => exact List.pairwise_singleton _ _
  | cons first rows ih =>
    have hcons := List.pairwise_cons.mp h
    unfold insertRow
    by_cases hlt : k < first.1
    · rw [if_pos hlt]
      refine List.pairwise_cons.mpr ⟨fun row hrow => ?_, h⟩
      rcases List.mem_cons.mp hrow with rfl | hrow
      · exact hlt
      · exact hlt.trans (hcons.1 row hrow)
    · rw [if_neg hlt]
      by_cases heq : k = first.1
      · rw [if_pos heq]
        exact List.pairwise_cons.mpr ⟨fun row hrow => heq ▸ hcons.1 row hrow, hcons.2⟩
      · rw [if_neg heq]
        refine List.pairwise_cons.mpr ⟨fun row hrow => ?_, ih hcons.2⟩
        rcases (mem_insertRow hcons.2).mp hrow with rfl | ⟨hrow, -⟩
        · exact lt_of_le_of_ne (not_lt.mp hlt) (Ne.symm heq)
        · exact hcons.1 row hrow

/-- The map with `v` at `k`. -/
def insert (m : SortedMap κ ν) (k : κ) (v : ν) : SortedMap κ ν :=
  ⟨insertRow k v m.rows, insertRow_sorted m.sorted k v⟩

theorem find?_insert_self (m : SortedMap κ ν) (k : κ) (v : ν) : (m.insert k v).find? k = some v :=
  find?_eq_some_iff.mpr ((mem_insertRow m.sorted).mpr (.inl rfl))

theorem find?_insert_of_ne (m : SortedMap κ ν) (v : ν) (h : k' ≠ k) :
    (m.insert k v).find? k' = m.find? k' := by
  ext w
  rw [find?_eq_some_iff, find?_eq_some_iff]
  show (k', w) ∈ insertRow k v m.rows ↔ _
  rw [mem_insertRow m.sorted]
  constructor
  · rintro (heq | ⟨hmem, -⟩)
    · exact absurd (congrArg Prod.fst heq) h
    · exact hmem
  · exact fun hmem => .inr ⟨hmem, h⟩

/-- Every value changed by `f`. -/
def mapVal (f : ν → μ) (m : SortedMap κ ν) : SortedMap κ μ :=
  ⟨m.rows.map fun row => (row.1, f row.2), List.pairwise_map.mpr m.sorted⟩

theorem find?_mapVal (f : ν → μ) (m : SortedMap κ ν) (k : κ) :
    (m.mapVal f).find? k = (m.find? k).map f := by
  ext w
  rw [find?_eq_some_iff, Option.map_eq_some_iff]
  constructor
  · intro h
    obtain ⟨row, hrow, heq⟩ := List.mem_map.mp h
    cases heq
    exact ⟨row.2, find?_eq_some_iff.mpr hrow, rfl⟩
  · rintro ⟨v, hv, rfl⟩
    exact List.mem_map.mpr ⟨(k, v), find?_eq_some_iff.mp hv, rfl⟩

/-! ## A loop over another map -/

/-- The rows in turn, each of which gives its key a new value from the one it has. -/
def upsertAll (f : κ → Option ν → μ → Except ε ν) :
    List (κ × μ) → SortedMap κ ν → Except ε (SortedMap κ ν)
  | [], m => .ok m
  | row :: rows, m => do
    let v ← f row.1 (m.find? row.1) row.2
    upsertAll f rows (m.insert row.1 v)

variable {f : κ → Option ν → μ → Except ε ν} {rows : List (κ × μ)}

theorem upsertAll_eq_ok (hnodup : (rows.map (·.1)).Nodup) : upsertAll f rows m = .ok m' ↔
    (∀ row ∈ rows, ∃ v, f row.1 (m.find? row.1) row.2 = .ok v ∧ m'.find? row.1 = some v) ∧
      ∀ k, k ∉ rows.map (·.1) → m'.find? k = m.find? k := by
  induction rows generalizing m with
  | nil =>
    constructor
    · rintro h
      cases h
      exact ⟨fun _ hrow => absurd hrow List.not_mem_nil, fun _ _ => rfl⟩
    · intro h
      exact congrArg Except.ok (ext_find? fun k => (h.2 k List.not_mem_nil).symm)
  | cons first rows ih =>
    rw [List.map_cons, List.nodup_cons] at hnodup
    have hne : ∀ row ∈ rows, row.1 ≠ first.1 := fun row hrow heq =>
      hnodup.1 (heq ▸ List.mem_map_of_mem hrow)
    unfold upsertAll
    rw [bind_eq_ok]
    constructor
    · rintro ⟨v, hv, h⟩
      obtain ⟨hrows, hrest⟩ := (ih hnodup.2).mp h
      refine ⟨fun row hrow => ?_, fun k hk => ?_⟩
      · rcases List.mem_cons.mp hrow with rfl | hrow
        · exact ⟨v, hv, by rw [hrest _ hnodup.1, find?_insert_self]⟩
        · obtain ⟨w, hw, hfind⟩ := hrows row hrow
          rw [find?_insert_of_ne _ _ (hne row hrow)] at hw
          exact ⟨w, hw, hfind⟩
      · rw [List.map_cons, List.mem_cons, not_or] at hk
        rw [hrest k hk.2, find?_insert_of_ne _ _ hk.1]
    · rintro ⟨hrows, hrest⟩
      obtain ⟨v, hv, hfind⟩ := hrows first List.mem_cons_self
      refine ⟨v, hv, (ih hnodup.2).mpr ⟨fun row hrow => ?_, fun k hk => ?_⟩⟩
      · rw [find?_insert_of_ne _ _ (hne row hrow)]
        exact hrows row (List.mem_cons_of_mem _ hrow)
      · by_cases heq : k = first.1
        · rw [heq, hfind, find?_insert_self]
        · rw [find?_insert_of_ne _ _ heq]
          exact hrest k (by simp [heq, hk])

/-- The loop fails with the failure of one of its rows. -/
theorem upsertAll_eq_error (hnodup : (rows.map (·.1)).Nodup) {e : ε}
    (h : upsertAll f rows m = .error e) :
    ∃ row ∈ rows, f row.1 (m.find? row.1) row.2 = .error e := by
  induction rows generalizing m with
  | nil => cases h
  | cons first rows ih =>
    rw [List.map_cons, List.nodup_cons] at hnodup
    unfold upsertAll at h
    rcases bind_eq_error.mp h with h | ⟨v, -, h⟩
    · exact ⟨first, List.mem_cons_self, h⟩
    · obtain ⟨row, hrow, hfail⟩ := ih hnodup.2 h
      have hne : row.1 ≠ first.1 := fun heq => hnodup.1 (heq ▸ List.mem_map_of_mem hrow)
      rw [find?_insert_of_ne _ _ hne] at hfail
      exact ⟨row, List.mem_cons_of_mem _ hrow, hfail⟩

end SortedMap

/-! ## Sorted lists of distinct elements -/

section
variable {α : Type} [LinearOrder α]

/-- `x` at its place among the members of a sorted list, unless it is one of them. -/
def insertUnique (x : α) : List α → List α
  | [] => [x]
  | y :: ys => if x < y then x :: y :: ys else if x = y then y :: ys else y :: insertUnique x ys

/-- `sort` and then `dedup`. -/
def sortDedup (xs : List α) : List α := xs.foldr insertUnique []

theorem mem_insertUnique {x y : α} {ys : List α} : y ∈ insertUnique x ys ↔ y = x ∨ y ∈ ys := by
  induction ys with
  | nil => simp [insertUnique]
  | cons z ys ih =>
    unfold insertUnique
    by_cases hlt : x < z
    · rw [if_pos hlt, List.mem_cons]
    · rw [if_neg hlt]
      by_cases heq : x = z
      · subst heq
        rw [if_pos rfl, List.mem_cons]
        exact ⟨.inr, fun h => h.elim .inl id⟩
      · rw [if_neg heq, List.mem_cons, List.mem_cons, ih]
        exact or_left_comm

@[simp] theorem mem_sortDedup {y : α} {xs : List α} : y ∈ sortDedup xs ↔ y ∈ xs := by
  induction xs with
  | nil => simp [sortDedup]
  | cons x xs ih =>
    show y ∈ insertUnique x (sortDedup xs) ↔ _
    rw [mem_insertUnique, ih, List.mem_cons]

theorem insertUnique_sorted {ys : List α} (h : ys.Pairwise (· < ·)) (x : α) :
    (insertUnique x ys).Pairwise (· < ·) := by
  induction ys with
  | nil => exact List.pairwise_singleton _ _
  | cons y ys ih =>
    have hcons := List.pairwise_cons.mp h
    unfold insertUnique
    by_cases hlt : x < y
    · rw [if_pos hlt]
      refine List.pairwise_cons.mpr ⟨fun z hz => ?_, h⟩
      rcases List.mem_cons.mp hz with rfl | hz
      · exact hlt
      · exact hlt.trans (hcons.1 z hz)
    · rw [if_neg hlt]
      by_cases heq : x = y
      · rw [if_pos heq]
        exact h
      · rw [if_neg heq]
        refine List.pairwise_cons.mpr ⟨fun z hz => ?_, ih hcons.2⟩
        rcases mem_insertUnique.mp hz with rfl | hz
        · exact lt_of_le_of_ne (not_lt.mp hlt) (Ne.symm heq)
        · exact hcons.1 z hz

theorem sortDedup_sorted (xs : List α) : (sortDedup xs).Pairwise (· < ·) := by
  induction xs with
  | nil => exact .nil
  | cons x xs ih => exact insertUnique_sorted ih x

/-- Sorted lists with the same members are the same. -/
theorem eq_of_mem_iff {xs ys : List α} (hx : xs.Pairwise (· < ·)) (hy : ys.Pairwise (· < ·))
    (h : ∀ z, z ∈ xs ↔ z ∈ ys) : xs = ys :=
  ((List.perm_ext_iff_of_nodup (hx.imp ne_of_lt) (hy.imp ne_of_lt)).mpr h).eq_of_pairwise
    (fun _ _ _ _ hab hba => absurd hab (not_lt.mpr (le_of_lt hba))) hx hy

end

end Lib
