import Mathlib.Data.List.Pairwise

/-!
# Ranges of a text

Ranges of places, taken from a sorted list one after another unless they start inside the last one
taken.
-/

namespace Lib

variable {α β : Type} (lo hi : α → Nat)

/-- The place `i` lies in one of the ranges. -/
def Covered (xs : List α) (i : Nat) : Prop := ∃ x ∈ xs, lo x ≤ i ∧ i < hi x

def selectFrom (bound : Nat) : List α → List α
  | [] => []
  | x :: xs => if lo x < bound then selectFrom bound xs else x :: selectFrom (hi x) xs

/-- Sorted by start, the wider first. -/
def Ordered (xs : List α) : Prop :=
  xs.Pairwise fun x y => lo x < lo y ∨ lo x = lo y ∧ hi y ≤ hi x

/-- Each ends before the next one starts. -/
def Apart (xs : List α) : Prop := xs.Pairwise fun x y => hi x ≤ lo y

def Widest (xs : List α) (x : α) : Prop := x ∈ xs ∧ ∀ y ∈ xs, lo y = lo x → hi y ≤ hi x

/-- Disjoint ranges of the list, each the widest at its start, cover what the list covers. -/
def Tiled (xs : List α) : Prop :=
  ∃ tiles : List α, (∀ t ∈ tiles, Widest lo hi xs t) ∧ Apart lo hi tiles ∧
    ∀ i, Covered lo hi xs i → Covered lo hi tiles i

variable {lo hi} {x t : α} {xs tiles : List α} {bound i : Nat}

/-! ## What is taken -/

theorem selectFrom_sublist : (selectFrom lo hi bound xs).Sublist xs := by
  induction xs generalizing bound with
  | nil => exact List.Sublist.refl _
  | cons x xs ih =>
    unfold selectFrom
    split
    · exact ih.cons x
    · exact ih.cons_cons x

theorem le_of_mem_selectFrom (hproper : ∀ x ∈ xs, lo x < hi x)
    (h : t ∈ selectFrom lo hi bound xs) : bound ≤ lo t := by
  induction xs generalizing bound with
  | nil => simp [selectFrom] at h
  | cons x xs ih =>
    have hrest : ∀ y ∈ xs, lo y < hi y := fun y hy => hproper y (by simp [hy])
    unfold selectFrom at h
    split at h
    next => exact ih hrest h
    next hx =>
      rcases List.mem_cons.mp h with rfl | h
      · omega
      · have hlt := hproper x (by simp)
        have hle := ih hrest h
        omega

theorem disjoint_selectFrom (hproper : ∀ x ∈ xs, lo x < hi x) :
    Apart lo hi (selectFrom lo hi bound xs) := by
  induction xs generalizing bound with
  | nil => exact List.Pairwise.nil
  | cons x xs ih =>
    have hrest : ∀ y ∈ xs, lo y < hi y := fun y hy => hproper y (by simp [hy])
    unfold selectFrom
    split
    · exact ih hrest
    · exact List.pairwise_cons.mpr ⟨fun t ht => le_of_mem_selectFrom hrest ht, ih hrest⟩

/-- A range that is taken is the widest at its start. -/
theorem widest_of_mem_selectFrom (hordered : Ordered lo hi xs) (hproper : ∀ x ∈ xs, lo x < hi x)
    (h : t ∈ selectFrom lo hi bound xs) : Widest lo hi xs t := by
  refine ⟨selectFrom_sublist.subset h, ?_⟩
  induction xs generalizing bound with
  | nil => simp
  | cons x xs ih =>
    obtain ⟨hx, hordered'⟩ := List.pairwise_cons.mp hordered
    have hrest : ∀ y ∈ xs, lo y < hi y := fun y hy => hproper y (by simp [hy])
    have hxlt := hproper x (by simp)
    unfold selectFrom at h
    intro y hy heq
    split at h
    next hbound =>
      -- `x` is passed over, and `t` starts after the bound that `x` starts before
      have hle := le_of_mem_selectFrom hrest h
      rcases List.mem_cons.mp hy with rfl | hy
      · omega
      · exact ih hordered' hrest h y hy heq
    next hbound =>
      rcases List.mem_cons.mp h with rfl | h
      · rcases List.mem_cons.mp hy with rfl | hy
        · exact Nat.le_refl _
        · rcases hx y hy with hlt | ⟨-, hle⟩
          · omega
          · exact hle
      · have hle := le_of_mem_selectFrom hrest h
        rcases List.mem_cons.mp hy with rfl | hy
        · omega
        · exact ih hordered' hrest h y hy heq

/-! ## What is covered -/

theorem covered_select_of_tiles (hordered : Ordered lo hi xs) (hproper : ∀ x ∈ xs, lo x < hi x)
    (htiles : ∀ t ∈ tiles, Widest lo hi xs t ∧ bound ≤ lo t) (hdisjoint : Apart lo hi tiles)
    (hcover : ∀ i, bound ≤ i → Covered lo hi xs i → Covered lo hi tiles i)
    (h : Covered lo hi tiles i) : Covered lo hi (selectFrom lo hi bound xs) i := by
  induction xs generalizing bound tiles with
  | nil =>
    obtain ⟨t, ht, -⟩ := h
    exact absurd (htiles t ht).1.1 List.not_mem_nil
  | cons x xs ih =>
    obtain ⟨hx, hordered'⟩ := List.pairwise_cons.mp hordered
    have hrest : ∀ y ∈ xs, lo y < hi y := fun y hy => hproper y (by simp [hy])
    have hxlt := hproper x (by simp)
    have hdrop : ∀ t ∈ tiles, t ≠ x → Widest lo hi xs t := by
      intro t ht hne
      obtain ⟨hmem, hwide⟩ := (htiles t ht).1
      exact ⟨List.mem_of_ne_of_mem hne hmem, fun y hy => hwide y (by simp [hy])⟩
    unfold selectFrom
    split
    next hbound =>
      refine ih hordered' hrest (fun t ht => ⟨hdrop t ht ?_, (htiles t ht).2⟩) hdisjoint ?_ h
      · rintro rfl
        have := (htiles _ ht).2
        omega
      · intro i hi hcov
        obtain ⟨y, hy, hin⟩ := hcov
        exact hcover i hi ⟨y, by simp [hy], hin⟩
    next hbound =>
      -- the first place of `x` lies in a tile, which has the range of `x` and is the first one
      obtain ⟨t, ht, hlot, hhit⟩ := hcover (lo x) (by omega) ⟨x, by simp, Nat.le_refl _, hxlt⟩
      have hstart : lo t = lo x ∧ hi t = hi x := by
        obtain ⟨hmem, hwide⟩ := (htiles t ht).1
        have hxt := hwide x (by simp)
        rcases List.mem_cons.mp hmem with rfl | hmem
        · exact ⟨rfl, rfl⟩
        · rcases hx t hmem with hlt | ⟨heq, hle⟩
          · omega
          · exact ⟨heq.symm, Nat.le_antisymm hle (hxt heq)⟩
      cases tiles with
      | nil => simp at ht
      | cons t₀ rest =>
        obtain ⟨hfirst, hdisjoint'⟩ := List.pairwise_cons.mp hdisjoint
        have hmem₀ := (htiles t₀ (by simp)).1.1
        have hle₀ : lo x ≤ lo t₀ := by
          rcases List.mem_cons.mp hmem₀ with rfl | hmem₀
          · exact Nat.le_refl _
          · rcases hx t₀ hmem₀ with hlt | ⟨heq, -⟩ <;> omega
        have hlt₀ := hproper t₀ hmem₀
        have hrange : lo t₀ = lo x ∧ hi t₀ = hi x := by
          rcases List.mem_cons.mp ht with rfl | ht
          · exact hstart
          · have := hfirst t ht
            omega
        have hafter : ∀ r ∈ rest, hi x ≤ lo r := fun r hr => hrange.2 ▸ hfirst r hr
        obtain ⟨s, hs, hin⟩ := h
        rcases List.mem_cons.mp hs with rfl | hs
        · exact ⟨x, by simp, by omega, by omega⟩
        · have hnext : Covered lo hi (selectFrom lo hi (hi x) xs) i := by
            refine ih hordered' hrest (fun r hr => ⟨hdrop r (by simp [hr]) ?_, hafter r hr⟩)
              hdisjoint' ?_ ⟨s, hs, hin⟩
            · rintro rfl
              have := hafter _ hr
              omega
            · intro j hj hcov
              obtain ⟨y, hy, hiny⟩ := hcov
              obtain ⟨r, hr, hinr⟩ := hcover j (by omega) ⟨y, by simp [hy], hiny⟩
              rcases List.mem_cons.mp hr with rfl | hr
              · omega
              · exact ⟨r, hr, hinr⟩
          obtain ⟨r, hr, hinr⟩ := hnext
          exact ⟨r, by simp [hr], hinr⟩

theorem covers_select_iff (hordered : Ordered lo hi xs) (hproper : ∀ x ∈ xs, lo x < hi x) :
    (∀ i, Covered lo hi xs i → Covered lo hi (selectFrom lo hi 0 xs) i) ↔ Tiled lo hi xs := by
  constructor
  · intro hall
    exact ⟨selectFrom lo hi 0 xs, fun t ht => widest_of_mem_selectFrom hordered hproper ht,
      disjoint_selectFrom hproper, hall⟩
  · rintro ⟨tiles, hwidest, hdisjoint, hcover⟩ i hi
    exact covered_select_of_tiles hordered hproper
      (fun t ht => ⟨hwidest t ht, Nat.zero_le _⟩) hdisjoint (fun j _ => hcover j) (hcover i hi)

/-- Only which ranges are in the list matters. -/
theorem tiled_congr {ys : List α} (h : ∀ x, x ∈ xs ↔ x ∈ ys) :
    Tiled lo hi xs ↔ Tiled lo hi ys := by
  have hcov : ∀ i, Covered lo hi xs i ↔ Covered lo hi ys i := fun i => by simp [Covered, h]
  have hwide : ∀ t, Widest lo hi xs t ↔ Widest lo hi ys t := fun t => by simp [Widest, h]
  simp only [Tiled, hcov, hwide]

/-! ## Replacement -/

variable (lo hi) (token : List β)

def replaceRanges (text : List β) (xs : List α) : List β :=
  xs.foldr (fun x text => text.take (lo x) ++ token ++ text.drop (hi x)) text

def replacedFrom (text : List β) (pos : Nat) : List α → List β
  | [] => text.drop pos
  | x :: xs => (text.drop pos).take (lo x - pos) ++ token ++ replacedFrom text (hi x) xs

variable {lo hi token} {text : List β} {pos : Nat}

theorem replaceRanges_eq (hdisjoint : Apart lo hi xs) (hproper : ∀ x ∈ xs, lo x < hi x)
    (hpos : ∀ x ∈ xs, pos ≤ lo x) (hend : ∀ x ∈ xs, hi x ≤ text.length) :
    replaceRanges lo hi token text xs = text.take pos ++ replacedFrom lo hi token text pos xs := by
  induction xs generalizing pos with
  | nil => exact (List.take_append_drop pos text).symm
  | cons x xs ih =>
    obtain ⟨hx, hdisjoint'⟩ := List.pairwise_cons.mp hdisjoint
    have hrest : replaceRanges lo hi token text xs =
        text.take (hi x) ++ replacedFrom lo hi token text (hi x) xs :=
      ih hdisjoint' (fun y hy => hproper y (by simp [hy])) hx fun y hy => hend y (by simp [hy])
    have hlt := hproper x (by simp)
    have hle := hend x (by simp)
    have hstart := hpos x (by simp)
    have hlen : (text.take (hi x)).length = hi x := by
      rw [List.length_take]
      omega
    have htake : (text.take (hi x) ++ replacedFrom lo hi token text (hi x) xs).take (lo x) =
        text.take (lo x) := by
      rw [List.take_append_of_le_length (by omega), List.take_take, Nat.min_eq_left (by omega)]
    have hdrop : (text.take (hi x) ++ replacedFrom lo hi token text (hi x) xs).drop (hi x) =
        replacedFrom lo hi token text (hi x) xs := by
      rw [List.drop_append_of_le_length (by omega), List.drop_of_length_le (by omega),
        List.nil_append]
    have hbetween : text.take (lo x) = text.take pos ++ (text.drop pos).take (lo x - pos) := by
      rw [← List.take_add, Nat.add_sub_cancel' hstart]
    calc replaceRanges lo hi token text (x :: xs)
        = (replaceRanges lo hi token text xs).take (lo x) ++ token ++
            (replaceRanges lo hi token text xs).drop (hi x) := rfl
      _ = text.take (lo x) ++ token ++ replacedFrom lo hi token text (hi x) xs := by
          rw [hrest, htake, hdrop]
      _ = text.take pos ++ replacedFrom lo hi token text pos (x :: xs) := by
          rw [hbetween]
          simp [replacedFrom]

theorem replacedFrom_map :
    replacedFrom Prod.fst Prod.snd token text pos (xs.map fun x => (lo x, hi x)) =
      replacedFrom lo hi token text pos xs := by
  induction xs generalizing pos with
  | nil => rfl
  | cons x xs ih => simp only [List.map_cons, replacedFrom, ih]

end Lib
