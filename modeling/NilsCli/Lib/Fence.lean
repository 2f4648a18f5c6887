import Mathlib.Data.List.Basic

/-!
# Fenced regions and blocks

In a list of lines some lines are delimiters. A delimiter opens a fence, the next one that closes it
ends it, and what is neither a delimiter nor in a fence is visible (`Fence.mask`).
-/

namespace Lib

structure Fence (α δ : Type) where
  delim : α → Option δ
  closes : δ → δ → Bool

namespace Fence

variable {α δ : Type} (F : Fence α δ)

/-- The open fence after a line. -/
def next (state : Option δ) (x : α) : Option δ :=
  match state with
  | none => F.delim x
  | some opened => if (F.delim x).any (F.closes opened) then none else some opened

/-- The open fence after some lines. -/
def after (state : Option δ) (xs : List α) : Option δ := xs.foldl F.next state

def visible (state : Option δ) (x : α) : Bool := state.isNone && (F.delim x).isNone

/-- Which lines are visible. -/
def mask : Option δ → List α → List Bool
  | _, [] => []
  | state, x :: xs => F.visible state x :: mask (F.next state x) xs

def cut (p : α → Bool) : Option δ → List α → List α × List (List α)
  | _, [] => ([], [])
  | state, x :: xs =>
    let rest := cut p (F.next state x) xs
    if F.visible state x && p x then ([], (x :: rest.1) :: rest.2) else (x :: rest.1, rest.2)

variable {F} {p : α → Bool} {state : Option δ} {x : α} {xs ys : List α}

@[simp] theorem after_nil : F.after state [] = state := rfl

@[simp] theorem after_cons : F.after state (x :: xs) = F.after (F.next state x) xs := rfl

@[simp] theorem after_append : F.after state (xs ++ ys) = F.after (F.after state xs) ys :=
  List.foldl_append

theorem next_of_visible (h : F.visible state x = true) : state = none ∧ F.next state x = none := by
  simp only [visible, Bool.and_eq_true, Option.isNone_iff_eq_none] at h
  obtain ⟨rfl, hdelim⟩ := h
  exact ⟨rfl, hdelim⟩

@[simp] theorem length_mask : (F.mask state xs).length = xs.length := by
  induction xs generalizing state with
  | nil => rfl
  | cons x xs ih => simp [mask, ih]

theorem mask_open {opened : δ} : F.mask (some opened) xs =
    match xs.findIdx? fun x => (F.delim x).any (F.closes opened) with
    | some ends => List.replicate (ends + 1) false ++ F.mask none (xs.drop (ends + 1))
    | none => List.replicate xs.length false := by
  induction xs with
  | nil => rfl
  | cons x xs ih =>
    rw [List.findIdx?_cons, mask, next]
    by_cases hcloses : (F.delim x).any (F.closes opened)
    · simp [hcloses, visible]
    · simp only [hcloses, Bool.false_eq_true, if_false, visible, Option.isNone_some, Bool.false_and, ih]
      cases xs.findIdx? fun x => (F.delim x).any (F.closes opened) <;> rfl

theorem after_open {opened : δ} : F.after (some opened) xs =
    match xs.findIdx? fun x => (F.delim x).any (F.closes opened) with
    | some ends => F.after none (xs.drop (ends + 1))
    | none => some opened := by
  induction xs with
  | nil => rfl
  | cons x xs ih =>
    rw [List.findIdx?_cons, after_cons, next]
    by_cases hcloses : (F.delim x).any (F.closes opened)
    · simp [hcloses]
    · simp only [hcloses, Bool.false_eq_true, if_false, ih]
      cases xs.findIdx? fun x => (F.delim x).any (F.closes opened) <;> rfl

/-! ## Cutting -/

/-- Nothing to cut at. -/
def Quiet (F : Fence α δ) (p : α → Bool) (state : Option δ) (xs : List α) : Prop :=
  F.cut p state xs = (xs, [])

structure IsBlock (F : Fence α δ) (p : α → Bool) (block : List α) : Prop where
  shape : ∃ x xs, block = x :: xs ∧ F.delim x = none ∧ p x = true ∧ F.Quiet p none xs

theorem cut_flatten : (F.cut p state xs).1 ++ (F.cut p state xs).2.flatten = xs := by
  induction xs generalizing state with
  | nil => rfl
  | cons x xs ih =>
    have hrest : (F.cut p (F.next state x) xs).1 ++ (F.cut p (F.next state x) xs).2.flatten = xs := ih
    unfold cut
    by_cases hcut : F.visible state x && p x
    · simp only [hcut, if_true, List.nil_append, List.flatten_cons, List.cons_append, hrest]
    · simp only [hcut, Bool.false_eq_true, if_false, List.cons_append, hrest]

theorem quiet_nil : F.Quiet p state [] := rfl

theorem quiet_cons : F.Quiet p state (x :: xs) ↔
    (F.visible state x && p x) = false ∧ F.Quiet p (F.next state x) xs := by
  unfold Quiet
  rw [cut]
  by_cases hcut : F.visible state x && p x
  · simp [hcut]
  · simp only [hcut, Bool.false_eq_true, if_false, Prod.mk.injEq, List.cons.injEq, true_and]
    exact ⟨fun h => Prod.ext h.1 h.2, fun h => ⟨congrArg Prod.fst h, congrArg Prod.snd h⟩⟩

theorem cut_quiet_append (h : F.Quiet p state xs) : F.cut p state (xs ++ ys) =
    (xs ++ (F.cut p (F.after state xs) ys).1, (F.cut p (F.after state xs) ys).2) := by
  induction xs generalizing state with
  | nil => rfl
  | cons x xs ih =>
    obtain ⟨hcut, hrest⟩ := quiet_cons.mp h
    rw [List.cons_append, cut]
    simp only [hcut, Bool.false_eq_true, if_false, ih hrest, List.cons_append, after_cons]

theorem quiet_append : F.Quiet p state (xs ++ ys) ↔
    F.Quiet p state xs ∧ F.Quiet p (F.after state xs) ys := by
  induction xs generalizing state with
  | nil => exact ⟨fun h => ⟨quiet_nil, h⟩, And.right⟩
  | cons x xs ih => rw [List.cons_append, quiet_cons, quiet_cons, ih, and_assoc, after_cons]

theorem cut_quiet : F.Quiet p state (F.cut p state xs).1 := by
  induction xs generalizing state with
  | nil => rfl
  | cons x xs ih =>
    rw [cut]
    by_cases hcut : F.visible state x && p x
    · simp only [hcut, if_true]
      exact quiet_nil
    · simp only [hcut, Bool.false_eq_true, if_false]
      exact quiet_cons.mpr ⟨by simpa using hcut, ih⟩

/-- Every block is cut at its first line, and at no other. -/
theorem cut_blocks : ∀ block ∈ (F.cut p state xs).2, F.IsBlock p block := by
  induction xs generalizing state with
  | nil => exact fun _ h => absurd h List.not_mem_nil
  | cons x xs ih =>
    intro block hblock
    rw [cut] at hblock
    by_cases hcut : F.visible state x && p x
    · simp only [hcut, if_true, List.mem_cons] at hblock
      rw [Bool.and_eq_true] at hcut
      obtain ⟨rfl, hnext⟩ := next_of_visible hcut.1
      rcases hblock with rfl | hblock
      · refine ⟨x, _, rfl, hnext, hcut.2, ?_⟩
        rw [hnext]
        exact cut_quiet
      · exact ih block hblock
    · simp only [hcut, Bool.false_eq_true, if_false] at hblock
      exact ih block hblock

theorem cut_closed (h : (F.cut p state xs).2 ≠ []) : F.after state (F.cut p state xs).1 = none := by
  induction xs generalizing state with
  | nil => exact absurd rfl h
  | cons x xs ih =>
    rw [cut] at h ⊢
    by_cases hcut : F.visible state x && p x
    · simp only [hcut, if_true, after_nil]
      rw [Bool.and_eq_true] at hcut
      exact (next_of_visible hcut.1).1
    · simp only [hcut, Bool.false_eq_true, if_false] at h ⊢
      exact ih h

theorem after_block {block : List α} (h : F.IsBlock p block) (hclosed : F.after none block = none) :
    F.cut p none (block ++ ys) = ([], (block ++ (F.cut p none ys).1) :: (F.cut p none ys).2) := by
  obtain ⟨x, xs, rfl, hdelim, hp, hquiet⟩ := h.shape
  have hvisible : F.visible none x = true := by simp [visible, hdelim]
  have hnext : F.next none x = none := hdelim
  rw [after_cons, hnext] at hclosed
  rw [List.cons_append, cut, hvisible, hp]
  simp only [Bool.and_self, if_true, hnext, cut_quiet_append hquiet, hclosed, List.cons_append]

theorem closed_head (h : F.after none xs = none) : F.after none (F.cut p none xs).1 = none := by
  by_cases hrest : (F.cut p none xs).2 = []
  · have hflat : (F.cut p none xs).1 ++ (F.cut p none xs).2.flatten = xs := cut_flatten
    rw [hrest, List.flatten_nil, List.append_nil] at hflat
    rw [hflat, h]
  · exact cut_closed hrest

theorem closed_blocks (h : F.after state xs = none) :
    ∀ block ∈ (F.cut p state xs).2, F.after none block = none := by
  induction xs generalizing state with
  | nil => exact fun _ hblock => absurd hblock List.not_mem_nil
  | cons x xs ih =>
    intro block hblock
    rw [after_cons] at h
    rw [cut] at hblock
    by_cases hcut : F.visible state x && p x
    · simp only [hcut, if_true, List.mem_cons] at hblock
      rw [Bool.and_eq_true] at hcut
      obtain ⟨rfl, hnext⟩ := next_of_visible hcut.1
      rcases hblock with rfl | hblock
      · rw [hnext] at h ⊢
        rw [after_cons, hnext]
        exact closed_head h
      · exact ih h block hblock
    · simp only [hcut, Bool.false_eq_true, if_false] at hblock
      exact ih h block hblock

theorem quiet_flatten {blocks : List (List α)} (hclosed : ∀ block ∈ blocks, F.after none block = none)
    (h : F.Quiet p none blocks.flatten) : ∀ block ∈ blocks, F.Quiet p none block := by
  induction blocks with
  | nil => exact fun _ hblock => absurd hblock List.not_mem_nil
  | cons block blocks ih =>
    rw [List.forall_mem_cons] at hclosed ⊢
    rw [List.flatten_cons, quiet_append, hclosed.1] at h
    exact ⟨h.1, ih hclosed.2 h.2⟩

end Fence

end Lib
