import Mathlib.Data.List.Forall2
import Mathlib.Data.List.Nodup

/-!
# Lists of records that are updated in place

A table kept as a list changes in three ways: some records are updated, some are dropped, and a
record is appended.
-/

namespace Lib

variable {α κ : Type}

/-- `f` on the first element that satisfies `p`. -/
def updateFirst (p : α → Bool) (f : α → α) : List α → List α
  | [] => []
  | x :: xs => if p x then f x :: xs else x :: updateFirst p f xs

def Evolves (R : α → α → Prop) (xs ys : List α) : Prop :=
  List.SublistForall₂ (fun y x => R x y) ys xs

namespace Evolves

variable {R : α → α → Prop} {xs ys zs : List α}

theorem mem (h : Evolves R xs ys) {y : α} (hy : y ∈ ys) : ∃ x ∈ xs, R x y := by
  unfold Evolves at h
  induction h with
  | nil => cases hy
  | @cons y' x ys xs hR _ ih =>
    rcases List.mem_cons.mp hy with rfl | hy
    · exact ⟨x, by simp, hR⟩
    · obtain ⟨x', hx', h'⟩ := ih hy
      exact ⟨x', by simp [hx'], h'⟩
  | cons_right _ ih =>
    obtain ⟨x', hx', h'⟩ := ih hy
    exact ⟨x', by simp [hx'], h'⟩

theorem of_map {f : α → α} (h : ∀ x ∈ xs, R x (f x)) : Evolves R xs (xs.map f) := by
  induction xs with
  | nil => exact .nil
  | cons x xs ih =>
    exact .cons (h x (by simp)) (ih fun x' hx' => h x' (by simp [hx']))

theorem of_updateFirst {p : α → Bool} {f : α → α} (hrefl : ∀ x ∈ xs, R x x)
    (h : ∀ x, xs.find? p = some x → R x (f x)) : Evolves R xs (updateFirst p f xs) := by
  induction xs with
  | nil => exact .nil
  | cons x xs ih =>
    have hrest : ∀ x' ∈ xs, R x' x' := fun x' hx' => hrefl x' (by simp [hx'])
    unfold updateFirst
    split
    case isTrue hp =>
      have hid : Evolves R xs (xs.map id) := of_map hrest
      rw [List.map_id] at hid
      exact .cons (h x (by simp [hp])) hid
    case isFalse hp =>
      exact .cons (hrefl x (by simp)) (ih hrest fun x' hx' => h x' (by simp [hp, hx']))

theorem of_filter {p : α → Bool} (hrefl : ∀ x ∈ xs, R x x) : Evolves R xs (xs.filter p) := by
  induction xs with
  | nil => exact .nil
  | cons x xs ih =>
    have hrest := ih fun x' hx' => hrefl x' (by simp [hx'])
    rw [List.filter_cons]
    split
    case isTrue => exact .cons (hrefl x (by simp)) hrest
    case isFalse => exact .cons_right hrest

theorem refl (hrefl : ∀ x ∈ xs, R x x) : Evolves R xs xs := by
  have hid : Evolves R xs (xs.map id) := of_map hrefl
  rwa [List.map_id] at hid

theorem mono {R' : α → α → Prop} (hR : ∀ x y, R x y → R' x y) (h : Evolves R xs ys) :
    Evolves R' xs ys := by
  unfold Evolves at *
  induction h with
  | nil => exact .nil
  | cons hxy _ ih => exact .cons (hR _ _ hxy) ih
  | cons_right _ ih => exact .cons_right ih

theorem trans (htrans : ∀ x y z, R x y → R y z → R x z) (h : Evolves R xs ys)
    (h' : Evolves R ys zs) : Evolves R xs zs := by
  have : IsTrans α fun y x => R x y := ⟨fun a b c hab hbc => htrans c b a hbc hab⟩
  have hT : IsTrans (List α) (List.SublistForall₂ fun y x => R x y) := inferInstance
  exact hT.trans _ _ _ h' h

theorem keys_sublist (key : α → κ) (hkey : ∀ x y, R x y → key y = key x)
    (h : Evolves R xs ys) : (ys.map key).Sublist (xs.map key) := by
  unfold Evolves at h
  induction h with
  | nil => exact List.nil_sublist _
  | cons hR _ ih => simpa [hkey _ _ hR] using ih
  | cons_right _ ih => exact ih.cons _

theorem filter_map_sublist (p : α → Bool) (key : α → κ) (hp : ∀ x y, R x y → p y → p x)
    (hkey : ∀ x y, R x y → key y = key x) (h : Evolves R xs ys) :
    ((ys.filter p).map key).Sublist ((xs.filter p).map key) := by
  unfold Evolves at h
  induction h with
  | nil => exact List.nil_sublist _
  | @cons y x ys xs hR _ ih =>
    by_cases hy : p y
    · rw [List.filter_cons_of_pos hy, List.filter_cons_of_pos (hp x y hR hy), List.map_cons,
        List.map_cons, hkey x y hR]
      exact ih.cons_cons _
    · rw [List.filter_cons_of_neg hy]
      exact ih.trans (((List.sublist_cons_self x xs).filter p).map key)
  | @cons_right x ys xs _ ih => exact ih.trans (((List.sublist_cons_self x xs).filter p).map key)

theorem keys_nodup (key : α → κ) (hkey : ∀ x y, R x y → key y = key x) (h : Evolves R xs ys)
    (hnd : (xs.map key).Nodup) : (ys.map key).Nodup := (h.keys_sublist key hkey).nodup hnd

end Evolves

theorem eq_self_iff_of_sublist_map {f : α → α} {xs ys : List α} (h : ys.Sublist (xs.map f)) :
    ys = xs ↔ (∀ x ∈ xs, f x = x) ∧ ys.length = xs.length := by
  constructor
  · intro heq
    have hall : ys = xs.map f := h.eq_of_length (by rw [List.length_map, heq])
    refine ⟨fun x hx => ?_, congrArg List.length heq⟩
    have hmap : xs.map f = xs.map id := by rw [List.map_id, ← hall, heq]
    exact List.map_inj_left.mp hmap x hx
  · rintro ⟨hf, hlen⟩
    have hmap : xs.map f = xs := by
      rw [List.map_congr_left (g := id) hf, List.map_id]
    rw [hmap] at h
    exact h.eq_of_length hlen

theorem eq_of_key_eq {key : α → κ} {xs : List α} (hnd : (xs.map key).Nodup) {x y : α}
    (hx : x ∈ xs) (hy : y ∈ xs) (h : key x = key y) : x = y := List.inj_on_of_nodup_map hnd hx hy h

/-- A condition that one element alone satisfies. -/
theorem filter_eq_singleton {p : α → Bool} {xs : List α} {x : α} (hnd : xs.Nodup) (hx : x ∈ xs)
    (hp : p x) (hu : ∀ y ∈ xs, p y → y = x) : xs.filter p = [x] := by
  induction xs with
  | nil => cases hx
  | cons y ys ih =>
    rw [List.nodup_cons] at hnd
    have hrest : ∀ z ∈ ys, p z → z = x := fun z hz => hu z (by simp [hz])
    rcases List.mem_cons.mp hx with rfl | hx
    · rw [List.filter_cons_of_pos hp, List.filter_eq_nil_iff.mpr]
      intro z hz hpz
      exact hnd.1 (hrest z hz hpz ▸ hz)
    · have hy : ¬ p y := fun hpy => hnd.1 (hu y (by simp) hpy ▸ hx)
      rw [List.filter_cons_of_neg hy, ih hnd.2 hx hrest]

/-- The first element that satisfies `p` becomes `f` of it. -/
theorem mem_updateFirst_of_find? {p : α → Bool} {f : α → α} {xs : List α} {x : α}
    (h : xs.find? p = some x) : f x ∈ updateFirst p f xs := by
  induction xs with
  | nil => cases h
  | cons y ys ih =>
    unfold updateFirst
    rw [List.find?_cons] at h
    split at h
    case h_1 hp => cases h; simp [hp]
    case h_2 hp => simp [hp, ih h]

theorem mem_updateFirst {p : α → Bool} {f : α → α} {xs : List α} {y : α}
    (h : y ∈ updateFirst p f xs) : y ∈ xs ∨ ∃ x, xs.find? p = some x ∧ y = f x := by
  induction xs with
  | nil => cases h
  | cons x xs ih =>
    unfold updateFirst at h
    rw [List.find?_cons]
    split at h
    case isTrue hp =>
      rcases List.mem_cons.mp h with rfl | h
      · exact .inr ⟨x, by simp [hp], rfl⟩
      · exact .inl (by simp [h])
    case isFalse hp =>
      rcases List.mem_cons.mp h with rfl | h
      · exact .inl (by simp)
      · rcases ih h with h | ⟨x', hx', rfl⟩
        · exact .inl (by simp [h])
        · exact .inr ⟨x', by simp [hp, hx'], rfl⟩

theorem filter_map_updateFirst {β : Type} {p q : α → Bool} {f : α → α} {g : α → β} {xs : List α}
    (hq : ∀ x, q (f x) = q x) (hg : ∀ x, g (f x) = g x) :
    ((updateFirst p f xs).filter q).map g = (xs.filter q).map g := by
  induction xs with
  | nil => rfl
  | cons x xs ih =>
    unfold updateFirst
    by_cases hp : p x
    · by_cases hx : q x <;> simp [hp, hq, hg, hx]
    · by_cases hx : q x <;> simp [hp, hx, ih]

theorem mem_updateFirst_or {p : α → Bool} {f : α → α} {xs : List α} {x : α} (hx : x ∈ xs) :
    x ∈ updateFirst p f xs ∨ xs.find? p = some x := by
  induction xs with
  | nil => cases hx
  | cons y ys ih =>
    unfold updateFirst
    rw [List.find?_cons]
    rcases List.mem_cons.mp hx with rfl | hx
    · cases hp : p x <;> simp
    · cases hp : p y with
      | true => exact .inl (by simp [hx])
      | false =>
        rcases ih hx with h | h
        · exact .inl (by simp [h])
        · exact .inr h

end Lib
