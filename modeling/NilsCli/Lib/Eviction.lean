import NilsCli.Lib.Text

/-!
# Eviction from the front of a history

A bounded history drops its oldest records until the rest fits.
-/

namespace Lib

variable {α κ : Type} (fits : List α → Prop) [DecidablePred fits]

def evicted : List α → List α
  | [] => []
  | x :: xs => if fits (x :: xs) then [] else x :: evicted xs

/-- The rest. -/
def kept : List α → List α
  | [] => []
  | x :: xs => if fits (x :: xs) then x :: xs else kept xs

variable {fits} {xs ys : List α} {x : α}

theorem evicted_append_kept (fits : List α → Prop) [DecidablePred fits] (xs : List α) :
    evicted fits xs ++ kept fits xs = xs := by
  induction xs with
  | nil => rfl
  | cons x xs ih =>
    rw [evicted, kept]
    by_cases h : fits (x :: xs)
    · simp [h]
    · simp [h, ih]

theorem fits_kept (hnil : fits []) (xs : List α) : fits (kept fits xs) := by
  induction xs with
  | nil => exact hnil
  | cons x xs ih =>
    rw [kept]
    by_cases h : fits (x :: xs)
    · simp [h]
    · simpa [h] using ih

theorem fits_of_kept_ne_nil (h : kept fits xs ≠ []) : fits (kept fits xs) := by
  induction xs with
  | nil => exact absurd rfl h
  | cons x xs ih =>
    rw [kept] at h ⊢
    by_cases hf : fits (x :: xs)
    · simp [hf]
    · rw [if_neg hf] at h ⊢
      exact ih h

theorem evicted_of_fits (h : fits xs) : evicted fits xs = [] := by
  cases xs with
  | nil => rfl
  | cons x xs => rw [evicted, if_pos h]

/-- The first record goes unless the whole list fits. -/
theorem mem_evicted_head (h : ¬ fits (x :: xs)) : x ∈ evicted fits (x :: xs) := by
  rw [evicted, if_neg h]
  exact List.mem_cons_self

/-! ## The longest suffix -/

theorem kept_suffix (fits : List α → Prop) [DecidablePred fits] (xs : List α) :
    kept fits xs <:+ xs := ⟨evicted fits xs, evicted_append_kept fits xs⟩

theorem length_le_length_kept (hsuffix : ys <:+ xs) (hfits : fits ys) :
    ys.length ≤ (kept fits xs).length := by
  induction xs with
  | nil => simp [List.suffix_nil.mp hsuffix]
  | cons x xs ih =>
    rw [kept]
    by_cases hf : fits (x :: xs)
    · rw [if_pos hf]
      exact hsuffix.length_le
    · rw [if_neg hf]
      rcases List.suffix_cons_iff.mp hsuffix with rfl | hsuffix
      · exact absurd hfits hf
      · exact ih hsuffix

theorem kept_kept_append (hinit : ∀ xs ys : List α, fits (xs ++ ys) → fits xs) :
    kept fits (kept fits xs ++ ys) = kept fits (xs ++ ys) := by
  induction xs with
  | nil => rfl
  | cons x xs ih =>
    by_cases hf : fits (x :: xs)
    · rw [kept, if_pos hf]
    · have hmore : ¬ fits (x :: (xs ++ ys)) := fun h => hf (hinit (x :: xs) ys h)
      rw [kept, if_neg hf, ih, List.cons_append]
      exact (if_neg hmore).symm

theorem kept_length_and (n : Nat) (fits : List α → Prop) [DecidablePred fits] (xs : List α) :
    kept (fun xs => xs.length ≤ n ∧ fits xs) xs = kept fits (xs.drop (xs.length - n)) := by
  induction xs with
  | nil => simp [kept]
  | cons x xs ih =>
    rw [kept]
    by_cases hlength : (x :: xs).length ≤ n
    · have hnone : xs.length - n = 0 := by
        rw [List.length_cons] at hlength
        omega
      rw [Nat.sub_eq_zero_of_le hlength, List.drop_zero, kept]
      by_cases hf : fits (x :: xs)
      · rw [if_pos ⟨hlength, hf⟩, if_pos hf]
      · rw [if_neg fun h => hf h.2, if_neg hf, ih, hnone, List.drop_zero]
    · have hone : (x :: xs).length - n = xs.length - n + 1 := by
        rw [List.length_cons] at hlength ⊢
        omega
      rw [if_neg fun h => hlength h.1, ih, hone, List.drop_succ_cons]

/-! ## Membership -/

theorem mem_evicted_iff (hmono : ∀ {xs ys : List α}, xs <:+ ys → fits ys → fits xs) :
    x ∈ evicted fits xs ↔ ∃ pre post, xs = pre ++ x :: post ∧ ¬ fits (x :: post) := by
  induction xs with
  | nil => simp [evicted]
  | cons y xs ih =>
    rw [evicted]
    by_cases hf : fits (y :: xs)
    · rw [if_pos hf]
      constructor
      · intro h
        cases h
      · rintro ⟨pre, post, heq, hno⟩
        refine absurd (hmono ?_ hf) hno
        rw [heq]
        exact List.suffix_append pre (x :: post)
    · rw [if_neg hf, List.mem_cons, ih]
      constructor
      · rintro (rfl | ⟨pre, post, rfl, hno⟩)
        · exact ⟨[], xs, rfl, hf⟩
        · exact ⟨y :: pre, post, rfl, hno⟩
      · rintro ⟨pre, post, heq, hno⟩
        cases pre with
        | nil =>
          obtain ⟨rfl, rfl⟩ : y = x ∧ xs = post := by simpa using heq
          exact .inl rfl
        | cons z pre =>
          obtain ⟨rfl, rfl⟩ : y = z ∧ xs = pre ++ x :: post := by simpa using heq
          exact .inr ⟨pre, post, rfl, hno⟩

theorem exists_first (le : α → α → Bool) (hrefl : le x x) (htrans : ∀ {a b c}, le a b → le b c → le a c)
    (hs : xs.Pairwise fun a b => le a b) (hx : x ∈ xs) :
    ∃ pre y post, xs = pre ++ y :: post ∧ le x y ∧ (x = y ∨ x ∈ post) ∧
      xs.filter (le x) = y :: post := by
  induction xs with
  | nil => cases hx
  | cons z xs ih =>
    rw [List.pairwise_cons] at hs
    by_cases hz : le x z
    · have hall : ∀ a ∈ z :: xs, le x a := by
        intro a ha
        rcases List.mem_cons.mp ha with rfl | ha
        · exact hz
        · exact htrans hz (hs.1 a ha)
      exact ⟨[], z, xs, rfl, hz, by simpa using hx, List.filter_eq_self.mpr hall⟩
    · have hne : x ≠ z := fun heq => hz (heq ▸ hrefl)
      obtain ⟨pre, y, post, rfl, hy, hmem, hfilter⟩ := ih hs.2 ((List.mem_cons.mp hx).resolve_left hne)
      exact ⟨z :: pre, y, post, rfl, hy, hmem, by rw [List.filter_cons_of_neg hz, hfilter]⟩

theorem evicted_key_iff (le : α → α → Bool) (hrefl : ∀ a, le a a)
    (htrans : ∀ {a b c}, le a b → le b c → le a c) (key : α → κ)
    (hkey : ∀ {a b}, le a b → le b a → key a = key b)
    (hmono : ∀ {xs ys : List α}, xs.Sublist ys → fits ys → fits xs)
    (hs : xs.Pairwise fun a b => le a b) {k : κ} :
    k ∈ (evicted fits xs).map key ↔ ∃ x ∈ xs, key x = k ∧ ¬ fits (xs.filter (le x)) := by
  have hmem {x : α} : x ∈ evicted fits xs ↔ ∃ pre post, xs = pre ++ x :: post ∧
      ¬ fits (x :: post) := mem_evicted_iff fun hsuffix => hmono hsuffix.sublist
  rw [List.mem_map]
  constructor
  · rintro ⟨x, hx, rfl⟩
    obtain ⟨pre, post, heq, hno⟩ := hmem.mp hx
    refine ⟨x, heq ▸ by simp, rfl, fun hf => hno (hmono ?_ hf)⟩
    have hpost : (x :: post).filter (le x) = x :: post := by
      refine List.filter_eq_self.mpr fun a ha => ?_
      rcases List.mem_cons.mp ha with rfl | ha
      · exact hrefl a
      · rw [heq] at hs
        exact (List.pairwise_cons.mp (List.pairwise_append.mp hs).2.1).1 a ha
    rw [heq, List.filter_append, hpost]
    exact List.sublist_append_right _ _
  · rintro ⟨x, hx, rfl, hno⟩
    obtain ⟨pre, y, post, heq, hxy, hor, hfilter⟩ := exists_first le (hrefl x) htrans hs hx
    refine ⟨y, hmem.mpr ⟨pre, post, heq, hfilter ▸ hno⟩, ?_⟩
    rcases hor with rfl | hpost
    · rfl
    · refine (hkey hxy ?_).symm
      rw [heq] at hs
      exact (List.pairwise_cons.mp (List.pairwise_append.mp hs).2.1).1 x hpost

theorem filter_eq_drop {p : α → Bool} {xs : List α} (h : xs.Pairwise fun x y => p x → p y) :
    ∃ k, xs.filter p = xs.drop k := by
  induction h with
  | nil => exact ⟨0, rfl⟩
  | @cons x xs hx _ ih =>
    by_cases hp : p x
    · refine ⟨0, ?_⟩
      rw [List.filter_cons_of_pos hp, List.filter_eq_self.mpr fun y hy => hx y hy hp, List.drop_zero]
    · obtain ⟨k, hk⟩ := ih
      exact ⟨k + 1, by rw [List.filter_cons_of_neg hp, hk, List.drop_succ_cons]⟩

end Lib
