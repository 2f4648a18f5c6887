import Mathlib.Data.List.DropRight

/-!
# Terminated records

A file of records, each closed by a separator. What follows the last separator is a record that
was not finished; a reader takes the finished ones.
-/

namespace Lib

variable {α : Type}

/-- The records, each closed by the separator. -/
def terminated (sep : α) (records : List (List α)) : List α := records.flatMap (· ++ [sep])

theorem terminated_append (sep : α) (rs rs' : List (List α)) :
    terminated sep (rs ++ rs') = terminated sep rs ++ terminated sep rs' := List.flatMap_append

theorem terminated_singleton (sep : α) (r : List α) : terminated sep [r] = r ++ [sep] := by
  simp [terminated]

theorem terminated_eq_nil_or (sep : α) (rs : List (List α)) :
    terminated sep rs = [] ∨ ∃ init, terminated sep rs = init ++ [sep] := by
  rcases List.eq_nil_or_concat rs with rfl | ⟨init, r, rfl⟩
  · exact .inl rfl
  · refine .inr ⟨terminated sep init ++ r, ?_⟩
    rw [List.concat_eq_append, terminated_append, terminated_singleton, List.append_assoc]

variable [DecidableEq α] (sep : α)

/-- What follows the last separator. -/
def unfinished (file : List α) : List α := file.rtakeWhile (· ≠ sep)

/-- The finished records that are not empty. -/
def finished (file : List α) : List (List α) :=
  ((file.rdropWhile (· ≠ sep)).splitOn sep).filter (!·.isEmpty)

variable {sep}

theorem rdropWhile_terminated_append (rs : List (List α)) {tail : List α} (htail : sep ∉ tail) :
    (terminated sep rs ++ tail).rdropWhile (· ≠ sep) = terminated sep rs := by
  induction tail using List.reverseRecOn with
  | nil =>
    rw [List.append_nil]
    rcases terminated_eq_nil_or sep rs with h | ⟨init, h⟩
    · rw [h]; rfl
    · rw [h]; exact List.rdropWhile_concat_neg _ _ _ (by simp)
  | append_singleton tail a ih =>
    rw [List.mem_append, List.mem_singleton, not_or] at htail
    rw [← List.append_assoc, List.rdropWhile_concat_pos _ _ _ (by simpa using Ne.symm htail.2)]
    exact ih htail.1

theorem unfinished_terminated_append (rs : List (List α)) {tail : List α} (htail : sep ∉ tail) :
    unfinished sep (terminated sep rs ++ tail) = tail := by
  have hcut := rdropWhile_terminated_append rs htail
  have hsplit := List.rdropWhile_append_rtakeWhile (p := (· ≠ sep))
    (l := terminated sep rs ++ tail)
  rw [hcut] at hsplit
  exact List.append_cancel_left hsplit

theorem splitOn_terminated {rs : List (List α)} (hrs : ∀ r ∈ rs, sep ∉ r) :
    (terminated sep rs).splitOn sep = rs ++ [[]] := by
  induction rs with
  | nil => rfl
  | cons r rs ih =>
    have hcons : terminated sep (r :: rs) = r ++ sep :: terminated sep rs := by
      simp [terminated]
    rw [hcons, List.splitOn_append_cons_self_of_not_mem (hrs r (by simp)),
      ih fun r' hr' => hrs r' (by simp [hr'])]
    rfl

theorem count_terminated {rs : List (List α)} (hrs : ∀ r ∈ rs, sep ∉ r) :
    (terminated sep rs).count sep = rs.length := by
  induction rs with
  | nil => rfl
  | cons r rs ih =>
    have hcons : terminated sep (r :: rs) = r ++ [sep] ++ terminated sep rs := by simp [terminated]
    rw [hcons, List.count_append, ih fun r' hr' => hrs r' (by simp [hr']), List.count_append,
      List.count_eq_zero.mpr (hrs r (by simp)), List.count_singleton_self, List.length_cons]
    omega

theorem splitOn_terminated_append {rs : List (List α)} {tail : List α} (hrs : ∀ r ∈ rs, sep ∉ r)
    (htail : sep ∉ tail) : (terminated sep rs ++ tail).splitOn sep = rs ++ [tail] := by
  induction rs with
  | nil => exact List.splitOn_eq_singleton htail
  | cons r rs ih =>
    have hcons : terminated sep (r :: rs) ++ tail = r ++ sep :: (terminated sep rs ++ tail) := by
      simp [terminated]
    rw [hcons, List.splitOn_append_cons_self_of_not_mem (hrs r (by simp)),
      ih fun r' hr' => hrs r' (by simp [hr'])]
    rfl

theorem exists_terminated_append (sep : α) (file : List α) :
    ∃ rs tail, file = terminated sep rs ++ tail ∧ (∀ r ∈ rs, sep ∉ r) ∧ sep ∉ tail := by
  induction file with
  | nil => exact ⟨[], [], rfl, by simp, by simp⟩
  | cons a file ih =>
    obtain ⟨rs, tail, rfl, hrs, htail⟩ := ih
    by_cases ha : a = sep
    · refine ⟨[] :: rs, tail, by simp [ha, terminated], ?_, htail⟩
      exact List.forall_mem_cons.mpr ⟨List.not_mem_nil, hrs⟩
    · cases rs with
      | nil => exact ⟨[], a :: tail, rfl, by simp, by simp [Ne.symm ha, htail]⟩
      | cons r rs =>
        rw [List.forall_mem_cons] at hrs
        refine ⟨(a :: r) :: rs, tail, by simp [terminated], ?_, htail⟩
        exact List.forall_mem_cons.mpr ⟨by simp [Ne.symm ha, hrs.1], hrs.2⟩

/-- The reader finds the records that were finished. -/
theorem finished_terminated_append {rs : List (List α)} {tail : List α}
    (hrs : ∀ r ∈ rs, sep ∉ r ∧ r ≠ []) (htail : sep ∉ tail) :
    finished sep (terminated sep rs ++ tail) = rs := by
  rw [finished, rdropWhile_terminated_append rs htail, splitOn_terminated fun r hr => (hrs r hr).1,
    List.filter_append]
  have hne : rs.filter (!·.isEmpty) = rs := by
    refine List.filter_eq_self.mpr fun r hr => ?_
    simpa using (hrs r hr).2
  simp [hne]

theorem not_mem_of_mem_splitOn {sep : α} {xs line : List α}
    (h : line ∈ xs.splitOn sep) : sep ∉ line := by
  induction xs generalizing line with
  | nil =>
    rw [List.splitOn_nil, List.mem_singleton] at h
    simp [h]
  | cons x xs ih =>
    rw [List.splitOn_cons_eq_if_modifyHead] at h
    by_cases hx : x = sep
    · rw [if_pos (by simp [hx])] at h
      rcases List.mem_cons.mp h with rfl | h
      · simp
      · exact ih h
    · rw [if_neg (by simp [hx])] at h
      obtain ⟨first, rest, hsplit⟩ := List.exists_cons_of_ne_nil (List.splitOn_ne_nil sep xs)
      rw [hsplit] at h ih
      rcases List.mem_cons.mp h with rfl | h
      · have hrest := @ih first (by simp)
        simp [hrest, Ne.symm hx]
      · exact ih (by simp [h])

end Lib
