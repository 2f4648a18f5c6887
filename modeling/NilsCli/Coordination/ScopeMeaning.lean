import Mathlib.Data.Set.Basic
import NilsCli.Lib.PathOrder
import NilsCli.Coordination.Context

/-!
# What a scope means

A scope stands for a set of files: pairs of a repository and a path.
-/

namespace NilsCli.Coordination

open Lib

variable {target left right : Scope}

/-- The paths of a scope within its repository. -/
def Scope.paths (scope : Scope) : Set (List Char) :=
  match scope.kind with
  | .repository => Set.univ
  | .pathExact => {scope.value.toList}
  | .pathPrefix => { path | Below '/' path scope.value.toList }

/-- The files of a scope. -/
def Scope.files (scope : Scope) : Set (String × List Char) :=
  { file | file.1 = scope.repository ∧ file.2 ∈ scope.paths }

theorem pathIsWithin_iff {path pre : String} :
    pathIsWithin path pre ↔ Below '/' path.toList pre.toList := by
  have heq : path = pre ↔ path.toList = pre.toList := String.toList_inj.symm
  unfold pathIsWithin stripPrefix? Below
  rw [Bool.or_eq_true, decide_eq_true_eq, heq]
  refine or_congr_right ?_
  constructor
  · intro h
    split at h
    case isTrue hpre =>
      obtain ⟨t, ht⟩ := List.isPrefixOf_iff_prefix.mp hpre
      rw [← ht] at h ⊢
      cases t with
      | nil => simp at h
      | cons c t =>
        obtain rfl : c = '/' := by simpa using h
        exact ⟨t, rfl⟩
    case isFalse => cases h
  · rintro ⟨rest, hrest⟩
    have hpre : pre.toList.isPrefixOf path.toList := by
      rw [List.isPrefixOf_iff_prefix, hrest]
      exact List.prefix_append _ _
    rw [if_pos hpre, hrest]
    simp

theorem value_mem_paths (scope : Scope) : scope.value.toList ∈ scope.paths := by
  obtain ⟨kind, repository, value⟩ := scope
  cases kind with
  | repository => exact Set.mem_univ _
  | pathExact => exact Set.mem_singleton _
  | pathPrefix => exact .refl _ _

/-- A scope that covers another contains its files. -/
theorem files_subset_of_scopeCovers {claim : Scope} (h : scopeCovers claim target) :
    target.files ⊆ claim.files := by
  obtain ⟨ck, cr, cv⟩ := claim
  obtain ⟨tk, tr, tv⟩ := target
  rintro ⟨repository, path⟩ ⟨hrepo, hpath⟩
  rw [scopeCovers, Bool.and_eq_true, decide_eq_true_eq] at h
  refine ⟨hrepo.trans h.1.symm, ?_⟩
  cases ck <;> cases tk <;> simp_all [Scope.paths, pathIsWithin_iff]
  exact hpath.trans h.2

theorem scopesOverlap_iff_value :
    scopesOverlap left right ↔ left.repository = right.repository ∧
      (left.value.toList ∈ right.paths ∨ right.value.toList ∈ left.paths) := by
  obtain ⟨lk, lr, lv⟩ := left
  obtain ⟨rk, rr, rv⟩ := right
  rw [scopesOverlap, Bool.and_eq_true, decide_eq_true_eq]
  refine and_congr_right fun _ => ?_
  cases lk <;> cases rk <;> simp [Scope.paths, pathIsWithin_iff, ← String.toList_inj]
  case pathExact.pathExact => exact fun h => h.symm
  case pathExact.pathPrefix => exact fun h => .inl h.symm
  case pathPrefix.pathExact => exact fun h => .inl h.symm

theorem value_mem_paths_of_meet {path : List Char} (hl : path ∈ left.paths)
    (hr : path ∈ right.paths) :
    left.value.toList ∈ right.paths ∨ right.value.toList ∈ left.paths := by
  obtain ⟨lk, lr, lv⟩ := left
  obtain ⟨rk, rr, rv⟩ := right
  cases lk with
  | repository => exact .inr (Set.mem_univ _)
  | pathExact => exact .inl (Set.mem_singleton_iff.mp hl ▸ hr)
  | pathPrefix =>
    cases rk with
    | repository => exact .inl (Set.mem_univ _)
    | pathExact => exact .inr (Set.mem_singleton_iff.mp hr ▸ hl)
    | pathPrefix => exact Below.comparable hl hr

theorem scopesOverlap_iff :
    scopesOverlap left right ↔ (left.files ∩ right.files).Nonempty := by
  rw [scopesOverlap_iff_value]
  constructor
  · rintro ⟨hrepo, h | h⟩
    · exact ⟨(left.repository, left.value.toList), ⟨rfl, value_mem_paths _⟩, hrepo, h⟩
    · exact ⟨(left.repository, right.value.toList), ⟨rfl, h⟩, hrepo, value_mem_paths _⟩
  · rintro ⟨⟨repository, path⟩, ⟨hl, hlp⟩, ⟨hr, hrp⟩⟩
    exact ⟨hl.symm.trans hr, value_mem_paths_of_meet hlp hrp⟩

theorem scopesOverlap_of_covers {claim claim' target' : Scope}
    (h : scopeCovers claim target) (h' : scopeCovers claim' target')
    (ho : scopesOverlap target target') : scopesOverlap claim claim' := by
  rw [scopesOverlap_iff] at ho ⊢
  exact ho.mono (Set.inter_subset_inter (files_subset_of_scopeCovers h)
    (files_subset_of_scopeCovers h'))

end NilsCli.Coordination
