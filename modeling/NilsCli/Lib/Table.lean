import Mathlib.Data.List.AList
import NilsCli.Lib.ListUpdate

/-!
# Keyed tables

A finite map with unique keys is an `AList` with constant value type.
-/

namespace Lib

/-- A finite map from `κ` to `ν`. -/
abbrev Table (κ ν : Type) := AList fun _ : κ => ν

namespace Table

variable {κ ν : Type}

/-- The rows that satisfy `p`. -/
def filter (p : κ → ν → Bool) (t : Table κ ν) : Table κ ν where
  entries := t.entries.filter fun row => p row.1 row.2
  nodupKeys := t.nodupKeys.sublist (List.filter_sublist)

/-- Every value changed by `f`. -/
def mapVal (f : κ → ν → ν) (t : Table κ ν) : Table κ ν where
  entries := t.entries.map fun row => ⟨row.1, f row.1 row.2⟩
  nodupKeys := by
    have : (t.entries.map fun row => (⟨row.1, f row.1 row.2⟩ : Sigma fun _ : κ => ν)).keys =
        t.entries.keys := by simp [List.keys, Function.comp_def]
    rw [List.NodupKeys, this]
    exact t.nodupKeys

def filterMapVal {μ : Type} (f : κ → ν → Option μ) (t : Table κ ν) : Table κ μ where
  entries := t.entries.filterMap fun row => (f row.1 row.2).map (⟨row.1, ·⟩)
  nodupKeys := by
    rw [List.nodupKeys_iff_pairwise]
    refine List.Pairwise.filterMap _ (fun row row' hne r hr r' hr' => ?_) t.nodupKeys.pairwise_ne
    obtain ⟨_, -, rfl⟩ := Option.map_eq_some_iff.mp hr
    obtain ⟨_, -, rfl⟩ := Option.map_eq_some_iff.mp hr'
    exact hne

/-- The number of rows. -/
def size (t : Table κ ν) : Nat := t.entries.length

/-- The values, in the order of the rows. -/
def values (t : Table κ ν) : List ν := t.entries.map (·.2)

theorem eq_self_iff_of_sublist {t t' : Table κ ν} (h : t'.entries.Sublist t.entries) :
    t' = t ↔ t'.size = t.size :=
  ⟨congrArg size, fun hsize => AList.ext (h.eq_of_length hsize)⟩

variable [DecidableEq κ]

def modify (k : κ) (f : ν → ν) (t : Table κ ν) : Table κ ν :=
  t.mapVal fun k' v => if k' = k then f v else v

theorem lookup_eq_some_iff {t : Table κ ν} {k : κ} {v : ν} :
    t.lookup k = some v ↔ (⟨k, v⟩ : Sigma fun _ : κ => ν) ∈ t.entries := AList.mem_lookup_iff

theorem lookup_insert_eq_some {t : Table κ ν} {k k' : κ} {v w : ν} :
    (t.insert k v).lookup k' = some w ↔ k' = k ∧ v = w ∨ k' ≠ k ∧ t.lookup k' = some w := by
  by_cases h : k' = k
  · subst h
    simp
  · simp [h, AList.lookup_insert_ne h]

theorem lookup_filter (p : κ → ν → Bool) (t : Table κ ν) (k : κ) :
    (t.filter p).lookup k = (t.lookup k).filter (p k) := by
  ext v
  rw [lookup_eq_some_iff, filter, List.mem_filter, Option.filter_eq_some_iff, lookup_eq_some_iff]

theorem lookup_filterMapVal {μ : Type} (f : κ → ν → Option μ) (t : Table κ ν) (k : κ) :
    (t.filterMapVal f).lookup k = (t.lookup k).bind (f k) := by
  ext v
  rw [lookup_eq_some_iff, filterMapVal, Option.bind_eq_some_iff, List.mem_filterMap]
  constructor
  · rintro ⟨row, hrow, hv⟩
    obtain ⟨w, hw, heq⟩ := Option.map_eq_some_iff.mp hv
    cases heq
    exact ⟨row.2, lookup_eq_some_iff.mpr hrow, hw⟩
  · rintro ⟨w, hw, hv⟩
    exact ⟨⟨k, w⟩, lookup_eq_some_iff.mp hw, by rw [hv]; rfl⟩

theorem filter_eq_self {p : κ → ν → Bool} {t : Table κ ν}
    (h : ∀ k v, t.lookup k = some v → p k v) : t.filter p = t := by
  refine AList.ext (List.filter_eq_self.mpr fun row hrow => ?_)
  exact h row.1 row.2 (lookup_eq_some_iff.mpr hrow)

theorem lookup_mapVal (f : κ → ν → ν) (t : Table κ ν) (k : κ) :
    (t.mapVal f).lookup k = (t.lookup k).map (f k) := by
  ext v
  rw [lookup_eq_some_iff, mapVal, Option.map_eq_some_iff]
  constructor
  · intro h
    obtain ⟨row, hrow, heq⟩ := List.mem_map.mp h
    cases heq
    exact ⟨row.2, lookup_eq_some_iff.mpr hrow, rfl⟩
  · rintro ⟨w, hw, rfl⟩
    exact List.mem_map.mpr ⟨⟨k, w⟩, lookup_eq_some_iff.mp hw, rfl⟩

theorem lookup_modify (f : ν → ν) (t : Table κ ν) (k k' : κ) :
    (t.modify k f).lookup k' = if k' = k then (t.lookup k').map f else t.lookup k' := by
  rw [modify, lookup_mapVal]
  split <;> simp_all

theorem lookup_modify_self (f : ν → ν) (t : Table κ ν) (k : κ) :
    (t.modify k f).lookup k = (t.lookup k).map f := by
  rw [lookup_modify, if_pos rfl]

theorem lookup_modify_of_ne (f : ν → ν) (t : Table κ ν) {k k' : κ} (h : k' ≠ k) :
    (t.modify k f).lookup k' = t.lookup k' := by
  rw [lookup_modify, if_neg h]

theorem mem_values_iff {t : Table κ ν} {v : ν} : v ∈ t.values ↔ ∃ k, t.lookup k = some v := by
  simp only [values, List.mem_map, lookup_eq_some_iff]
  constructor
  · rintro ⟨row, hrow, rfl⟩
    exact ⟨row.1, hrow⟩
  · rintro ⟨k, hk⟩
    exact ⟨_, hk, rfl⟩

theorem any_values_eq_false {t : Table κ ν} {p : ν → Bool} :
    t.values.any p = false ↔ ∀ k v, t.lookup k = some v → p v = false := by
  simp only [List.any_eq_false, mem_values_iff, Bool.not_eq_true, forall_exists_index]
  exact forall_comm

/-- The rows inserted one after another. -/
def insertAll (rows : List (κ × ν)) (t : Table κ ν) : Table κ ν :=
  rows.foldl (fun t row => t.insert row.1 row.2) t

/-- What is found was inserted or was there before. -/
theorem lookup_insertAll {rows : List (κ × ν)} {t : Table κ ν} {k : κ} {v : ν}
    (h : (t.insertAll rows).lookup k = some v) : (k, v) ∈ rows ∨ t.lookup k = some v := by
  induction rows generalizing t with
  | nil => exact .inr h
  | cons row rows ih =>
    rcases ih h with hmem | hlookup
    · exact .inl (List.mem_cons_of_mem _ hmem)
    · by_cases hk : k = row.1
      · subst hk
        rw [AList.lookup_insert] at hlookup
        cases hlookup
        exact .inl List.mem_cons_self
      · rw [AList.lookup_insert_ne hk] at hlookup
        exact .inr hlookup

/-- A key stays, and every inserted key is there. -/
theorem isSome_lookup_insertAll {rows : List (κ × ν)} {t : Table κ ν} {k : κ}
    (h : k ∈ rows.map (·.1) ∨ (t.lookup k).isSome) : ((t.insertAll rows).lookup k).isSome := by
  induction rows generalizing t with
  | nil => simpa [insertAll] using h
  | cons row rows ih =>
    refine ih ?_
    by_cases hk : k = row.1
    · subst hk
      exact .inr (by rw [AList.lookup_insert]; rfl)
    · rw [AList.lookup_insert_ne hk]
      simpa [hk] using h

theorem size_le_of_keys {μ : Type} {t : Table κ ν} {t' : Table κ μ}
    (h : ∀ k, (t.lookup k).isSome → (t'.lookup k).isSome) : t.size ≤ t'.size := by
  have hsub : t.keys ⊆ t'.keys := fun k hk =>
    AList.mem_keys.mp (AList.lookup_isSome.mp (h k (AList.lookup_isSome.mpr (AList.mem_keys.mpr hk))))
  have hlength := (List.subperm_of_subset t.keys_nodup hsub).length_le
  simpa [size, AList.keys, List.keys] using hlength

theorem size_insert_le (t : Table κ ν) (k : κ) (v : ν) : size (t.insert k v) ≤ t.size + 1 := by
  have hlength : size (t.insert k v) = (t.keys.erase k).length + 1 := by
    rw [size, ← List.length_map Sigma.fst]
    show (t.insert k v).keys.length = _
    rw [AList.keys_insert, List.length_cons]
  have hkeys : t.keys.length = t.size := by simp [size, AList.keys, List.keys]
  have herase := List.length_erase_le (a := k) (l := t.keys)
  omega

theorem size_insertAll_le (rows : List (κ × ν)) (t : Table κ ν) :
    (t.insertAll rows).size ≤ t.size + rows.length := by
  induction rows generalizing t with
  | nil => exact Nat.le_refl _
  | cons row rows ih =>
    have hinsert := t.size_insert_le row.1 row.2
    have hrest := ih (t.insert row.1 row.2)
    rw [List.length_cons]
    calc (t.insertAll (row :: rows)).size ≤ size (t.insert row.1 row.2) + rows.length := hrest
      _ ≤ t.size + (rows.length + 1) := by omega

theorem filter_entries_eq_singleton {t : Table κ ν} {k : κ} {v : ν} (h : t.lookup k = some v)
    {p : (Sigma fun _ : κ => ν) → Bool} (hp : p ⟨k, v⟩) (hkey : ∀ row ∈ t.entries, p row → row.1 = k) :
    t.entries.filter p = [⟨k, v⟩] := by
  refine filter_eq_singleton t.nodupKeys.nodup (lookup_eq_some_iff.mp h) hp fun row hrow hr => ?_
  obtain ⟨k', v'⟩ := row
  obtain rfl : k' = k := hkey _ hrow hr
  rw [Option.some.inj ((lookup_eq_some_iff.mpr hrow).symm.trans h)]

end Table

end Lib
