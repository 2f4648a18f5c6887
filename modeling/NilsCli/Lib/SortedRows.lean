import NilsCli.Lib.SortedMap

/-!
# Rows that are cut into pieces

The rows of a sorted map may be kept in consecutive pieces. Rows that lie before the second piece go
into the first one (`upsertRows_append_left`), rows that lie after the first piece go into the
second one (`upsertRows_append_right`), so a loop over a batch may work piece by piece.
-/

namespace Lib

variable {κ μ ν ε : Type} [LinearOrder κ]

/-- The rows are in the order of their keys. -/
def RowsSorted (rows : List (κ × ν)) : Prop := rows.Pairwise fun a b => a.1 < b.1

/-- The value of a key. -/
def findRow (k : κ) (rows : List (κ × ν)) : Option ν := (rows.find? (·.1 = k)).map (·.2)

theorem SortedMap.find?_eq_findRow (m : SortedMap κ ν) (k : κ) : m.find? k = findRow k m.rows := rfl

theorem findRow_eq_none {k : κ} {rows : List (κ × ν)} (h : ∀ row ∈ rows, row.1 ≠ k) :
    findRow k rows = none := by
  unfold findRow
  rw [List.find?_eq_none.mpr (by simpa using h)]
  rfl

theorem findRow_append (k : κ) (rows rows' : List (κ × ν)) :
    findRow k (rows ++ rows') = (findRow k rows).or (findRow k rows') := by
  unfold findRow
  rw [List.find?_append]
  cases rows.find? (·.1 = k) <;> simp

theorem findRow_append_left {k : κ} {rows rows' : List (κ × ν)} (h : ∀ row ∈ rows', k < row.1) :
    findRow k (rows ++ rows') = findRow k rows := by
  rw [findRow_append, findRow_eq_none fun row hrow => (h row hrow).ne', Option.or_none]

theorem findRow_append_right {k : κ} {rows rows' : List (κ × ν)} (h : ∀ row ∈ rows, row.1 < k) :
    findRow k (rows ++ rows') = findRow k rows' := by
  rw [findRow_append, findRow_eq_none fun row hrow => (h row hrow).ne, Option.none_or]

theorem le_of_mem_takeWhile {k : κ} {rows : List (κ × ν)} :
    ∀ row ∈ rows.takeWhile (·.1 ≤ k), row.1 ≤ k := by
  induction rows with
  | nil => simp
  | cons row rows ih =>
    by_cases hle : row.1 ≤ k
    · rw [List.takeWhile_cons_of_pos (by simpa using hle)]
      exact List.forall_mem_cons.mpr ⟨hle, ih⟩
    · rw [List.takeWhile_cons_of_neg (by simpa using hle)]
      simp

/-- What stands behind the rows up to a key lies after it. -/
theorem lt_of_mem_dropWhile {k : κ} {rows : List (κ × ν)} (h : RowsSorted rows) :
    ∀ row ∈ rows.dropWhile (·.1 ≤ k), k < row.1 := by
  induction rows with
  | nil => simp
  | cons row rows ih =>
    obtain ⟨hrow, hrest⟩ := List.pairwise_cons.mp h
    by_cases hle : row.1 ≤ k
    · rw [List.dropWhile_cons_of_pos (by simpa using hle)]
      exact ih hrest
    · rw [List.dropWhile_cons_of_neg (by simpa using hle)]
      have hlt := not_le.mp hle
      exact List.forall_mem_cons.mpr ⟨hlt, fun row' hrow' => hlt.trans (hrow row' hrow')⟩

namespace SortedMap

theorem insertRow_append_left {k : κ} {v : ν} {rows rows' : List (κ × ν)}
    (h : ∀ row ∈ rows', k < row.1) :
    insertRow k v (rows ++ rows') = insertRow k v rows ++ rows' := by
  induction rows with
  | nil =>
    cases rows' with
    | nil => rfl
    | cons row rows' => simp [insertRow, h row]
  | cons row rows ih =>
    simp only [List.cons_append, insertRow, ih]
    split
    · rfl
    · split
      · rfl
      · rfl

theorem insertRow_append_right {k : κ} {v : ν} {rows rows' : List (κ × ν)}
    (h : ∀ row ∈ rows, row.1 < k) :
    insertRow k v (rows ++ rows') = rows ++ insertRow k v rows' := by
  induction rows with
  | nil => rfl
  | cons row rows ih =>
    have hrow : row.1 < k := h row (by simp)
    rw [List.cons_append, insertRow, if_neg hrow.not_gt, if_neg hrow.ne', List.cons_append,
      ih fun row hrow => h row (by simp [hrow])]

theorem key_insertRow {p : κ → Prop} {k : κ} {v : ν} {rows : List (κ × ν)} (hk : p k)
    (h : ∀ row ∈ rows, p row.1) : ∀ row ∈ insertRow k v rows, p row.1 := by
  induction rows with
  | nil => simpa [insertRow] using hk
  | cons row rows ih =>
    obtain ⟨hrow, hrest⟩ := List.forall_mem_cons.mp h
    unfold insertRow
    split
    · simpa [hk, hrow] using hrest
    · split
      · simpa [hk] using hrest
      · simpa [hrow] using ih hrest

def upsertRows (f : κ → Option ν → μ → Except ε ν) :
    List (κ × μ) → List (κ × ν) → Except ε (List (κ × ν))
  | [], rows => .ok rows
  | row :: batch, rows => do
    let v ← f row.1 (findRow row.1 rows) row.2
    upsertRows f batch (insertRow row.1 v rows)

variable {f : κ → Option ν → μ → Except ε ν} {batch batch' : List (κ × μ)}
  {rows rows' result : List (κ × ν)}

theorem upsertRows_append (batch' : List (κ × μ)) (h : upsertRows f batch rows = .ok result) :
    upsertRows f (batch ++ batch') rows = upsertRows f batch' result := by
  induction batch generalizing rows with
  | nil =>
    cases h
    rfl
  | cons row batch ih =>
    obtain ⟨v, hv, h⟩ := bind_eq_ok.mp h
    rw [List.cons_append, upsertRows, hv, ok_bind, ih h]

theorem upsertRows_append_left (hbatch : ∀ row ∈ batch, ∀ row' ∈ rows', row.1 < row'.1)
    (h : upsertRows f batch rows = .ok result) :
    upsertRows f batch (rows ++ rows') = .ok (result ++ rows') := by
  induction batch generalizing rows with
  | nil =>
    cases h
    rfl
  | cons row batch ih =>
    obtain ⟨v, hv, h⟩ := bind_eq_ok.mp h
    obtain ⟨hrow, hbatch⟩ := List.forall_mem_cons.mp hbatch
    rw [upsertRows, findRow_append_left hrow, hv, ok_bind, insertRow_append_left hrow]
    exact ih hbatch h

theorem upsertRows_append_right (hbatch : ∀ row ∈ batch, ∀ row' ∈ rows, row'.1 < row.1)
    (h : upsertRows f batch rows' = .ok result) :
    upsertRows f batch (rows ++ rows') = .ok (rows ++ result) := by
  induction batch generalizing rows' with
  | nil =>
    cases h
    rfl
  | cons row batch ih =>
    obtain ⟨v, hv, h⟩ := bind_eq_ok.mp h
    obtain ⟨hrow, hbatch⟩ := List.forall_mem_cons.mp hbatch
    rw [upsertRows, findRow_append_right hrow, hv, ok_bind, insertRow_append_right hrow]
    exact ih hbatch h

theorem upsertRows_sorted (hrows : RowsSorted rows) (h : upsertRows f batch rows = .ok result) :
    RowsSorted result := by
  induction batch generalizing rows with
  | nil =>
    cases h
    exact hrows
  | cons row batch ih =>
    obtain ⟨v, -, h⟩ := bind_eq_ok.mp h
    exact ih (insertRow_sorted hrows _ _) h

theorem key_upsertRows {p : κ → Prop} (hbatch : ∀ row ∈ batch, p row.1)
    (hrows : ∀ row ∈ rows, p row.1) (h : upsertRows f batch rows = .ok result) :
    ∀ row ∈ result, p row.1 := by
  induction batch generalizing rows with
  | nil =>
    cases h
    exact hrows
  | cons row batch ih =>
    obtain ⟨v, -, h⟩ := bind_eq_ok.mp h
    obtain ⟨hrow, hbatch⟩ := List.forall_mem_cons.mp hbatch
    exact ih hbatch (key_insertRow hrow hrows) h

theorem upsertRows_fresh {batch : List (κ × ν)} {f : κ → Option ν → ν → Except ε ν}
    (hf : ∀ k v, f k none v = .ok v) (h : RowsSorted (rows ++ batch)) :
    upsertRows f batch rows = .ok (rows ++ batch) := by
  induction batch generalizing rows with
  | nil => simp [upsertRows]
  | cons row batch ih =>
    have hbefore : ∀ row' ∈ rows, row'.1 < row.1 := fun row' hrow' =>
      (List.pairwise_append.mp h).2.2 row' hrow' row (by simp)
    have hnone : findRow row.1 rows = none :=
      findRow_eq_none fun row' hrow' => (hbefore row' hrow').ne
    have hlast : insertRow row.1 row.2 rows = rows ++ [row] := by
      have hinsert : insertRow row.1 row.2 (rows ++ []) = rows ++ insertRow row.1 row.2 [] :=
        insertRow_append_right hbefore
      rwa [List.append_nil] at hinsert
    rw [upsertRows, hnone, hf, ok_bind, hlast, ih (by simpa using h), List.append_assoc]
    rfl

/-- The loop over the rows is the loop over the map. -/
theorem upsertAll_rows {m m' : SortedMap κ ν} :
    upsertAll f batch m = .ok m' ↔ upsertRows f batch m.rows = .ok m'.rows := by
  induction batch generalizing m with
  | nil =>
    constructor
    · intro h
      cases h
      rfl
    · intro h
      cases m
      cases m'
      cases h
      rfl
  | cons row batch ih =>
    unfold upsertAll upsertRows
    rw [bind_eq_ok, bind_eq_ok]
    exact exists_congr fun v => and_congr_right fun _ => ih

/-- A map from rows that come one after another. -/
def ofRows (rows : List (κ × ν)) : SortedMap κ ν :=
  rows.foldl (fun m row => m.insert row.1 row.2) empty

theorem rows_ofRows (h : RowsSorted rows) : (ofRows rows).rows = rows := by
  have hall : ∀ (rest : List (κ × ν)) (m : SortedMap κ ν), RowsSorted (m.rows ++ rest) →
      (rest.foldl (fun m row => m.insert row.1 row.2) m).rows = m.rows ++ rest := by
    intro rest
    induction rest with
    | nil => simp
    | cons row rest ih =>
      intro m hsorted
      have hlast : insertRow row.1 row.2 m.rows = m.rows ++ [row] := by
        have hbefore : ∀ row' ∈ m.rows, row'.1 < row.1 := fun row' hrow' =>
          (List.pairwise_append.mp hsorted).2.2 row' hrow' row (by simp)
        have happend : insertRow row.1 row.2 (m.rows ++ []) =
            m.rows ++ insertRow row.1 row.2 [] := insertRow_append_right hbefore
        rwa [List.append_nil] at happend
      have hinsert : (m.insert row.1 row.2).rows = m.rows ++ [row] := hlast
      rw [List.foldl_cons, ih _ (by rw [hinsert]; simpa using hsorted), hinsert,
        List.append_assoc]
      rfl
  exact hall rows empty h

end SortedMap

end Lib
