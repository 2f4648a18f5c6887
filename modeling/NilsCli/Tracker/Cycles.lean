import Mathlib.Order.Minimal
import NilsCli.Tracker.Rows

/-!
# Tracker dependency findings

The cycle findings are the largest sets of two or more ids that all reach one another
(`cycle_findings_exact`).
-/

namespace NilsCli.Tracker

open Lib Relation List

variable {row : Row} {ids : List (String × Nat)} {i : Nat} {b : String} {g : List Nat}

variable {seen : List String} {rows : List Row} {p q : Nat} {id a : String} {finding : Finding}

variable {table : Table}

/-! ## The relation -/

/-- Some row has the id. -/
def Known (table : Table) (id : String) : Prop := ∃ row ∈ table.rows, row.id = id

/-- A row with the first id lists the second one. -/
def DependsOn (table : Table) (a b : String) : Prop := ∃ row ∈ table.rows, row.id = a ∧ b ∈ row.after

/-- A dependency on the id of a row. -/
def KnownDependency (table : Table) (a b : String) : Prop := DependsOn table a b ∧ Known table b

/-- Ids of rows that all reach one another. -/
def MutuallyReach (table : Table) (ids : Set String) : Prop :=
  (∀ a ∈ ids, Known table a) ∧
    ∀ a ∈ ids, ∀ b ∈ ids, ReflTransGen (KnownDependency table) a b

/-- The place of the first row with an id. -/
def firstRow (table : Table) (id : String) : Nat := (table.rows.map (·.id)).idxOf id

/-! ## The distinct ids -/

def firstRows (seen : List String) : List Row → List Row
  | [] => []
  | row :: rows =>
    if row.id ∈ seen then firstRows seen rows else row :: firstRows (row.id :: seen) rows

theorem not_mem_seen (h : row ∈ firstRows seen rows) : row ∈ rows ∧ row.id ∉ seen := by
  induction rows generalizing seen with
  | nil => simp [firstRows] at h
  | cons r rows ih =>
    unfold firstRows at h
    split at h
    next => exact ⟨by simp [(ih h).1], (ih h).2⟩
    next hnew =>
      rcases List.mem_cons.mp h with rfl | h
      · exact ⟨by simp, hnew⟩
      · exact ⟨by simp [(ih h).1], fun hseen => (ih h).2 (by simp [hseen])⟩

theorem firstRows_congr {seen' : List String} (h : ∀ id, id ∈ seen ↔ id ∈ seen')
    (rows : List Row) : firstRows seen rows = firstRows seen' rows := by
  induction rows generalizing seen seen' with
  | nil => rfl
  | cons row rows ih =>
    have hcons : ∀ id, id ∈ row.id :: seen ↔ id ∈ row.id :: seen' := fun id => by simp [h]
    simp only [firstRows, h, ih h, ih hcons]

theorem exists_firstRow (h : row ∈ rows)
    (hnew : row.id ∉ seen) : ∃ first ∈ firstRows seen rows, first.id = row.id := by
  induction rows generalizing seen with
  | nil => simp at h
  | cons r rows ih =>
    unfold firstRows
    split
    next hr =>
      rcases List.mem_cons.mp h with rfl | h
      · exact absurd hr hnew
      · exact ih h hnew
    next hr =>
      rcases List.mem_cons.mp h with rfl | h
      · exact ⟨row, by simp, rfl⟩
      · by_cases heq : row.id = r.id
        · exact ⟨r, by simp, heq.symm⟩
        · have hrest : row.id ∉ r.id :: seen := by simp [heq, hnew]
          obtain ⟨first, hfirst, hid⟩ := ih h hrest
          exact ⟨first, by simp [hfirst], hid⟩

theorem find?_firstRows {p : String → Bool} (hp : ∀ id ∈ seen, p id = false) :
    (firstRows seen rows).find? (fun row => p row.id) = rows.find? (fun row => p row.id) := by
  induction rows generalizing seen with
  | nil => rfl
  | cons row rows ih =>
    unfold firstRows
    split
    next hseen => rw [ih hp, List.find?_cons_of_neg (by simp [hp row.id hseen])]
    next =>
      rw [List.find?_cons, List.find?_cons]
      cases hrow : p row.id with
      | true => rfl
      | false =>
        refine ih fun id hid => ?_
        rcases List.mem_cons.mp hid with rfl | hid
        · exact hrow
        · exact hp id hid

theorem firstRows_ordered (seen : List String) (rows : List Row) :
    (firstRows seen rows).Pairwise fun a b =>
      (rows.map (·.id)).idxOf a.id < (rows.map (·.id)).idxOf b.id := by
  induction rows generalizing seen with
  | nil => exact List.Pairwise.nil
  | cons row rows ih =>
    have hshift : ∀ {seen' : List String}, row.id ∈ seen' →
        ∀ a ∈ firstRows seen' rows, ((row :: rows).map (·.id)).idxOf a.id =
          (rows.map (·.id)).idxOf a.id + 1 := by
      intro seen' hrow a ha
      have hne : row.id ≠ a.id := fun heq => (not_mem_seen ha).2 (heq ▸ hrow)
      rw [map_cons, idxOf_cons_ne _ hne]
    have hrest : ∀ {seen' : List String}, row.id ∈ seen' →
        (firstRows seen' rows).Pairwise fun a b =>
          ((row :: rows).map (·.id)).idxOf a.id < ((row :: rows).map (·.id)).idxOf b.id := by
      intro seen' hrow
      refine (ih seen').imp_of_mem ?_
      intro a b ha hb hab
      rw [hshift hrow a ha, hshift hrow b hb]
      omega
    unfold firstRows
    split
    next hseen => exact hrest hseen
    next =>
      refine List.pairwise_cons.mpr ⟨fun b hb => ?_, hrest (by simp)⟩
      rw [hshift (by simp) b hb, map_cons, idxOf_cons_self]
      omega

theorem isSome_indexOf :
    (indexOf ids id).isSome ↔ id ∈ ids.map (·.1) := by
  unfold indexOf
  rw [findIdx?_isSome]
  simp

theorem collectIds_fst (ids : List (String × Nat)) (rows : List Row) :
    (collectIds ids rows).1 =
      ids ++ (firstRows (ids.map (·.1)) rows).map fun row => (row.id, row.line) := by
  induction rows generalizing ids with
  | nil => simp [collectIds, firstRows]
  | cons row rows ih =>
    unfold collectIds firstRows
    by_cases hseen : row.id ∈ ids.map (·.1)
    · rw [if_pos (isSome_indexOf.mpr hseen), if_pos hseen]
      exact ih ids
    · have hsame : ∀ id, id ∈ ids.map (·.1) ++ [(row.id, row.line)].map (·.1) ↔
          id ∈ row.id :: ids.map (·.1) := fun id => by simp [or_comm]
      rw [if_neg (mt isSome_indexOf.mp hseen), if_neg hseen, ih, append_assoc, map_append,
        firstRows_congr hsame]
      rfl

theorem collectIds_snd :
    (collectIds ids rows).2 = [] ↔
      (rows.map (·.id)).Nodup ∧ ∀ row ∈ rows, row.id ∉ ids.map (·.1) := by
  induction rows generalizing ids with
  | nil => simp [collectIds]
  | cons row rows ih =>
    unfold collectIds
    by_cases hseen : row.id ∈ ids.map (·.1)
    · rw [if_pos (isSome_indexOf.mpr hseen)]
      simp only [reduceCtorEq, false_iff]
      rintro ⟨-, hall⟩
      exact hall row (by simp) hseen
    · rw [if_neg (mt isSome_indexOf.mp hseen), ih, map_cons, nodup_cons]
      constructor
      · rintro ⟨hnodup, hall⟩
        have hnew : row.id ∉ rows.map (·.id) := by
          intro hmem
          obtain ⟨r, hr, heq⟩ := List.mem_map.mp hmem
          exact hall r hr (by simp [heq])
        refine ⟨⟨hnew, hnodup⟩, fun r hr => ?_⟩
        rcases List.mem_cons.mp hr with rfl | hr
        · exact hseen
        · exact fun hmem => hall r hr (by rw [map_append]; exact mem_append_left _ hmem)
      · rintro ⟨⟨hnew, hnodup⟩, hall⟩
        refine ⟨hnodup, fun r hr hmem => ?_⟩
        rw [map_append, mem_append] at hmem
        rcases hmem with hmem | hmem
        · exact hall r (by simp [hr]) hmem
        · have heq : r.id = row.id := by simpa using hmem
          exact hnew (heq ▸ mem_map_of_mem hr)

/-- The distinct ids of a table. -/
def names (table : Table) : List String := (firstRows [] table.rows).map (·.id)

theorem tableIds_eq : tableIds table =
    (firstRows [] table.rows).map fun row => (row.id, row.line) := by
  rw [tableIds, collectIds_fst]
  rfl

theorem map_fst_tableIds : (tableIds table).map (·.1) = names table := by
  rw [tableIds_eq, List.map_map]
  rfl

theorem length_tableIds : (tableIds table).length = (names table).length := by
  rw [← map_fst_tableIds, length_map]

theorem names_ordered : (names table).Pairwise fun a b => firstRow table a < firstRow table b :=
  List.pairwise_map.mpr (firstRows_ordered [] table.rows)

theorem names_nodup : (names table).Nodup := names_ordered.imp fun h heq => by simp [heq] at h

theorem mem_names : id ∈ names table ↔ Known table id := by
  constructor
  · intro h
    obtain ⟨row, hrow, rfl⟩ := List.mem_map.mp h
    exact ⟨row, (not_mem_seen hrow).1, rfl⟩
  · rintro ⟨row, hrow, rfl⟩
    obtain ⟨first, hfirst, heq⟩ := exists_firstRow hrow not_mem_nil
    exact List.mem_map.mpr ⟨first, hfirst, heq⟩

theorem indexOf_eq_some :
    indexOf (tableIds table) id = some i ↔ (names table)[i]? = some id := by
  unfold indexOf
  rw [← map_fst_tableIds, List.getElem?_map, findIdx?_eq_some_iff_getElem]
  constructor
  · rintro ⟨hi, heq, -⟩
    simp [List.getElem?_eq_getElem hi, of_decide_eq_true heq]
  · intro h
    obtain ⟨entry, hentry, heq⟩ := Option.map_eq_some_iff.mp h
    obtain ⟨hi, rfl⟩ := List.getElem?_eq_some_iff.mp hentry
    refine ⟨hi, by simpa using heq, fun j hj hsame => ?_⟩
    -- an earlier entry with the same id
    have hnodup : ((tableIds table).map (·.1)).Nodup := map_fst_tableIds ▸ names_nodup
    have heqj : (tableIds table)[j].1 = (tableIds table)[i].1 :=
      (of_decide_eq_true hsame).trans heq.symm
    have hinjective := List.nodup_iff_injective_get.mp hnodup
    have hsame := @hinjective ⟨j, by simp; omega⟩ ⟨i, by simpa using hi⟩ (by simpa using heqj)
    simp only [Fin.mk.injEq] at hsame
    omega

theorem exists_index (h : Known table id) :
    ∃ i : Nat, (names table)[i]? = some id := List.getElem?_of_mem (mem_names.mpr h)

theorem index_unique {j : Nat} (hi : (names table)[i]? = some id)
    (hj : (names table)[j]? = some id) : i = j := by
  obtain ⟨hilt, hieq⟩ := List.getElem?_eq_some_iff.mp hi
  obtain ⟨hjlt, hjeq⟩ := List.getElem?_eq_some_iff.mp hj
  exact (names_nodup.getElem_inj_iff).mp (hieq.trans hjeq.symm)

/-! ## Edges and paths -/

theorem edge_iff : Edge (dependents table) p q ↔
    ∃ a b, (names table)[q]? = some a ∧ (names table)[p]? = some b ∧ a ≠ b ∧
      KnownDependency table a b := by
  unfold Edge dependents
  simp only [mem_flatMap, mem_filterMap, Option.ite_none_right_eq_some]
  constructor
  · rintro ⟨row, hrow, d, hd, ⟨hne, hp⟩, hq⟩
    rw [indexOf_eq_some] at hp hq
    refine ⟨row.id, d, hq, hp, hne.symm, ⟨row, hrow, rfl, hd⟩, ?_⟩
    exact mem_names.mp (mem_of_getElem? hp)
  · rintro ⟨a, b, hq, hp, hne, ⟨row, hrow, rfl, hd⟩, -⟩
    exact ⟨row, hrow, b, hd, ⟨hne.symm, indexOf_eq_some.mpr hp⟩, indexOf_eq_some.mpr hq⟩

theorem dependents_lt (h : q ∈ dependents table p) : q < (tableIds table).length := by
  obtain ⟨a, -, hq, -⟩ := edge_iff.mp h
  rw [length_tableIds]
  exact (List.getElem?_eq_some_iff.mp hq).1

theorem path_of_edges (h : TransGen (Edge (dependents table)) p q) :
    ∃ a b, (names table)[q]? = some a ∧ (names table)[p]? = some b ∧
      ReflTransGen (KnownDependency table) a b := by
  induction h with
  | single hpq =>
    obtain ⟨a, b, hq, hp, -, hdep⟩ := edge_iff.mp hpq
    exact ⟨a, b, hq, hp, .single hdep⟩
  | tail _ hqr ih =>
    obtain ⟨a, b, hq, hp, hpath⟩ := ih
    obtain ⟨c, a', hr, hq', -, hdep⟩ := edge_iff.mp hqr
    obtain rfl : a = a' := Option.some.inj (hq.symm.trans hq')
    exact ⟨c, b, hr, hp, hpath.head hdep⟩

theorem edges_of_path (h : ReflTransGen (KnownDependency table) a b)
    (hq : (names table)[q]? = some a) (hp : (names table)[p]? = some b) :
    ReflTransGen (Edge (dependents table)) p q := by
  induction h using ReflTransGen.head_induction_on generalizing q with
  | refl => exact index_unique hq hp ▸ .refl
  | @head a c hac hcb ih =>
    obtain ⟨i, hi⟩ := exists_index hac.2
    by_cases heq : a = c
    · subst heq
      exact ih hq
    · exact (ih hi).tail (edge_iff.mpr ⟨a, c, hq, hi, heq, hac⟩)

theorem reach_iff :
    reach table p q ↔ TransGen (Edge (dependents table)) p q := by
  unfold reach
  rw [decide_eq_true_iff]
  exact reached_iff fun _ _ => dependents_lt

theorem together_iff (hp : (names table)[p]? = some a)
    (hq : (names table)[q]? = some b) : together table p q ↔
      ReflTransGen (KnownDependency table) a b ∧ ReflTransGen (KnownDependency table) b a := by
  unfold together
  rw [Bool.or_eq_true, Bool.and_eq_true, decide_eq_true_iff, reach_iff, reach_iff]
  constructor
  · rintro (rfl | ⟨hpq, hqp⟩)
    · obtain rfl : a = b := Option.some.inj (hp.symm.trans hq)
      exact ⟨.refl, .refl⟩
    · obtain ⟨b', a', hq', hp', hba⟩ := path_of_edges hpq
      obtain ⟨a'', b'', hp'', hq'', hab⟩ := path_of_edges hqp
      obtain rfl : a = a' := Option.some.inj (hp.symm.trans hp')
      obtain rfl : b = b' := Option.some.inj (hq.symm.trans hq')
      obtain rfl : a = a'' := Option.some.inj (hp.symm.trans hp'')
      obtain rfl : b = b'' := Option.some.inj (hq.symm.trans hq'')
      exact ⟨hab, hba⟩
  · rintro ⟨hab, hba⟩
    by_cases heq : q = p
    · exact .inl heq
    · have hpq := (reflTransGen_iff_eq_or_transGen.mp (edges_of_path hba hq hp)).resolve_left heq
      have hqp := (reflTransGen_iff_eq_or_transGen.mp (edges_of_path hab hp hq)).resolve_left
        (Ne.symm heq)
      exact .inr ⟨hpq, hqp⟩

theorem together_refl (p : Nat) : together table p p := by simp [together]

theorem together_symm (p q : Nat) (h : together table p q) : together table q p := by
  simp only [together, Bool.or_eq_true, Bool.and_eq_true, decide_eq_true_iff] at h ⊢
  exact h.imp Eq.symm And.symm

theorem together_trans (p q r : Nat) (h : together table p q) (h' : together table q r) :
    together table p r := by
  simp only [together, Bool.or_eq_true, Bool.and_eq_true, decide_eq_true_iff, reach_iff] at h h' ⊢
  rcases h with rfl | ⟨hpq, hqp⟩
  · exact h'
  · rcases h' with rfl | ⟨hqr, hrq⟩
    · exact .inr ⟨hpq, hqp⟩
    · exact .inr ⟨hpq.trans hqr, hrq.trans hqp⟩

/-! ## Groups -/

theorem mem_groups :
    g ∈ groupsFrom (together table) (tableIds table).length []
        (range (tableIds table).length) ↔
      1 < g.length ∧ ∃ first < (tableIds table).length,
        g = groupOf (together table) (tableIds table).length first := by
  rw [mem_groupsFrom together_symm together_trans
    (fun x hx => List.mem_range.mp hx) (fun x hx => absurd hx not_mem_nil)]
  simp

/-- The ids of a group. -/
def groupIds (table : Table) (group : List Nat) : List String :=
  group.filterMap fun member => (names table)[member]?

theorem cycleFinding_ids (group : List Nat) :
    (cycleFinding (tableIds table) group).ids = groupIds table group := by
  unfold cycleFinding groupIds
  refine filterMap_congr fun member _ => ?_
  rw [← map_fst_tableIds, List.getElem?_map]

theorem mem_groupIds {group : List Nat} :
    id ∈ groupIds table group ↔ ∃ i ∈ group, (names table)[i]? = some id := by
  simp [groupIds]

theorem groupIds_ordered {group : List Nat} (h : group.Pairwise (· < ·)) :
    (groupIds table group).Pairwise fun a b => firstRow table a < firstRow table b := by
  refine List.pairwise_filterMap.mpr (h.imp fun {i j} hij a ha b hb => ?_)
  obtain ⟨hi, rfl⟩ := List.getElem?_eq_some_iff.mp ha
  obtain ⟨hj, rfl⟩ := List.getElem?_eq_some_iff.mp hb
  exact List.pairwise_iff_getElem.mp names_ordered i j hi hj hij

theorem groupOf_ordered (first : Nat) :
    (groupOf (together table) (tableIds table).length first).Pairwise (· < ·) :=
  List.pairwise_lt_range.filter _

theorem length_groupIds {group : List Nat} (h : ∀ i ∈ group, i < (tableIds table).length) :
    (groupIds table group).length = group.length := by
  unfold groupIds
  rw [length_filterMap_eq_countP, countP_eq_length]
  intro i hi
  have hlt : i < (names table).length := length_tableIds ▸ h i hi
  simp [List.getElem?_eq_getElem hlt]

theorem mem_groupIds_groupOf {first : Nat} (ha : (names table)[first]? = some a) :
    id ∈ groupIds table (groupOf (together table) (tableIds table).length first) ↔
      Known table id ∧ ReflTransGen (KnownDependency table) a id ∧
        ReflTransGen (KnownDependency table) id a := by
  rw [mem_groupIds]
  constructor
  · rintro ⟨i, hi, hid⟩
    exact ⟨mem_names.mp (mem_of_getElem? hid),
      (together_iff ha hid).mp (mem_groupOf.mp hi).2⟩
  · rintro ⟨hknown, hpaths⟩
    obtain ⟨i, hid⟩ := exists_index hknown
    have hi : i < (names table).length := (List.getElem?_eq_some_iff.mp hid).1
    exact ⟨i, mem_groupOf.mpr ⟨length_tableIds ▸ hi, (together_iff ha hid).mpr hpaths⟩, hid⟩

theorem maximal_class (ha : Known table a) :
    Maximal (MutuallyReach table) {id | Known table id ∧
      ReflTransGen (KnownDependency table) a id ∧ ReflTransGen (KnownDependency table) id a} := by
  refine ⟨⟨fun id hid => hid.1, fun b hb c hc => hb.2.2.trans hc.2.1⟩, ?_⟩
  intro larger hlarger hsub id hid
  have hamem : a ∈ larger := hsub ⟨ha, .refl, .refl⟩
  exact ⟨hlarger.1 id hid, hlarger.2 a hamem id hid, hlarger.2 id hid a hamem⟩

theorem eq_class {ids : Set String} (h : Maximal (MutuallyReach table) ids)
    (ha : a ∈ ids) : ids = {id | Known table id ∧
      ReflTransGen (KnownDependency table) a id ∧ ReflTransGen (KnownDependency table) id a} := by
  refine Set.Subset.antisymm (fun id hid => ?_) ?_
  · exact ⟨h.1.1 id hid, h.1.2 a ha id hid, h.1.2 id hid a ha⟩
  · exact h.2 (maximal_class (h.1.1 a ha)).1
      fun id hid => ⟨h.1.1 id hid, h.1.2 a ha id hid, h.1.2 id hid a ha⟩

theorem ids_ext {ids ids' : List String}
    (h : ids.Pairwise fun a b => firstRow table a < firstRow table b)
    (h' : ids'.Pairwise fun a b => firstRow table a < firstRow table b)
    (hmem : ∀ id, id ∈ ids ↔ id ∈ ids') : ids = ids' := by
  have hnodup : ids.Nodup := h.imp fun hlt heq => by simp [heq] at hlt
  have hnodup' : ids'.Nodup := h'.imp fun hlt heq => by simp [heq] at hlt
  have hperm : ids.Perm ids' := (perm_ext_iff_of_nodup hnodup hnodup').mpr hmem
  exact hperm.eq_of_pairwise (fun a b _ _ hab hba => by omega) h h'

/-! ## Findings -/

/-- The line of the first row with one of the ids. -/
def lineOf (table : Table) (ids : List String) : Option Nat :=
  (table.rows.find? fun row => row.id ∈ ids).map (·.line)

theorem cycleFinding_line (hordered : g.Pairwise (· < ·))
    (hlt : ∀ i ∈ g, i < (tableIds table).length) (hne : g ≠ []) :
    (cycleFinding (tableIds table) g).line = lineOf table (groupIds table g) := by
  obtain ⟨i, rest, rfl⟩ := exists_cons_of_ne_nil hne
  have hi : i < (firstRows [] table.rows).length := by
    have := hlt i (by simp)
    rwa [length_tableIds, names, length_map] at this
  have hrow := List.getElem?_eq_getElem hi
  have hmem : ∀ id, id ∈ groupIds table (i :: rest) →
      id = (firstRows [] table.rows)[i].id ∨
        firstRow table (firstRows [] table.rows)[i].id < firstRow table id := by
    intro id hid
    have hcons : groupIds table (i :: rest) =
        (firstRows [] table.rows)[i].id :: groupIds table rest := by
      simp [groupIds, names, hrow]
    have hpairs := @groupIds_ordered table _ hordered
    rw [hcons] at hid hpairs
    rcases List.mem_cons.mp hid with heq | hid
    · exact .inl heq
    · exact .inr ((List.pairwise_cons.mp hpairs).1 id hid)
  -- the row at `i` is the first of the distinct rows with an id of the group
  have hfind : (firstRows [] table.rows).find?
      (fun row => decide (row.id ∈ groupIds table (i :: rest))) =
        some (firstRows [] table.rows)[i] := by
    refine List.find?_eq_some_iff_getElem.mpr ⟨?_, i, hi, rfl, fun j hj => ?_⟩
    · refine decide_eq_true (mem_groupIds.mpr ⟨i, by simp, ?_⟩)
      simp [names, hrow]
    · simp only [Bool.not_eq_eq_eq_not, Bool.not_true, decide_eq_false_iff_not]
      intro hid
      have hbefore := List.pairwise_iff_getElem.mp (firstRows_ordered [] table.rows) j i
        (by omega) hi hj
      rcases hmem _ hid with heq | hlater
      · rw [heq] at hbefore
        omega
      · unfold firstRow at hlater
        omega
  have hsame := @find?_firstRows [] table.rows
    (fun id => id ∈ groupIds table (i :: rest)) (by simp)
  unfold lineOf
  rw [← hsame, hfind, tableIds_eq]
  simp [cycleFinding, hrow]

theorem mem_cycleFindings :
    finding ∈ cycleFindings table ↔
      finding.code = .cycle ∧ 2 ≤ finding.ids.length ∧
        finding.ids.Pairwise (fun a b => firstRow table a < firstRow table b) ∧
        Maximal (MutuallyReach table) {id | id ∈ finding.ids} ∧
        finding.line = lineOf table finding.ids := by
  unfold cycleFindings
  rw [mem_map]
  constructor
  · rintro ⟨g, hg, rfl⟩
    obtain ⟨hlen, first, hfirst, rfl⟩ := mem_groups.mp hg
    rw [length_tableIds] at hfirst
    have ha := List.getElem?_eq_getElem hfirst
    have hpairs := @groupOf_ordered table first
    have hlt : ∀ i ∈ groupOf (together table) (tableIds table).length first,
        i < (tableIds table).length := fun i hi => (mem_groupOf.mp hi).1
    have hmax := maximal_class (mem_names.mp (mem_of_getElem? ha))
    simp only [← mem_groupIds_groupOf ha] at hmax
    rw [cycleFinding_ids, length_groupIds hlt,
      cycleFinding_line hpairs hlt (by rw [← length_pos_iff]; omega)]
    exact ⟨rfl, hlen, groupIds_ordered hpairs, hmax, rfl⟩
  · rintro ⟨hcode, hlen, hordered, hmax, hline⟩
    obtain ⟨a, rest, hids⟩ := exists_cons_of_ne_nil
      (l := finding.ids) (by rw [← length_pos_iff]; omega)
    have hamem : a ∈ finding.ids := hids ▸ mem_cons_self
    obtain ⟨first, ha⟩ := exists_index (hmax.1.1 a hamem)
    have hfirst : first < (tableIds table).length :=
      length_tableIds ▸ (List.getElem?_eq_some_iff.mp ha).1
    let g := groupOf (together table) (tableIds table).length first
    have hg : groupIds table g = finding.ids := by
      refine ids_ext (groupIds_ordered (groupOf_ordered first)) hordered fun id => ?_
      have hclass := Set.ext_iff.mp (eq_class hmax hamem) id
      exact (mem_groupIds_groupOf ha).trans hclass.symm
    have hglen : 1 < g.length := by
      have hlength := @length_groupIds table g fun i hi => (mem_groupOf.mp hi).1
      rw [hg] at hlength
      omega
    refine ⟨g, mem_groups.mpr ⟨hglen, first, hfirst, rfl⟩, ?_⟩
    have hback : (cycleFinding (tableIds table) g).line = finding.line := by
      rw [hline, cycleFinding_line (groupOf_ordered first) (fun i hi => (mem_groupOf.mp hi).1)
        (List.length_pos_iff.mp (show 0 < g.length by omega)), hg]
    have hids' := @cycleFinding_ids table g
    obtain ⟨code, line, ids⟩ := finding
    simp only at hcode hback hg
    rw [← hg, ← hids', ← hback, hcode]
    rfl

theorem nodup_cycleFindings : ((cycleFindings table).map (·.ids)).Nodup := by
  unfold cycleFindings
  rw [List.map_map]
  refine List.Nodup.map_on ?_ (nodup_groupsFrom together_refl together_symm together_trans
    (fun x hx => List.mem_range.mp hx) (fun x hx => absurd hx not_mem_nil))
  intro g hg g' hg' heq
  obtain ⟨-, first, hfirst, rfl⟩ := mem_groups.mp hg
  obtain ⟨-, first', hfirst', rfl⟩ := mem_groups.mp hg'
  simp only [Function.comp_apply, cycleFinding_ids] at heq
  rw [length_tableIds] at hfirst hfirst'
  have ha := List.getElem?_eq_getElem hfirst
  have ha' := List.getElem?_eq_getElem hfirst'
  have hmem := (mem_groupIds_groupOf ha).mpr
    ⟨mem_names.mp (mem_of_getElem? ha), .refl, .refl⟩
  rw [heq, mem_groupIds_groupOf ha'] at hmem
  exact groupOf_eq_of_same together_symm together_trans
    ((together_iff ha ha').mpr ⟨hmem.2.2, hmem.2.1⟩)

theorem code_lineFindings (h : finding ∈ lineFindings table) :
    finding.code ≠ .cycle := by
  have hduplicate : ∀ (ids : List (String × Nat)) (rows : List Row),
      ∀ finding ∈ (collectIds ids rows).2, finding.code = .duplicateId := by
    intro ids rows
    induction rows generalizing ids with
    | nil => simp [collectIds]
    | cons row rows ih =>
      unfold collectIds
      split
      · exact List.forall_mem_cons.mpr ⟨rfl, ih ids⟩
      · exact ih _
  rw [lineFindings, mem_sortBy, mem_append, mem_map] at h
  rcases h with ⟨line, -, rfl⟩ | h
  · simp
  · simp [hduplicate _ _ _ h]

theorem code_dependencyFindings (h : finding ∈ dependencyFindings table) :
    finding.code ≠ .cycle := by
  simp only [dependencyFindings, mem_flatMap, mem_filterMap] at h
  obtain ⟨row, -, dependency, -, h⟩ := h
  unfold dependencyFinding at h
  split at h
  · cases h
    simp
  · split at h
    · simp at h
    · cases h
      simp

theorem filter_rowFindings (h : table.rows.length + table.malformed.length ≤ maxRows) :
    (rowFindings table).filter (·.code = .cycle) = cycleFindings table := by
  have hline : (lineFindings table).filter (·.code = .cycle) = [] :=
    List.filter_eq_nil_iff.mpr fun f hf => by simpa using code_lineFindings hf
  have hdependency : (dependencyFindings table).filter (·.code = .cycle) = [] :=
    List.filter_eq_nil_iff.mpr fun f hf => by simpa using code_dependencyFindings hf
  have hcycle : (cycleFindings table).filter (·.code = .cycle) = cycleFindings table :=
    List.filter_eq_self.mpr fun f hf => by simpa using (mem_cycleFindings.mp hf).1
  rw [rowFindings, if_neg (by omega), filter_append, filter_append, hline, hdependency,
    hcycle]
  rfl

theorem lineFindings_eq_nil : lineFindings table = [] ↔
    table.malformed = [] ∧ (table.rows.map (·.id)).Nodup := by
  have hperm := perm_sortBy lineLe (table.malformed.map (fun line =>
    (⟨.malformedRow, some line, []⟩ : Finding)) ++ (collectIds [] table.rows).2)
  rw [lineFindings, ← length_eq_zero_iff, hperm.length_eq, length_eq_zero_iff,
    append_eq_nil_iff, map_eq_nil_iff, collectIds_snd]
  simp

theorem dependencyFindings_eq_nil : dependencyFindings table = [] ↔
    ∀ row ∈ table.rows, ∀ dependency ∈ row.after,
      dependency ≠ row.id ∧ Known table dependency := by
  unfold dependencyFindings
  rw [flatMap_eq_nil_iff]
  refine forall₂_congr fun row _ => ?_
  rw [filterMap_eq_nil_iff]
  refine forall₂_congr fun dependency _ => ?_
  have hindex : (indexOf (tableIds table) dependency).isSome ↔ Known table dependency := by
    rw [isSome_indexOf, map_fst_tableIds, mem_names]
  unfold dependencyFinding
  by_cases hself : dependency = row.id
  · simp [hself]
  · by_cases hknown : Known table dependency <;> simp [hself, hindex, hknown]

theorem cycleFindings_eq_nil (h : ∀ row ∈ table.rows, ∀ dependency ∈ row.after,
    dependency ≠ row.id ∧ Known table dependency) :
    cycleFindings table = [] ↔ Acyclic (DependsOn table) := by
  have hknown : ∀ a b, DependsOn table a b → KnownDependency table a b ∧ a ≠ b := by
    rintro a b ⟨row, hrow, rfl, hb⟩
    obtain ⟨hne, hb'⟩ := h row hrow b hb
    exact ⟨⟨⟨row, hrow, rfl, hb⟩, hb'⟩, hne.symm⟩
  constructor
  · intro hnil a hcycle
    -- the first edge of the cycle leads to another id of the same group
    obtain ⟨b, hab, hba⟩ := TransGen.head'_iff.mp hcycle
    have hpath : ReflTransGen (KnownDependency table) b a :=
      ReflTransGen.mono (fun x y hxy => (hknown x y hxy).1) b a hba
    obtain ⟨hdep, hne⟩ := hknown a b hab
    obtain ⟨row, hrow, hid, -⟩ := hab
    obtain ⟨first, ha⟩ := exists_index ⟨row, hrow, hid⟩
    have hfirst : first < (tableIds table).length :=
      length_tableIds ▸ (List.getElem?_eq_some_iff.mp ha).1
    let g := groupOf (together table) (tableIds table).length first
    have hamem : a ∈ groupIds table g :=
      (mem_groupIds_groupOf ha).mpr ⟨⟨row, hrow, hid⟩, .refl, .refl⟩
    have hbmem : b ∈ groupIds table g := (mem_groupIds_groupOf ha).mpr ⟨hdep.2, .single hdep, hpath⟩
    have hlen : 1 < g.length := by
      rw [← @length_groupIds table g fun i hi => (mem_groupOf.mp hi).1]
      by_contra hle
      obtain ⟨c, hc⟩ := List.length_eq_one_iff.mp
        (show (groupIds table g).length = 1 by
          have := length_pos_of_mem hamem
          omega)
      rw [hc, mem_singleton] at hamem hbmem
      exact hne (hamem.trans hbmem.symm)
    have hg := mem_groups.mpr ⟨hlen, first, hfirst, rfl⟩
    have hmem : cycleFinding (tableIds table) g ∈ cycleFindings table := mem_map_of_mem hg
    rw [hnil] at hmem
    exact not_mem_nil hmem
  · intro hacyclic
    by_contra hne
    obtain ⟨finding, rest, hcons⟩ := exists_cons_of_ne_nil hne
    obtain ⟨-, hlen, hordered, hmax, -⟩ :=
      mem_cycleFindings.mp (hcons ▸ mem_cons_self : finding ∈ cycleFindings table)
    obtain ⟨a, b, tail, hids⟩ : ∃ a b tail, finding.ids = a :: b :: tail := by
      match hids : finding.ids with
      | [] => simp [hids] at hlen
      | [a] => simp [hids] at hlen
      | a :: b :: tail => exact ⟨a, b, tail, rfl⟩
    have hab : a ≠ b := by
      rw [hids] at hordered
      intro heq
      have := (List.pairwise_cons.mp hordered).1 b (by simp)
      rw [heq] at this
      omega
    have ha : a ∈ {id | id ∈ finding.ids} := by simp [hids]
    have hb : b ∈ {id | id ∈ finding.ids} := by simp [hids]
    have hforth := (reflTransGen_iff_eq_or_transGen.mp (hmax.1.2 a ha b hb)).resolve_left
      (Ne.symm hab)
    have hback := (reflTransGen_iff_eq_or_transGen.mp (hmax.1.2 b hb a ha)).resolve_left hab
    have hcycle : TransGen (DependsOn table) a a :=
      TransGen.mono (fun x y hxy => hxy.1) a a (hforth.trans hback)
    exact hacyclic a hcycle

theorem rowFindings_eq_nil (h : table.rows.length + table.malformed.length ≤ maxRows) :
    rowFindings table = [] ↔
      table.malformed = [] ∧ (table.rows.map (·.id)).Nodup ∧
        (∀ row ∈ table.rows, ∀ dependency ∈ row.after,
          dependency ≠ row.id ∧ Known table dependency) ∧
        Acyclic (DependsOn table) := by
  rw [rowFindings, if_neg (by omega), append_eq_nil_iff, append_eq_nil_iff,
    lineFindings_eq_nil, dependencyFindings_eq_nil, and_assoc, and_assoc]
  refine and_congr_right fun _ => and_congr_right fun _ => and_congr_right fun hknown => ?_
  exact cycleFindings_eq_nil hknown

/-- The cycle findings of a table that is analysed are exactly the largest sets of two or more ids
that all reach one another, each once, in table order and at the line of its first row. There is no
finding exactly if every line is well formed, ids are unique, every dependency names another row and
the dependencies have no cycle. -/
theorem cycle_findings_exact (table : Table)
    (h : table.rows.length + table.malformed.length ≤ maxRows) :
    (∀ finding, finding ∈ (rowFindings table).filter (·.code = .cycle) ↔
      finding.code = .cycle ∧ 2 ≤ finding.ids.length ∧
        finding.ids.Pairwise (fun a b => firstRow table a < firstRow table b) ∧
        Maximal (MutuallyReach table) {id | id ∈ finding.ids} ∧
        finding.line = lineOf table finding.ids) ∧
      (((rowFindings table).filter (·.code = .cycle)).map (·.ids)).Nodup ∧
      (rowFindings table = [] ↔
        table.malformed = [] ∧ (table.rows.map (·.id)).Nodup ∧
          (∀ row ∈ table.rows, ∀ dependency ∈ row.after,
            dependency ≠ row.id ∧ Known table dependency) ∧
          Acyclic (DependsOn table)) := by
  rw [filter_rowFindings h]
  exact ⟨fun finding => mem_cycleFindings, nodup_cycleFindings, rowFindings_eq_nil h⟩

def loopTable : Table where
  rows := [
    ⟨"A", "a", none, none, ["B"], false, none, 3⟩,
    ⟨"B", "b", none, none, ["A"], false, none, 4⟩,
    ⟨"C", "c", none, none, ["B"], false, none, 5⟩]
  malformed := []

theorem cycle_findings_exact_loop :
    loopTable.rows.length + loopTable.malformed.length ≤ maxRows ∧
      (rowFindings loopTable = [] ↔
        loopTable.malformed = [] ∧ (loopTable.rows.map (·.id)).Nodup ∧
          (∀ row ∈ loopTable.rows, ∀ dependency ∈ row.after,
            dependency ≠ row.id ∧ Known loopTable dependency) ∧
          Acyclic (DependsOn loopTable)) :=
  ⟨by decide, (cycle_findings_exact loopTable (by decide)).2.2⟩

end NilsCli.Tracker
