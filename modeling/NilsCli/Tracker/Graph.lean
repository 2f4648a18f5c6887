import NilsCli.Tracker.RowLines
import NilsCli.Tracker.Sections

/-!
# Writing the dependency graph

The written block is the one that the locator finds again (`HoldsGraph`), and the rows are read from
the same lines of the phase table (`phaseRows`).
-/

namespace NilsCli.Tracker

open Lib List

variable {front id x : Line} {row : Row} {gap inner : List Line}

/-! ## Generated lines -/

/-- What the writer needs to know of graph lines. -/
structure IsGraph (graph : List Line) : Prop where
  ne_nil : graph ≠ []
  plain : ∀ line ∈ graph, IsPlain line
  noHeading : ∀ line ∈ graph, isHeading line = false
  noClose : closeFence ∉ graph

theorem not_lineEnd {c : Char} (h : isAsciiAlphanumeric c = true) :
    isLineEnd c = false ∧ c ≠ '\n' := by
  have hne : ∀ d, isAsciiAlphanumeric d = false → c ≠ d := by
    rintro d hd rfl
    simp [hd] at h
  simp [isLineEnd, hne ' ' (by decide), hne '\t' (by decide), hne '\r' (by decide),
    hne '\n' (by decide)]

theorem isPlain_append {text : Line} (hfront : '\n' ∉ front) (hne : text ≠ [])
    (htext : ∀ c ∈ text, isLineEnd c = false ∧ c ≠ '\n') : IsPlain (front ++ text) := by
  refine ⟨fun hmem => ?_, ?_⟩
  · rcases List.mem_append.mp hmem with hmem | hmem
    · exact hfront hmem
    · exact (htext _ hmem).2 rfl
  · refine List.rdropWhile_eq_self_iff.mpr fun hl => ?_
    rw [getLast_append_of_ne_nil _ hne]
    simp [(htext _ (getLast_mem hne)).1]

theorem isPlain_append_id (hfront : '\n' ∉ front) (hid : isId id = true) :
    IsPlain (front ++ id) :=
  isPlain_append hfront (isId_iff hid).1 fun c hc => not_lineEnd ((isId_iff hid).2 c hc)

theorem not_mem_id (hid : isId id = true) : '\n' ∉ id :=
  fun hmem => (not_lineEnd ((isId_iff hid).2 _ hmem)).2 rfl

theorem isPlain_nodeLine (h : row.HasIds) : IsPlain (nodeLine row) := by
  unfold nodeLine
  split
  next => exact isPlain_append_id (by decide) h.1
  next =>
    have hbraces : ∀ c ∈ "\x7d\x7d".toList, isLineEnd c = false ∧ c ≠ '\n' := by
      simp [isLineEnd]
    refine isPlain_append ?_ (by decide) hbraces
    simp [not_mem_id h.1]

theorem isPlain_edgeLine {dependency : String} (h : row.HasIds)
    (hdependency : dependency ∈ row.after) : IsPlain (edgeLine row dependency) := by
  unfold edgeLine
  refine isPlain_append_id ?_ h.1
  simp [not_mem_id (h.2 dependency hdependency)]

theorem isGraph_generate {rows : List Row} (h : ∀ row ∈ rows, row.HasIds) :
    IsGraph (generate rows) := by
  have hlines : ∀ line ∈ generate rows, IsPlain line ∧
      (line = "graph LR".toList ∨ ∃ rest, line = ' ' :: ' ' :: rest) := by
    unfold generate
    rw [forall_mem_cons]
    refine ⟨⟨by unfold IsPlain; decide, .inl rfl⟩, fun line hline => ?_⟩
    rcases List.mem_append.mp hline with hline | hline
    · obtain ⟨row, hrow, rfl⟩ := List.mem_map.mp hline
      refine ⟨isPlain_nodeLine (h row hrow), .inr ?_⟩
      unfold nodeLine
      split <;> exact ⟨_, rfl⟩
    · obtain ⟨row, hrow, hline⟩ := List.mem_flatMap.mp hline
      obtain ⟨dependency, hdependency, rfl⟩ := List.mem_map.mp hline
      exact ⟨isPlain_edgeLine (h row hrow) hdependency, .inr ⟨_, rfl⟩⟩
  refine ⟨by simp [generate], fun line hline => (hlines line hline).1, fun line hline => ?_,
    fun hmem => ?_⟩
  · rcases (hlines line hline).2 with rfl | ⟨rest, rfl⟩
    · decide
    · rfl
  · rcases (hlines _ hmem).2 with heq | ⟨rest, heq⟩
    · exact absurd heq (by decide)
    · have hhead := congrArg head? heq
      rw [List.head?_cons] at hhead
      exact absurd hhead (by decide)

theorem generate_placeless (rows : List Row) :
    generate (rows.map Row.placeless) = generate rows := by
  simp only [generate, map_map, flatMap_map]
  rfl

/-! ## The located block -/

theorem not_isHeading_fences : isHeading openFence = false ∧ isHeading closeFence = false ∧
    isHeading [] = false := by decide

def blockLines (above graph rest : List Line) : List Line :=
  above ++ openFence :: (graph ++ closeFence :: rest)

def HoldsGraph (ls graph : List Line) : Prop :=
  ∃ before line above rest behind, ls = before ++ line :: (blockLines above graph rest ++ behind) ∧
    SectionAt dependencyGraph before line (blockLines above graph rest) behind ∧
    openFence ∉ above ∧ closeFence ∉ graph

theorem findIdx?_eq_none {ls : List Line} (h : x ∉ ls) :
    ls.findIdx? (fun line => decide (line = x)) = none :=
  findIdx?_eq_none_iff.mpr fun _ hl => decide_eq_false (ne_of_mem_of_not_mem hl h)

theorem findIdx?_eq {front rest : List Line} (h : x ∉ front) :
    (front ++ x :: rest).findIdx? (fun line => decide (line = x)) = some front.length :=
  findIdx?_append_cons (fun l hl => decide_eq_false fun heq => h (heq ▸ hl)) (by simp)

section Located

variable {before above graph rest behind body : List Line} {line : Line}

theorem locateGraph_block
    (h : SectionAt dependencyGraph before line (blockLines above graph rest) behind)
    (habove : openFence ∉ above) (hgraph : closeFence ∉ graph) :
    locateGraph (before ++ line :: (blockLines above graph rest ++ behind)) =
      .block (before.length + 1 + above.length)
        (before.length + 1 + above.length + 1 + graph.length) := by
  have hdrop : (blockLines above graph rest).drop (above.length + 1) =
      graph ++ closeFence :: rest := by
    rw [blockLines, ← drop_drop, drop_left]
    rfl
  simp only [locateGraph, sectionOf_append h, section_body]
  rw [show (blockLines above graph rest).findIdx? (fun line => decide (line = openFence)) =
    some above.length from findIdx?_eq habove]
  dsimp only
  rw [hdrop, findIdx?_eq hgraph]
  rw [GraphLocation.block.injEq]
  omega

theorem take_drop_block (before : List Line) (line : Line) (above graph rest behind : List Line) :
    let ls := before ++ line :: (blockLines above graph rest ++ behind)
    let start := before.length + 1 + above.length
    ls.take (start + 1) = before ++ line :: (above ++ [openFence]) ∧
      ls.drop (start + 1 + graph.length) = closeFence :: rest ++ behind ∧
      (ls.take (start + 1 + graph.length)).drop (start + 1) = graph := by
  intro ls start
  have hls : ls = (before ++ line :: (above ++ [openFence])) ++ (graph ++ (closeFence :: rest ++ behind)) := by
    simp [ls, blockLines]
  have hstart : start + 1 = (before ++ line :: (above ++ [openFence])).length := by
    simp [start]
    omega
  have hstop : start + 1 + graph.length =
      ((before ++ line :: (above ++ [openFence])) ++ graph).length := by
    rw [length_append, ← hstart]
  refine ⟨by rw [hls, hstart, take_left], ?_, ?_⟩
  · rw [hls, hstop, ← append_assoc, drop_left]
  · rw [hls, hstop, ← append_assoc, take_left, hstart, drop_left]

theorem locateGraph_cases (ls : List Line) :
    (locateGraph ls = .noSection ∧ ∀ l ∈ ls, eqIgnoreAsciiCase l dependencyGraph = false) ∨
    (∃ before line body behind, ls = before ++ line :: (body ++ behind) ∧
      SectionAt dependencyGraph before line body behind ∧ locateGraph ls = .noBlock before.length) ∨
    (∃ before line above graph rest behind,
      ls = before ++ line :: (blockLines above graph rest ++ behind) ∧
      SectionAt dependencyGraph before line (blockLines above graph rest) behind ∧
      openFence ∉ above ∧ closeFence ∉ graph) := by
  by_cases hheading : ∃ l ∈ ls, eqIgnoreAsciiCase l dependencyGraph = true
  · obtain ⟨before, line, body, behind, rfl, hsection⟩ := exists_heading hheading
    right
    by_cases hopen : openFence ∈ body
    · obtain ⟨above, inside, rfl, habove⟩ := eq_append_cons_of_mem hopen
      by_cases hclose : closeFence ∈ inside
      · obtain ⟨graph, rest, rfl, hgraph⟩ := eq_append_cons_of_mem hclose
        exact .inr ⟨before, line, above, graph, rest, behind, rfl, hsection, habove, hgraph⟩
      · refine .inl ⟨before, line, _, behind, rfl, hsection, ?_⟩
        have hdrop : (above ++ openFence :: inside).drop (above.length + 1) = inside := by
          rw [← drop_drop, drop_left]
          rfl
        simp only [locateGraph, sectionOf_append hsection, section_body,
          findIdx?_eq habove, hdrop]
        rw [findIdx?_eq_none hclose]
    · refine .inl ⟨before, line, body, behind, rfl, hsection, ?_⟩
      simp only [locateGraph, sectionOf_append hsection, section_body]
      rw [findIdx?_eq_none hopen]
  · have hnone : ∀ l ∈ ls, eqIgnoreAsciiCase l dependencyGraph = false := fun l hl => by
      simpa using fun heq => hheading ⟨l, hl, heq⟩
    exact .inl ⟨by rw [locateGraph, sectionOf_eq_none.mpr hnone], hnone⟩

end Located

theorem graphBlock_of_holds {body : String} {graph : List Line}
    (h : HoldsGraph (lines body) graph) :
    graphBlock body = some graph ∧ writeGraph body graph = ⟨body, .none⟩ := by
  obtain ⟨before, line, above, rest, behind, heq, hsection, habove, hgraph⟩ := h
  obtain ⟨-, -, hinner⟩ := take_drop_block before line above graph rest behind
  have hlocate := locateGraph_block hsection habove hgraph
  rw [← heq] at hlocate hinner
  constructor
  · rw [graphBlock, hlocate]
    exact congrArg some hinner
  · rw [writeGraph]
    split
    next hblock =>
      cases hlocate.symm.trans hblock
      exact if_pos hinner
    next hnoBlock => cases hlocate.symm.trans hnoBlock
    next hnoSection => cases hlocate.symm.trans hnoSection

/-! ## The written lines -/

/-- An optional blank line. -/
def IsGap (gap : List Line) : Prop := gap = [] ∨ gap = [[]]

theorem IsGap.isPlain (h : IsGap gap) : ∀ l ∈ gap, IsPlain l := by
  rcases h with rfl | rfl
  · simp
  · unfold IsPlain
    decide

theorem IsGap.noHeading (h : IsGap gap) : ∀ l ∈ gap, isHeading l = false := by
  rcases h with rfl | rfl
  · simp
  · decide

theorem isGap_ite (c : Prop) [Decidable c] : IsGap (if c then [[]] else []) := by
  split
  · exact .inr rfl
  · exact .inl rfl

theorem scanFrom_append_gap (h : IsGap gap) (at_ : Nat) (phase : Option String)
    (ls : List Line) : scanFrom at_ phase (ls ++ gap) = scanFrom at_ phase ls := by
  rcases h with rfl | rfl
  · rw [append_nil]
  · exact scanFrom_append_blank at_ phase ls

section Written

variable {before above graph rest behind body : List Line} {line : Line}

theorem noHeading_blockLines (hgraph : IsGraph graph) (habove : ∀ l ∈ above, isHeading l = false)
    (hrest : ∀ l ∈ rest, isHeading l = false) :
    ∀ l ∈ blockLines above graph rest, isHeading l = false := by
  intro l hl
  simp only [blockLines, mem_append, mem_cons] at hl
  rcases hl with hl | rfl | hl | rfl | hl
  · exact habove l hl
  · exact not_isHeading_fences.1
  · exact hgraph.noHeading l hl
  · exact not_isHeading_fences.2.1
  · exact hrest l hl

theorem holdsGraph_of_heading (hgraph : IsGraph graph)
    (hfirst : ∀ l ∈ before, eqIgnoreAsciiCase l dependencyGraph = false)
    (hline : eqIgnoreAsciiCase line dependencyGraph = true)
    (habove : ∀ l ∈ above, isHeading l = false) (hopen : openFence ∉ above)
    (hrest : ∀ l ∈ rest, isHeading l = false) (hends : ∀ l ∈ behind.head?, isHeading l = true) :
    HoldsGraph (before ++ line :: (blockLines above graph rest ++ behind)) graph :=
  ⟨before, line, above, rest, behind, rfl,
    ⟨hfirst, hline, noHeading_blockLines hgraph habove hrest, hends⟩, hopen, hgraph.noClose⟩

theorem phaseRows_section (hline : eqIgnoreAsciiCase line dependencyGraph = true)
    {body' : List Line} (hbody : ∀ l ∈ body, isHeading l = false)
    (hbody' : ∀ l ∈ body', isHeading l = false) :
    phaseRows (before ++ line :: (body ++ behind)) =
      phaseRows (before ++ line :: (body' ++ behind)) := by
  unfold phaseRows
  rw [below_congr isHeading_phaseTable (isHeading_of_eq isHeading_dependencyGraph hline)
    (not_phaseTable hline) hbody hbody']

theorem phaseRows_table {gap : List Line} (hgap : IsGap gap)
    (h : SectionAt phaseTable before line body behind) {behind' : List Line}
    (hends : ∀ l ∈ behind'.head?, isHeading l = true) :
    phaseRows (before ++ line :: ((body ++ gap) ++ behind')) =
      phaseRows (before ++ line :: (body ++ behind)) := by
  have hsection : SectionAt phaseTable before line (body ++ gap) behind' := by
    refine ⟨h.first, h.eq_heading, fun l hl => ?_, hends⟩
    rcases List.mem_append.mp hl with hl | hl
    · exact h.inside l hl
    · exact hgap.noHeading l hl
  unfold phaseRows
  rw [below_append hsection, below_append h, Option.map_some, Option.map_some,
    scanFrom_append_gap hgap]

end Written

/-- What an edit of the segments has to do. -/
structure Settles (body : String) (graph : List Line) (at_ remove : Nat) (new : List Line) : Prop where
  ne_nil : new ≠ []
  plain : ∀ line ∈ new, IsPlain line
  within : at_ + remove ≤ (lines body).length
  old : remove = 0 ∨ ∃ start, locateGraph (lines body) = .block start (start + 1 + remove) ∧
    at_ = start + 1
  holds : HoldsGraph ((lines body).take at_ ++ new ++ (lines body).drop (at_ + remove)) graph
  rows : phaseRows ((lines body).take at_ ++ new ++ (lines body).drop (at_ + remove)) =
    phaseRows (lines body)

theorem isPlain_fenced {graph : List Line} (h : IsGraph graph) : ∀ l ∈ fenced graph, IsPlain l := by
  have hopen : IsPlain openFence := by unfold IsPlain; decide
  have hclose : IsPlain closeFence := by unfold IsPlain; decide
  intro l hl
  simp only [fenced, mem_cons, mem_append, not_mem_nil, or_false] at hl
  rcases hl with rfl | hl | rfl
  · exact hopen
  · exact h.plain l hl
  · exact hclose

section Cases

variable {body : String} {graph : List Line} {before behind : List Line} {line : Line}

theorem settles_block {above old rest : List Line} (hgraph : IsGraph graph)
    (heq : lines body = before ++ line :: (blockLines above old rest ++ behind))
    (h : SectionAt dependencyGraph before line (blockLines above old rest) behind)
    (habove : openFence ∉ above) (hold : closeFence ∉ old) :
    Settles body graph (before.length + 1 + above.length + 1) old.length graph := by
  obtain ⟨htake, hdrop, -⟩ := take_drop_block before line above old rest behind
  rw [← heq] at htake hdrop
  have hinside : ∀ l ∈ above ++ rest, isHeading l = false := fun l hl => by
    refine h.inside l ?_
    simp only [blockLines, mem_append, mem_cons] at hl ⊢
    tauto
  have habove' : ∀ l ∈ above, isHeading l = false := fun l hl => hinside l (by simp [hl])
  have hrest' : ∀ l ∈ rest, isHeading l = false := fun l hl => hinside l (by simp [hl])
  have hlines : (lines body).take (before.length + 1 + above.length + 1) ++ graph ++
      (lines body).drop (before.length + 1 + above.length + 1 + old.length) =
      before ++ line :: (blockLines above graph rest ++ behind) := by
    rw [htake, hdrop]
    simp [blockLines]
  refine ⟨hgraph.ne_nil, hgraph.plain, ?_, .inr ⟨before.length + 1 + above.length, ?_, rfl⟩, ?_, ?_⟩
  · rw [heq]
    simp only [blockLines, length_append, length_cons]
    omega
  · rw [heq]
    exact locateGraph_block h habove hold
  · rw [hlines]
    exact holdsGraph_of_heading hgraph h.first h.eq_heading habove' habove hrest' h.ends
  · rw [hlines, heq]
    exact phaseRows_section h.eq_heading (noHeading_blockLines hgraph habove' hrest') h.inside

theorem settles_noBlock (hgraph : IsGraph graph) (hgap : IsGap gap)
    (heq : lines body = before ++ line :: (inner ++ behind))
    (h : SectionAt dependencyGraph before line inner behind) :
    Settles body graph (before.length + 1) 0 ([] :: fenced graph ++ gap) := by
  have hrest : ∀ l ∈ gap ++ inner, isHeading l = false := fun l hl => by
    rcases List.mem_append.mp hl with hl | hl
    · exact hgap.noHeading l hl
    · exact h.inside l hl
  have habove : ∀ l ∈ ([[]] : List Line), isHeading l = false := by decide
  have hlines : (lines body).take (before.length + 1) ++ ([] :: fenced graph ++ gap) ++
      (lines body).drop (before.length + 1 + 0) =
      before ++ line :: (blockLines [[]] graph (gap ++ inner) ++ behind) := by
    have hsplit : lines body = (before ++ [line]) ++ (inner ++ behind) := by simp [heq]
    rw [hsplit, Nat.add_zero, take_left' (by simp), drop_left' (by simp)]
    simp [blockLines, fenced]
  refine ⟨by simp, ?_, by rw [heq]; simp, .inl rfl, ?_, ?_⟩
  · intro l hl
    simp only [cons_append, mem_cons, mem_append] at hl
    rcases hl with rfl | hl | hl
    · unfold IsPlain
      decide
    · exact isPlain_fenced hgraph l hl
    · exact hgap.isPlain l hl
  · rw [hlines]
    exact holdsGraph_of_heading hgraph h.first h.eq_heading habove (by decide) hrest h.ends
  · rw [hlines, heq]
    exact phaseRows_section h.eq_heading (noHeading_blockLines hgraph habove hrest) h.inside

theorem settles_noSection {gap' gap'' : List Line} (hgraph : IsGraph graph)
    (hgap : IsGap gap) (hgap' : IsGap gap') (hgap'' : IsGap gap'')
    (heq : lines body = before ++ line :: (inner ++ (gap'' ++ behind)))
    (h : SectionAt phaseTable before line inner []) (hends : ∀ l ∈ behind.head?, isHeading l = true)
    (hnone : ∀ l ∈ lines body, eqIgnoreAsciiCase l dependencyGraph = false) :
    Settles body graph (before.length + 1 + inner.length) 0
      (gap ++ [graphHeading, []] ++ fenced graph ++ gap') := by
  have hrest : ∀ l ∈ gap' ++ gap'', isHeading l = false := fun l hl => by
    rcases List.mem_append.mp hl with hl | hl
    · exact hgap'.noHeading l hl
    · exact hgap''.noHeading l hl
  have hlines : (lines body).take (before.length + 1 + inner.length) ++
      (gap ++ [graphHeading, []] ++ fenced graph ++ gap') ++
      (lines body).drop (before.length + 1 + inner.length + 0) =
      (before ++ line :: (inner ++ gap)) ++
        graphHeading :: (blockLines [[]] graph (gap' ++ gap'') ++ behind) := by
    have hsplit : lines body = (before ++ line :: inner) ++ (gap'' ++ behind) := by simp [heq]
    rw [hsplit, Nat.add_zero, take_left' (by simp; omega), drop_left' (by simp; omega)]
    simp [blockLines, fenced]
  refine ⟨by simp [fenced], ?_, ?_, .inl rfl, ?_, ?_⟩
  · intro l hl
    simp only [mem_append] at hl
    rcases hl with ((hl | hl) | hl) | hl
    · exact hgap.isPlain l hl
    · have hplain : ∀ l ∈ [graphHeading, []], IsPlain l := by
        unfold IsPlain
        decide
      exact hplain l hl
    · exact isPlain_fenced hgraph l hl
    · exact hgap'.isPlain l hl
  · rw [heq]
    simp only [length_append, length_cons]
    omega
  · rw [hlines]
    refine holdsGraph_of_heading hgraph (fun l hl => ?_) (by decide) (by decide) (by decide) hrest
      hends
    simp only [mem_append, mem_cons] at hl
    rcases hl with hl | rfl | hl | hl
    · exact hnone l (by simp [heq, hl])
    · exact hnone l (by simp [heq])
    · exact hnone l (by simp [heq, hl])
    · rcases hgap with rfl | rfl
      · simp at hl
      · rw [mem_singleton] at hl
        subst hl
        decide
  · have hkeep := phaseRows_table hgap'' h hends
    have hheading : isHeading graphHeading = true := by decide
    have hnew := @phaseRows_table _ _ _ _ _ hgap h
      (graphHeading :: (blockLines [[]] graph (gap' ++ gap'') ++ behind)) (by simp [hheading])
    rw [hlines, heq, append_assoc, cons_append, hnew, ← hkeep, append_assoc]

end Cases

theorem writeGraph_eq (body : String) (graph : List Line) : writeGraph body graph =
    match locateGraph (lines body) with
    | .block start stop =>
      if ((lines body).take stop).drop (start + 1) = graph then ⟨body, .none⟩
      else ⟨splice (segments body) (start + 1) (stop - start - 1) graph, .replacedBlock⟩
    | .noBlock heading =>
      let new := [] :: fenced graph
      let new := if ((lines body)[heading + 1]?).any (· ≠ []) then new ++ [[]] else new
      ⟨splice (segments body) (heading + 1) 0 new, .insertedBlock⟩
    | .noSection =>
      let next := nextHeading (segments body)
      let at_ := next.getD (if (segments body).getLast? = some [] then (segments body).length - 1
        else (segments body).length)
      let new := if at_ > 0 ∧ (lines body).getD (at_ - 1) [] ≠ [] then [[]] else []
      let new := new ++ [graphHeading, []] ++ fenced graph
      let new := if next.isSome then new ++ [[]] else new
      ⟨splice (segments body) at_ 0 new, .insertedSection⟩ := rfl

theorem append_gap_ite {c : Prop} [Decidable c] (new : List Line) :
    (if c then new ++ [[]] else new) = new ++ if c then [[]] else [] := by
  split
  · rfl
  · rw [append_nil]

theorem length_lines (body : String) : (segments body).length = (lines body).length := by
  rw [lines, length_map]

theorem writeGraph_cases {body : String} {graph : List Line} (hgraph : IsGraph graph)
    (htable : hasPhaseTable body = true) :
    (writeGraph body graph).body = body ∧ HoldsGraph (lines body) graph ∨
      ∃ at_ remove new, (writeGraph body graph).body = splice (segments body) at_ remove new ∧
        Settles body graph at_ remove new := by
  rw [writeGraph_eq]
  rcases locateGraph_cases (lines body) with ⟨hlocate, hnone⟩ |
    ⟨before, line, inner, behind, heq, hsection, hlocate⟩ |
    ⟨before, line, above, old, rest, behind, heq, hsection, habove, hold⟩
  · rw [hlocate]
    right
    dsimp only
    have hhas : ∃ l ∈ lines body, eqIgnoreAsciiCase l phaseTable = true := by
      by_contra hne
      have hsection : sectionOf (lines body) phaseTable = none :=
        sectionOf_eq_none.mpr fun l hl => by simpa using fun heq => hne ⟨l, hl, heq⟩
      simp [hasPhaseTable, hsection] at htable
    obtain ⟨before, line, inner, behind, heq, hsection⟩ := exists_heading hhas
    have htableAt : ∀ inner', (∀ l ∈ inner', isHeading l = false) →
        SectionAt phaseTable before line inner' [] := fun inner' hinner =>
      ⟨hsection.first, hsection.eq_heading, hinner, by simp⟩
    have hlength : (lines body).length = before.length + 1 + inner.length + behind.length := by
      rw [heq]
      simp only [length_append, length_cons]
      omega
    have hstop : nextHeading (segments body) =
        (some (before.length + 1 + inner.length)).filter (· < (segments body).length) := by
      rw [nextHeading, show (segments body).map lineText = lines body from rfl]
      rw [show sectionOf (lines body) phaseTable = some _ from heq ▸ sectionOf_append hsection]
      rfl
    rw [append_gap_ite]
    by_cases hbehind : behind = []
    · -- the phase table is the last section
      subst hbehind
      have hnext : nextHeading (segments body) = none := by
        rw [hstop, Option.filter_some, if_neg]
        simp only [length_lines, hlength, length_nil, decide_eq_true_eq]
        omega
      rw [hnext]
      by_cases hlast : (segments body).getLast? = some []
      · have hlast' : (lines body).getLast? = some [] := by
          rw [lines, getLast?_map, hlast]
          rfl
        obtain ⟨inner, rfl⟩ : ∃ inner', inner = inner' ++ [[]] := by
          rcases eq_nil_or_concat' inner with rfl | ⟨inner', last, rfl⟩
          · obtain ⟨_, hline⟩ := isHeading_iff.mp
              (isHeading_of_eq isHeading_phaseTable hsection.eq_heading)
            simp [heq, hline] at hlast'
          · refine ⟨inner', ?_⟩
            have hsplit : before ++ line :: (inner' ++ [last] ++ []) =
                (before ++ line :: inner') ++ [last] := by simp
            rw [heq, hsplit, getLast?_concat, Option.some.injEq] at hlast'
            rw [hlast']
        have hat : (none : Option Nat).getD (if (segments body).getLast? = some [] then
            (segments body).length - 1 else (segments body).length) =
            before.length + 1 + inner.length := by
          rw [if_pos hlast, length_lines, hlength]
          simp
        rw [hat]
        have hlines : lines body = before ++ line :: (inner ++ ([[]] ++ [])) := by simp [heq]
        refine ⟨_, 0, _, rfl, settles_noSection hgraph (isGap_ite _) (isGap_ite _) (.inr rfl)
          hlines (htableAt inner fun l hl => ?_) (by simp) hnone⟩
        exact hsection.inside l (by simp [hl])
      · have hat : (none : Option Nat).getD (if (segments body).getLast? = some [] then
            (segments body).length - 1 else (segments body).length) =
            before.length + 1 + inner.length := by
          rw [if_neg hlast, length_lines, hlength]
          rfl
        rw [hat]
        have hlines : lines body = before ++ line :: (inner ++ ([] ++ [])) := by simp [heq]
        exact ⟨_, 0, _, rfl, settles_noSection hgraph (isGap_ite _) (isGap_ite _) (.inl rfl)
          hlines (htableAt inner hsection.inside) (by simp) hnone⟩
    · -- a heading follows the phase table
      have hnext : nextHeading (segments body) = some (before.length + 1 + inner.length) := by
        rw [hstop, Option.filter_some, if_pos]
        have := length_pos_of_ne_nil hbehind
        simp only [length_lines, hlength, decide_eq_true_eq]
        omega
      rw [hnext]
      exact ⟨_, 0, _, rfl, settles_noSection hgraph (isGap_ite _) (isGap_ite _) (.inl rfl)
        (by simp [heq]) (htableAt inner hsection.inside) hsection.ends hnone⟩
  · rw [hlocate]
    right
    dsimp only
    rw [append_gap_ite]
    exact ⟨_, 0, _, rfl, settles_noBlock hgraph (isGap_ite _) heq hsection⟩
  · have hlocate := locateGraph_block hsection habove hold
    obtain ⟨-, -, hinner⟩ := take_drop_block before line above old rest behind
    rw [← heq] at hlocate hinner
    rw [hlocate]
    dsimp only
    rw [hinner]
    by_cases hsame : old = graph
    · subst hsame
      left
      rw [if_pos rfl]
      exact ⟨rfl, before, line, above, rest, behind, heq, hsection, habove, hold⟩
    · right
      rw [if_neg hsame]
      refine ⟨_, old.length, graph, ?_, settles_block hgraph heq hsection habove hold⟩
      have hremove : before.length + 1 + above.length + 1 + old.length -
          (before.length + 1 + above.length) - 1 = old.length := by omega
      rw [hremove]

/-! ## The edited body -/

def KeepsOutside (body edited : String) : Prop :=
  ∃ front old rest front' new, segments body = front ++ old ++ rest ∧
    segments edited = front' ++ new ++ rest ∧
    (front' = front ∨ old = [] ∧ rest = [] ∧ ∃ kept last,
      front = kept ++ [last] ∧ front' = kept ++ [last ++ ['\r']]) ∧
    (old = [] ∨ ∃ start, locateGraph (lines body) = .block start (start + 1 + old.length) ∧
      front.length = start + 1)

theorem keepsOutside_splice {body : String} {graph new : List Line} {at_ remove : Nat}
    (h : Settles body graph at_ remove new) :
    KeepsOutside body (splice (segments body) at_ remove new) := by
  have hwithin := h.within
  rw [← length_lines] at hwithin
  obtain ⟨front, hspliced, hfront⟩ := spliced_eq (segments body) at_ remove new
  refine ⟨(segments body).take at_, ((segments body).drop at_).take remove,
    (segments body).drop (at_ + remove), front, _, ?_,
    (segments_splice (fun line hline => not_mem_segment hline) h.plain h.ne_nil).trans hspliced,
    ?_, ?_⟩
  · rw [← drop_drop, append_assoc, take_append_drop, take_append_drop]
  · rcases hfront with rfl | ⟨hat, rfl⟩
    · exact .inl rfl
    · have htake : (segments body).take at_ = segments body := by rw [hat, take_length]
      rcases endLast_cases (segments body) with heq | ⟨kept, last, heq, heq'⟩
      · exact .inl (heq.trans htake.symm)
      · refine .inr ⟨?_, ?_, kept, last, htake.trans heq, heq'⟩
        · rw [hat, drop_length, take_nil]
        · exact drop_eq_nil_of_le (by omega)
  · rcases h.old with rfl | ⟨start, hlocate, rfl⟩
    · exact .inl (take_zero)
    · refine .inr ⟨start, ?_, by rw [length_take]; omega⟩
      rw [length_take, length_drop, Nat.min_eq_left (by omega)]
      exact hlocate

theorem keepsOutside_refl (body : String) : KeepsOutside body body :=
  ⟨segments body, [], [], segments body, [], by simp, by simp, .inl rfl, .inl rfl⟩

theorem rows_of_phaseRows {body edited : String}
    (h : phaseRows (lines edited) = phaseRows (lines body)) :
    (parse edited).rows.map Row.placeless = (parse body).rows.map Row.placeless ∧
      (rowFindings (parse edited) = [] ↔ rowFindings (parse body) = []) := by
  have htable : (parse edited).placeless = (parse body).placeless := by
    rw [placeless_parse, placeless_parse, h]
  exact ⟨congrArg Table.rows htable, by rw [← rowFindings_placeless, htable, rowFindings_placeless]⟩

/-- Writing the generated graph of a phase table without row findings keeps the rows and everything
outside the old block. The block is found again with these lines, no finding is left, and writing it
again changes nothing. -/
theorem write_graph_settles (body : String) (htable : hasPhaseTable body = true)
    (hclean : rowFindings (parse body) = []) :
    let graph := generate (parse body).rows
    let edit := writeGraph body graph
    (parse edit.body).rows.map Row.placeless = (parse body).rows.map Row.placeless ∧
      graphBlock edit.body = some graph ∧
      (lint edit.body).findings = [] ∧
      KeepsOutside body edit.body ∧
      writeGraph edit.body graph = ⟨edit.body, .none⟩ := by
  intro graph edit
  have hgraph : IsGraph graph := isGraph_generate fun row hrow => hasIds_parse hrow
  obtain ⟨hkeeps, hholds, hrows⟩ : KeepsOutside body edit.body ∧
      HoldsGraph (lines edit.body) graph ∧
      phaseRows (lines edit.body) = phaseRows (lines body) := by
    rcases writeGraph_cases hgraph htable with ⟨hbody, hholds⟩ | ⟨at_, remove, new, hbody, hsettles⟩
    · have hedit : edit.body = body := hbody
      rw [hedit]
      exact ⟨keepsOutside_refl body, hholds, rfl⟩
    · have hedit : edit.body = splice (segments body) at_ remove new := hbody
      rw [hedit, lines_splice hsettles.plain hsettles.ne_nil]
      exact ⟨keepsOutside_splice hsettles, hsettles.holds, hsettles.rows⟩
  obtain ⟨hrows, hfindings⟩ := rows_of_phaseRows hrows
  obtain ⟨hblock, hagain⟩ := graphBlock_of_holds hholds
  refine ⟨hrows, hblock, ?_, hkeeps, hagain⟩
  have hgenerate : generate (parse edit.body).rows = graph := by
    rw [← generate_placeless, hrows, generate_placeless]
  simp [lint, hfindings.mpr hclean, hblock, hgenerate]

def gateBody : String :=
  "## Phase table\r\n- [ ] **A1** First: #1\r\n- [ ] **REL** Gate · after A1\r\n## Notes"

theorem write_graph_settles_gate :
    hasPhaseTable gateBody = true ∧ rowFindings (parse gateBody) = [] ∧
      (writeGraph gateBody (generate (parse gateBody).rows)).change = .insertedSection ∧
      (lint (writeGraph gateBody (generate (parse gateBody).rows)).body).findings = [] :=
  have htable : hasPhaseTable gateBody = true := by decide +kernel
  have hclean : rowFindings (parse gateBody) = [] := by
    refine (rowFindings_eq_nil (by decide +kernel)).mpr ⟨by decide +kernel, by decide +kernel,
      by unfold Known; decide +kernel, fun a hcycle => ?_⟩
    have hedges : ∀ row ∈ (parse gateBody).rows, ∀ dependency ∈ row.after,
        row.id = "REL" ∧ dependency = "A1" := by decide +kernel
    obtain ⟨_, ⟨row, hrow, hid, hafter⟩, -⟩ := Relation.TransGen.head'_iff.mp hcycle
    obtain ⟨_, -, row', hrow', -, hafter'⟩ := Relation.TransGen.tail'_iff.mp hcycle
    have hsame := ((hedges row hrow _ hafter).1.symm.trans hid).trans (hedges row' hrow' _ hafter').2
    exact absurd hsame (by decide)
  ⟨htable, hclean, by decide +kernel, (write_graph_settles gateBody htable hclean).2.2.1⟩

end NilsCli.Tracker
