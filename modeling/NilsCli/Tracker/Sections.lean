import NilsCli.Lib.Lines
import NilsCli.Tracker.Cycles
import NilsCli.Tracker.Edit

/-!
# Segments, sections and scanned rows

What an edit of the segments does to the lines (`lines_splice`), where a section stands between the
lines around it (`exists_section`, `sectionOf_append`), and which lines the rows are read from
(`below`, `scan_placeless`).
-/

namespace NilsCli.Tracker

open Lib List

variable {raw new : List Line} {at_ remove : Nat}

/-! ## Segments -/

theorem segments_joinSegments (hne : raw ≠ [])
    (h : ∀ line ∈ raw, '\n' ∉ line) : segments (joinSegments raw) = raw := by
  rw [segments, joinSegments, String.toList_ofList]
  exact splitOn_intercalate '\n' h hne

theorem joinSegments_segments (body : String) : joinSegments (segments body) = body := by
  rw [segments, joinSegments, intercalate_splitOn, String.ofList_toList]

theorem not_mem_segment {body : String} {line : Line} (h : line ∈ segments body) : '\n' ∉ line :=
  not_mem_of_mem_splitOn h

theorem lineText_append_return (raw : Line) : lineText (raw ++ ['\r']) = lineText raw :=
  rdropWhile_concat_pos _ _ _ (by decide)

theorem lineText_idem (raw : Line) : lineText (lineText raw) = lineText raw :=
  rdropWhile_idempotent _ _

def IsPlain (line : Line) : Prop := '\n' ∉ line ∧ lineText line = line

theorem map_insertedLines {crlf appending : Bool} (h : ∀ line ∈ new, lineText line = line) :
    (insertedLines crlf appending new).map lineText = new := by
  fun_induction insertedLines crlf appending new with
  | case1 => rfl
  | case2 line =>
    split <;> simp [lineText_append_return, h line (by simp)]
  | case3 line rest _ ih =>
    rw [map_cons, ih fun l hl => h l (by simp [hl])]
    split <;> simp [lineText_append_return, h line (by simp)]

theorem not_mem_insertedLines {crlf appending : Bool}
    (h : ∀ line ∈ new, '\n' ∉ line) : ∀ line ∈ insertedLines crlf appending new, '\n' ∉ line := by
  fun_induction insertedLines crlf appending new with
  | case1 => simp
  | case2 line =>
    have := h line (by simp)
    split <;> simp [this]
  | case3 line rest _ ih =>
    have := h line (by simp)
    rw [forall_mem_cons]
    refine ⟨?_, ih fun l hl => h l (by simp [hl])⟩
    split <;> simp [this]

theorem endLast_cases (out : List Line) : endLast out = out ∨
    ∃ front last, out = front ++ [last] ∧ endLast out = front ++ [last ++ ['\r']] := by
  unfold endLast
  split
  next => exact .inl rfl
  next last hlast =>
    split
    next => exact .inl rfl
    next =>
      obtain ⟨front, rfl⟩ := getLast?_eq_some_iff.mp hlast
      exact .inr ⟨front, last, rfl, by simp⟩

theorem map_endLast (out : List Line) : (endLast out).map lineText = out.map lineText := by
  rcases endLast_cases out with heq | ⟨front, last, rfl, heq⟩
  · rw [heq]
  · rw [heq]
    simp [lineText_append_return]

theorem not_mem_endLast {out : List Line} (h : ∀ line ∈ out, '\n' ∉ line) :
    ∀ line ∈ endLast out, '\n' ∉ line := by
  rcases endLast_cases out with heq | ⟨front, last, rfl, heq⟩
  · rwa [heq]
  · rw [heq]
    intro line hline
    rcases List.mem_append.mp hline with hline | hline
    · exact h line (by simp [hline])
    · have := h last (by simp)
      rw [mem_singleton] at hline
      simp [hline, this]

theorem spliced_eq (raw : List Line) (at_ remove : Nat) (new : List Line) :
    ∃ front, spliced raw at_ remove new =
        front ++ insertedLines (usesCrlf raw at_) (decide (at_ = raw.length)) new ++
          raw.drop (at_ + remove) ∧
      (front = raw.take at_ ∨ at_ = raw.length ∧ front = endLast raw) := by
  refine ⟨_, rfl, ?_⟩
  by_cases h : (usesCrlf raw at_ && decide (at_ = raw.length)) = true
  · have hat : at_ = raw.length := by simpa using (Bool.and_eq_true_iff.mp h).2
    exact .inr ⟨hat, by rw [if_pos h, hat, take_length]⟩
  · exact .inl (if_neg h)

theorem map_spliced (hnew : ∀ line ∈ new, IsPlain line) :
    (spliced raw at_ remove new).map lineText =
      (raw.map lineText).take at_ ++ new ++ (raw.map lineText).drop (at_ + remove) := by
  obtain ⟨front, heq, hfront⟩ := spliced_eq raw at_ remove new
  have hmap : front.map lineText = (raw.map lineText).take at_ := by
    rcases hfront with rfl | ⟨rfl, rfl⟩
    · rw [map_take]
    · rw [map_endLast, take_of_length_le (by simp)]
  rw [heq, map_append, map_append, hmap,
    map_insertedLines fun line hline => (hnew line hline).2, map_drop]

theorem segments_splice
    (hraw : ∀ line ∈ raw, '\n' ∉ line) (hnew : ∀ line ∈ new, IsPlain line) (hne : new ≠ []) :
    segments (splice raw at_ remove new) = spliced raw at_ remove new := by
  have hmap := @map_spliced raw new at_ remove hnew
  refine segments_joinSegments (fun hnil => ?_) fun line hline => ?_
  · rw [hnil] at hmap
    simp [hne] at hmap
  · obtain ⟨front, heq, hfront⟩ := spliced_eq raw at_ remove new
    rw [heq] at hline
    rcases List.mem_append.mp hline with hline | hline
    · rcases List.mem_append.mp hline with hline | hline
      · rcases hfront with rfl | ⟨-, rfl⟩
        · exact hraw line (mem_of_mem_take hline)
        · exact not_mem_endLast hraw line hline
      · exact not_mem_insertedLines (fun l hl => (hnew l hl).1) line hline
    · exact hraw line (mem_of_mem_drop hline)

theorem lines_splice {body : String} (hnew : ∀ line ∈ new, IsPlain line) (hne : new ≠ []) :
    lines (splice (segments body) at_ remove new) =
      (lines body).take at_ ++ new ++ (lines body).drop (at_ + remove) := by
  rw [lines, segments_splice (fun line hline => not_mem_segment hline) hnew hne, map_spliced hnew]
  rfl

/-! ## Headings -/

theorem eq_of_lower_eq {c d : Char} (hd : isAsciiLower d = false) (h : lower c = d) : c = d := by
  unfold lower at h
  split at h
  next hupper =>
    simp only [isAsciiUpper, isAsciiLower, charIn, decide_eq_true_eq, decide_eq_false_iff_not] at *
    have hvalid : (c.toNat + 32).isValidChar := by
      left
      have : 'Z'.toNat = 90 := rfl
      omega
    have hnat : d.toNat = c.toNat + 32 := by
      rw [← h, Char.ofNat, dif_pos hvalid]
      rfl
    have h1 : 'A'.toNat = 65 := rfl
    have h2 : 'Z'.toNat = 90 := rfl
    have h3 : 'a'.toNat = 97 := rfl
    have h4 : 'z'.toNat = 122 := rfl
    omega
  next => exact h

theorem isHeading_iff {line : Line} :
    isHeading line = true ↔ ∃ rest, line = '#' :: '#' :: ' ' :: rest := by
  rw [isHeading, isPrefixOf_iff_prefix]
  constructor
  · rintro ⟨rest, rfl⟩
    exact ⟨rest, rfl⟩
  · rintro ⟨rest, rfl⟩
    exact ⟨rest, rfl⟩

theorem isHeading_of_eq {line heading : Line} (hheading : isHeading heading = true)
    (h : eqIgnoreAsciiCase line heading = true) : isHeading line = true := by
  obtain ⟨rest, rfl⟩ := isHeading_iff.mp hheading
  have hmap : line.map lower = '#' :: '#' :: ' ' :: rest.map lower := of_decide_eq_true h
  obtain ⟨c1, l1, rfl, h1, hmap⟩ := List.map_eq_cons_iff.mp hmap
  obtain ⟨c2, l2, rfl, h2, hmap⟩ := List.map_eq_cons_iff.mp hmap
  obtain ⟨c3, l3, rfl, h3, -⟩ := List.map_eq_cons_iff.mp hmap
  rw [eq_of_lower_eq (by decide) h1, eq_of_lower_eq (by decide) h2, eq_of_lower_eq (by decide) h3]
  exact isHeading_iff.mpr ⟨l3, rfl⟩

theorem isHeading_phaseTable : isHeading phaseTable = true := by decide

theorem isHeading_dependencyGraph : isHeading dependencyGraph = true := by decide

theorem not_phaseTable {line : Line} (h : eqIgnoreAsciiCase line dependencyGraph = true) :
    eqIgnoreAsciiCase line phaseTable = false := by
  refine decide_eq_false fun heq => ?_
  have := (of_decide_eq_true h).symm.trans heq
  exact absurd this (by decide)

/-! ## Sections -/

structure SectionAt (heading : Line) (before : List Line) (line : Line) (body behind : List Line) :
    Prop where
  first : ∀ l ∈ before, eqIgnoreAsciiCase l heading = false
  eq_heading : eqIgnoreAsciiCase line heading = true
  inside : ∀ l ∈ body, isHeading l = false
  ends : ∀ l ∈ behind.head?, isHeading l = true

variable {heading line : Line} {before body behind ls : List Line}

theorem exists_section (hfirst : ∀ l ∈ before, eqIgnoreAsciiCase l heading = false)
    (hline : eqIgnoreAsciiCase line heading = true) (rest : List Line) :
    ∃ body behind, rest = body ++ behind ∧ SectionAt heading before line body behind := by
  refine ⟨rest.takeWhile (!isHeading ·), rest.dropWhile (!isHeading ·),
    List.takeWhile_append_dropWhile.symm, hfirst, hline, fun l hl => ?_, fun l hl => ?_⟩
  · simpa using mem_takeWhile_imp hl
  · have := List.head?_dropWhile_not (!isHeading ·) rest
    rw [Option.mem_def.mp hl] at this
    simpa using this

theorem findIdx?_append_cons {α : Type} {p : α → Bool} {xs ys : List α} {y : α}
    (hxs : ∀ x ∈ xs, p x = false) (hy : p y = true) :
    (xs ++ y :: ys).findIdx? p = some xs.length := by
  rw [findIdx?_append, findIdx?_eq_none_iff.mpr hxs]
  simp [findIdx?_cons, hy]

theorem sectionOf_append (h : SectionAt heading before line body behind) :
    sectionOf (before ++ line :: (body ++ behind)) heading =
      some ⟨before.length, before.length + 1 + body.length⟩ := by
  have hdrop : (before ++ line :: (body ++ behind)).drop (before.length + 1) = body ++ behind := by
    rw [← drop_drop, drop_left]
    rfl
  rw [sectionOf, findIdx?_append_cons h.first h.eq_heading, Option.map_some, hdrop]
  cases behind with
  | nil =>
    rw [append_nil, findIdx?_eq_none_iff.mpr h.inside]
    simp only [length_append, length_cons]
    congr 2
    omega
  | cons next rest =>
    rw [findIdx?_append_cons h.inside (h.ends next rfl)]

theorem section_body :
    Section.body ⟨before.length, before.length + 1 + body.length⟩
      (before ++ line :: (body ++ behind)) = body := by
  unfold Section.body
  rw [show before ++ line :: (body ++ behind) = (before ++ [line] ++ body) ++ behind by simp,
    take_left' (by simp; omega), drop_left' (by simp)]

theorem exists_heading (h : ∃ l ∈ ls, eqIgnoreAsciiCase l heading = true) :
    ∃ before line body behind, ls = before ++ line :: (body ++ behind) ∧
      SectionAt heading before line body behind := by
  induction ls with
  | nil => simp at h
  | cons l ls ih =>
    by_cases hl : eqIgnoreAsciiCase l heading = true
    · have hfirst : ∀ l ∈ ([] : List Line), eqIgnoreAsciiCase l heading = false := nofun
      obtain ⟨body, behind, rfl, hsection⟩ := exists_section hfirst hl ls
      exact ⟨[], l, body, behind, rfl, hsection⟩
    · obtain ⟨before, line, body, behind, rfl, hsection⟩ := ih (by simpa [hl] using h)
      refine ⟨l :: before, line, body, behind, rfl, ?_, hsection.eq_heading, hsection.inside,
        hsection.ends⟩
      rw [forall_mem_cons]
      exact ⟨by simpa using hl, hsection.first⟩

theorem sectionOf_eq_none : sectionOf ls heading = none ↔
    ∀ l ∈ ls, eqIgnoreAsciiCase l heading = false := by
  rw [sectionOf, Option.map_eq_none_iff, findIdx?_eq_none_iff]

/-! ## The lines of a section -/

def below (heading : Line) : List Line → Option (List Line)
  | [] => none
  | line :: rest =>
    if eqIgnoreAsciiCase line heading then some (rest.takeWhile (!isHeading ·))
    else below heading rest

theorem below_skip (h : ∀ l ∈ before, eqIgnoreAsciiCase l heading = false) (rest : List Line) :
    below heading (before ++ rest) = below heading rest := by
  induction before with
  | nil => rfl
  | cons l before ih =>
    rw [forall_mem_cons] at h
    rw [cons_append, below, if_neg (by simp [h.1]), ih h.2]

theorem takeWhile_section (h : SectionAt heading before line body behind) :
    (body ++ behind).takeWhile (!isHeading ·) = body := by
  rw [takeWhile_append_of_pos fun l hl => by simpa using h.inside l hl]
  cases behind with
  | nil => simp
  | cons next rest =>
    have := h.ends next rfl
    simp [this]

theorem below_append (h : SectionAt heading before line body behind) :
    below heading (before ++ line :: (body ++ behind)) = some body := by
  rw [below_skip h.first, below, if_pos h.eq_heading, takeWhile_section h]

theorem below_eq_none (h : ∀ l ∈ ls, eqIgnoreAsciiCase l heading = false) :
    below heading ls = none := by
  rw [← append_nil ls, below_skip h]
  rfl

theorem below_congr (hheading : isHeading heading = true) (hline : isHeading line = true)
    (hother : eqIgnoreAsciiCase line heading = false) {body' : List Line}
    (hbody : ∀ l ∈ body, isHeading l = false) (hbody' : ∀ l ∈ body', isHeading l = false)
    (before behind : List Line) :
    below heading (before ++ line :: (body ++ behind)) =
      below heading (before ++ line :: (body' ++ behind)) := by
  have hskip : ∀ {body : List Line}, (∀ l ∈ body, isHeading l = false) →
      below heading (line :: (body ++ behind)) = below heading behind := by
    intro body hbody
    rw [below, if_neg (by simp [hother]), below_skip]
    intro l hl
    by_contra hne
    have := isHeading_of_eq hheading (by simpa using hne)
    simp [hbody l hl] at this
  induction before with
  | nil => rw [nil_append, nil_append, hskip hbody, hskip hbody']
  | cons l before ih =>
    rw [cons_append, cons_append, below, below, ih]
    have htake : ∀ rest, (before ++ line :: rest).takeWhile (!isHeading ·) =
        before.takeWhile (!isHeading ·) := by
      intro rest
      rw [takeWhile_append]
      split
      next hall =>
        rw [takeWhile_cons, if_neg (by simp [hline]), append_nil,
          (List.takeWhile_prefix _).eq_of_length hall]
      next => rfl
    rw [htake, htake]

/-! ## Rows without their places -/

/-- A row without its line number. -/
def Row.placeless (row : Row) : Row := { row with line := 0 }

/-- A table without the line numbers. -/
def Table.placeless (table : Table) : Table :=
  ⟨table.rows.map Row.placeless, table.malformed.map fun _ => 0⟩

def placelessLine : Nat × RowLine → RowLine
  | (_, .row row spans) => .row row.placeless spans
  | (_, .malformed shownId) => .malformed shownId

theorem map_scanFrom (at_ at' : Nat) (phase : Option String) (ls : List Line) :
    (scanFrom at_ phase ls).map placelessLine = (scanFrom at' phase ls).map placelessLine := by
  induction ls generalizing at_ at' phase with
  | nil => rfl
  | cons l ls ih =>
    unfold scanFrom
    split
    next => exact ih _ _ _
    next =>
      split
      next =>
        rw [map_cons, map_cons, ih _ (at' + 1)]
        congr 1
        unfold rowLine
        cases parseRow l <;> rfl
      next => exact ih _ _ _

theorem scanFrom_append_blank (at_ : Nat) (phase : Option String) (ls : List Line) :
    scanFrom at_ phase (ls ++ [[]]) = scanFrom at_ phase ls := by
  induction ls generalizing at_ phase with
  | nil => rfl
  | cons l ls ih =>
    rw [cons_append]
    unfold scanFrom
    split
    next => exact ih _ _
    next => rw [ih]

/-- The table of row lines that stand nowhere. -/
def lineTable (ls : List RowLine) : Table where
  rows := ls.filterMap fun line => match line with
    | .row row _ => some row
    | .malformed _ => none
  malformed := ls.filterMap fun line => match line with
    | .row _ _ => none
    | .malformed _ => some 0

theorem placeless_tableOf (rowLines : List (Nat × RowLine)) :
    (tableOf rowLines).placeless = lineTable (rowLines.map placelessLine) := by
  unfold Table.placeless tableOf lineTable
  rw [Table.mk.injEq]
  dsimp only
  rw [filterMap_map, filterMap_map, map_filterMap, map_filterMap]
  constructor
  · apply filterMap_congr
    rintro ⟨at_, row | shownId⟩ - <;> rfl
  · apply filterMap_congr
    rintro ⟨at_, row | shownId⟩ - <;> rfl

def phaseRows (ls : List Line) : List RowLine :=
  ((below phaseTable ls).map fun inner => (scanFrom 0 none inner).map placelessLine).getD []

theorem placeless_parse (body : String) :
    (parse body).placeless = lineTable (phaseRows (lines body)) := by
  rw [parse, placeless_tableOf, scan, phaseRows]
  by_cases h : ∃ l ∈ lines body, eqIgnoreAsciiCase l phaseTable = true
  · obtain ⟨before, line, inner, behind, heq, hsection⟩ := exists_heading h
    rw [heq, sectionOf_append hsection, below_append hsection]
    dsimp only [Option.map_some, Option.getD_some]
    rw [section_body, map_scanFrom _ 0]
  · have hnone : ∀ l ∈ lines body, eqIgnoreAsciiCase l phaseTable = false := fun l hl => by
      simpa using fun heq => h ⟨l, hl, heq⟩
    rw [sectionOf_eq_none.mpr hnone, below_eq_none hnone]
    rfl

theorem rowFindings_placeless {table : Table} :
    rowFindings table.placeless = [] ↔ rowFindings table = [] := by
  have hlength : table.placeless.rows.length + table.placeless.malformed.length =
      table.rows.length + table.malformed.length := by simp [Table.placeless]
  by_cases h : table.rows.length + table.malformed.length ≤ maxRows
  · have hdepends : DependsOn table.placeless = DependsOn table := by
      funext a b
      simp [DependsOn, Table.placeless, Row.placeless]
    have hknown : ∀ id, Known table.placeless id ↔ Known table id := by
      simp [Known, Table.placeless, Row.placeless]
    rw [rowFindings_eq_nil h, rowFindings_eq_nil (hlength ▸ h), hdepends]
    simp only [hknown]
    simp [Table.placeless, Row.placeless, Function.comp_def]
  · rw [rowFindings, rowFindings, hlength, if_pos (by omega), if_pos (by omega)]

end NilsCli.Tracker
