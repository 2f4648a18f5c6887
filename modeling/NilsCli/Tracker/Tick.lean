import NilsCli.Tracker.Sections
import NilsCli.Tracker.TickLine

/-!
# Ticking a row of a body

The ticked line is again a row line of the phase table, so the scan reads the same lines at the same
places (`exists_scanned`), and only the ticked row differs (`tick_row_only`).
-/

namespace NilsCli.Tracker

open Lib List

variable {phase : Option String} {ls : List Line} {found : RowLine} {body : String}
  {pr : Option Line} {edit : TickEdit}

variable {line : Line} {place : Nat} {row : Row} {spans : RowSpans}

/-! ## Scanned lines -/

/-- The phase in force behind some lines. -/
def phaseAfter (phase : Option String) : List Line → Option String
  | [] => phase
  | line :: rest =>
    match dropPrefix? line "### ".toList with
    | some name => phaseAfter (if trim name = [] then phase else some (.ofList (trim name))) rest
    | none => phaseAfter phase rest

theorem scanFrom_append (at_ : Nat) (phase : Option String) (xs ys : List Line) :
    scanFrom at_ phase (xs ++ ys) =
      scanFrom at_ phase xs ++ scanFrom (at_ + xs.length) (phaseAfter phase xs) ys := by
  induction xs generalizing at_ phase with
  | nil => rfl
  | cons line xs ih =>
    have hplace : at_ + (line :: xs).length = at_ + 1 + xs.length := by
      rw [length_cons]
      omega
    rw [hplace, cons_append, scanFrom, scanFrom, phaseAfter]
    cases dropPrefix? line "### ".toList with
    | some name => exact ih _ _
    | none =>
      dsimp only
      split
      · rw [ih, cons_append]
      · exact ih _ _

theorem isRowMark_iff : isRowMark line = true ↔
    ∃ c rest, line = '-' :: ' ' :: '[' :: c :: ']' :: rest ∧ (c = ' ' ∨ c = 'x' ∨ c = 'X') := by
  unfold isRowMark rowMarks
  simp only [any_cons, any_nil, Bool.or_false, Bool.or_eq_true,
    isPrefixOf_iff_prefix]
  constructor
  · rintro (⟨rest, rfl⟩ | ⟨rest, rfl⟩ | ⟨rest, rfl⟩)
    · exact ⟨' ', rest, rfl, .inl rfl⟩
    · exact ⟨'x', rest, rfl, .inr (.inl rfl)⟩
    · exact ⟨'X', rest, rfl, .inr (.inr rfl)⟩
  · rintro ⟨c, rest, rfl, rfl | rfl | rfl⟩
    · exact .inl ⟨rest, rfl⟩
    · exact .inr (.inl ⟨rest, rfl⟩)
    · exact .inr (.inr ⟨rest, rfl⟩)

theorem not_heading (h : isRowMark line = true) :
    dropPrefix? line "### ".toList = none ∧ isHeading line = false := by
  obtain ⟨c, rest, rfl, -⟩ := isRowMark_iff.mp h
  exact ⟨rfl, rfl⟩

theorem scanFrom_cons (h : isRowMark line = true) (at_ : Nat)
    (phase : Option String) (rest : List Line) : scanFrom at_ phase (line :: rest) =
      (at_, rowLine phase at_ line) :: scanFrom (at_ + 1) phase rest := by
  rw [scanFrom, (not_heading h).1]
  exact if_pos h

theorem mem_scanFrom {at_ : Nat} (h : (place, found) ∈ scanFrom at_ phase ls) :
    ∃ front line rest, ls = front ++ line :: rest ∧ place = at_ + front.length ∧
      isRowMark line = true ∧ found = rowLine (phaseAfter phase front) place line := by
  fun_induction scanFrom at_ phase ls with
  | case1 => simp at h
  | case2 _ _ l _ _ hname ih =>
    obtain ⟨front, line, rest, rfl, rfl, hmark, rfl⟩ := ih h
    refine ⟨l :: front, line, rest, rfl, by rw [length_cons]; omega, hmark, ?_⟩
    rw [phaseAfter, hname]
  | case3 at_ phase l ls _ hmark ih =>
    rcases List.mem_cons.mp h with heq | h
    · cases heq
      exact ⟨[], l, ls, rfl, rfl, hmark, rfl⟩
    · obtain ⟨front, line, rest, rfl, rfl, hline, rfl⟩ := ih h
      refine ⟨l :: front, line, rest, rfl, by rw [length_cons]; omega, hline, ?_⟩
      rw [phaseAfter, (not_heading hmark).1]
  | case4 _ _ l _ hname _ ih =>
    obtain ⟨front, line, rest, rfl, rfl, hmark, rfl⟩ := ih h
    refine ⟨l :: front, line, rest, rfl, by rw [length_cons]; omega, hmark, ?_⟩
    rw [phaseAfter, hname]

theorem scan_append {heading : Line} {before inner behind : List Line}
    (h : SectionAt phaseTable before heading inner behind) :
    scan (before ++ heading :: (inner ++ behind)) = scanFrom (before.length + 1) none inner := by
  rw [scan, sectionOf_append h]
  dsimp only
  rw [section_body]

theorem exists_scanned (h : (place, found) ∈ scan ls) :
    ∃ front line rest phase before behind, ls = front ++ line :: rest ∧ place = front.length ∧
      isRowMark line = true ∧ found = rowLine phase place line ∧
      ∀ line', isRowMark line' = true → scan (front ++ line' :: rest) =
        before ++ (place, rowLine phase place line') :: behind := by
  by_cases hheading : ∃ l ∈ ls, eqIgnoreAsciiCase l phaseTable = true
  · obtain ⟨above, heading, inner, below, rfl, hsection⟩ := exists_heading hheading
    rw [scan_append hsection] at h
    obtain ⟨front, line, rest, rfl, rfl, hmark, rfl⟩ := mem_scanFrom h
    refine ⟨above ++ heading :: front, line, rest ++ below, phaseAfter none front,
      scanFrom (above.length + 1) none front,
      scanFrom (above.length + 1 + front.length + 1) (phaseAfter none front) rest,
      by simp, ?_, hmark, rfl, fun line' hmark' => ?_⟩
    · rw [length_append, length_cons]
      omega
    · have hsection' : SectionAt phaseTable above heading (front ++ line' :: rest) below := by
        refine ⟨hsection.first, hsection.eq_heading, fun l hl => ?_, hsection.ends⟩
        simp only [mem_append, mem_cons] at hl
        rcases hl with hl | rfl | hl
        · exact hsection.inside l (by simp [hl])
        · exact (not_heading hmark').2
        · exact hsection.inside l (by simp [hl])
      have hsplit : above ++ heading :: front ++ line' :: (rest ++ below) =
          above ++ heading :: ((front ++ line' :: rest) ++ below) := by simp
      rw [hsplit, scan_append hsection', scanFrom_append, scanFrom_cons hmark']
  · have hnone : sectionOf ls phaseTable = none := sectionOf_eq_none.mpr fun l hl => by
      simpa using fun heq => hheading ⟨l, hl, heq⟩
    rw [scan, hnone] at h
    cases h

/-! ## Rows with an id -/

section Rows

variable {item : String}

theorem rowsOf_append (xs ys : List (Nat × RowLine)) :
    rowsOf item (xs ++ ys) = rowsOf item xs ++ rowsOf item ys := filterMap_append

theorem malformedOf_append (xs ys : List (Nat × RowLine)) :
    malformedOf item (xs ++ ys) = malformedOf item xs ++ malformedOf item ys := filterMap_append

theorem rowsOf_row (hid : row.id = item) (rest : List (Nat × RowLine)) :
    rowsOf item ((place, .row row spans) :: rest) = (place, row, spans) :: rowsOf item rest := by
  unfold rowsOf
  rw [filterMap_cons]
  dsimp only
  rw [if_pos hid]

theorem malformedOf_row (rest : List (Nat × RowLine)) :
    malformedOf item ((place, .row row spans) :: rest) = malformedOf item rest := by
  unfold malformedOf
  rw [filterMap_cons]

theorem mem_of_rowsOf {rowLines : List (Nat × RowLine)}
    (h : (place, row, spans) ∈ rowsOf item rowLines) :
    (place, .row row spans) ∈ rowLines ∧ row.id = item := by
  obtain ⟨⟨place', found⟩, hmem, heq⟩ := List.mem_filterMap.mp h
  cases found with
  | row row' spans' =>
    dsimp only at heq
    split at heq
    next hid =>
      cases heq
      exact ⟨hmem, hid⟩
    next => cases heq
  | malformed shownId => cases heq

theorem tableOf_append_row (xs ys : List (Nat × RowLine)) (place : Nat) (row : Row)
    (spans : RowSpans) : tableOf (xs ++ (place, .row row spans) :: ys) =
      ⟨(tableOf xs).rows ++ row :: (tableOf ys).rows,
        (tableOf xs).malformed ++ (tableOf ys).malformed⟩ := by
  simp [tableOf, filterMap_append]

end Rows

theorem rowLine_eq_row (h : rowLine phase place line = .row row spans) :
    ∃ parsed, parseRow line = some (parsed, spans) ∧
      row = { parsed with phase, line := place + 1 } := by
  unfold rowLine at h
  split at h
  next parsed spans' hparse =>
    cases h
    exact ⟨parsed, hparse, rfl⟩
  next => cases h

theorem tickLine_congr {row' : Row} (h : row.done = row'.done) (line : Line) (spans : RowSpans)
    (pr : Option Line) : tickLine line row spans pr = tickLine line row' spans pr := by
  unfold tickLine
  rw [h]

theorem isRowMark_of_parseRow (h : parseRow line = some (row, spans)) : isRowMark line = true := by
  obtain ⟨mark, id, lead, text, trail, clause, done, after, hshape, rfl, -, -⟩ :=
    parseRow_iff_shape.mp h
  refine isRowMark_iff.mpr ?_
  rcases hshape.isMark with ⟨-, rfl⟩ | ⟨-, rfl | rfl⟩
  · exact ⟨' ', _, rfl, .inl rfl⟩
  · exact ⟨'x', _, rfl, .inr (.inl rfl)⟩
  · exact ⟨'X', _, rfl, .inr (.inr rfl)⟩

/-! ## The ticked body -/

theorem tick_eq_ok {item : String} :
    tick body item pr = .ok edit ↔ pr.all prIsRecordable = true ∧
      (scan (lines body)).length ≤ maxRows ∧ malformedOf item (scan (lines body)) = [] ∧
      ∃ place row spans, rowsOf item (scan (lines body)) = [(place, row, spans)] ∧
        edit =
          { body := joinSegments ((segments body).set place
              (tickLine ((lines body).getD place []) row spans pr ++
                ((segments body).getD place []).drop ((lines body).getD place []).length))
            line := place + 1
            before := (lines body).getD place []
            after := tickLine ((lines body).getD place []) row spans pr } := by
  unfold tick
  rw [ensure_bind_ok]
  refine and_congr_right fun _ => ?_
  dsimp only
  rw [ensure_bind_ok]
  refine and_congr_right fun _ => ?_
  rw [ensure_bind_ok]
  refine and_congr_right fun _ => ?_
  constructor
  · intro h
    split at h
    next => cases h
    next place row spans hrows =>
      cases h
      exact ⟨place, row, spans, hrows, rfl⟩
    next => cases h
  · rintro ⟨place, row, spans, hrows, rfl⟩
    split
    next hnone => cases hrows.symm.trans hnone
    next place' row' spans' hrows' =>
      cases hrows.symm.trans hrows'
      rfl
    next hmany => exact absurd hrows (hmany place row spans)

theorem lineText_append {ending : Line} (hending : ∀ c ∈ ending, isLineEnd c = true)
    (hline : lineText line = line) : lineText (line ++ ending) = line :=
  rdropWhile_append hending (lineText_eq_self.mp hline)

theorem exists_ending (raw : Line) :
    ∃ ending, raw = lineText raw ++ ending ∧ ∀ c ∈ ending, isLineEnd c = true :=
  ⟨raw.rtakeWhile isLineEnd, List.rdropWhile_append_rtakeWhile.symm,
    fun _ hc => mem_rtakeWhile_imp hc⟩

theorem exists_ticked {item : String} (h : tick body item pr = .ok edit) :
    ∃ front rest ending before behind row row' spans spans' notes,
      segments body = front ++ (edit.before ++ ending) :: rest ∧
        segments edit.body = front ++ (edit.after ++ ending) :: rest ∧
        (∀ c ∈ ending, isLineEnd c = true) ∧ edit.line = front.length + 1 ∧
        lineText edit.after = edit.after ∧
        scan (lines body) = before ++ (front.length, .row row spans) :: behind ∧
        scan (lines edit.body) = before ++ (front.length, .row row' spans') :: behind ∧
        row.line = edit.line ∧ row.id = item ∧ row' = { row with done := true, notes } ∧
        NotesKept pr row.notes notes ∧ tickLine edit.after row' spans' pr = edit.after := by
  obtain ⟨hpr, -, -, place, row, spans, hrows, rfl⟩ := tick_eq_ok.mp h
  obtain ⟨hmem, hid⟩ := mem_of_rowsOf (hrows ▸ mem_singleton_self _)
  obtain ⟨above, line, below, phase, before, behind, hlines, rfl, hmark, hfound, hscan⟩ :=
    exists_scanned hmem
  obtain ⟨parsed, hparse, hrow⟩ := rowLine_eq_row hfound.symm
  obtain ⟨front, raws, hsegments, rfl, hraws⟩ := List.map_eq_append_iff.mp hlines
  obtain ⟨raw, rest, rfl, rfl, rfl⟩ := List.map_eq_cons_iff.mp hraws
  obtain ⟨ending, hraw, hending⟩ := exists_ending raw
  have hdone : row.done = parsed.done := by rw [hrow]
  have hnotes : row.notes = parsed.notes := by rw [hrow]
  obtain ⟨notes, spans', hparse', hkept, hagain, hend, hfeed⟩ :=
    tickLine_reads hparse (lineText_idem raw) hpr
  rw [← tickLine_congr hdone] at hparse' hagain hend hfeed
  have hgetLine : (lines body).getD (front.map lineText).length [] = lineText raw := by
    rw [hlines]
    simp
  have hgetRaw : (segments body).getD (front.map lineText).length [] = raw := by
    rw [hsegments]
    simp
  have hdrop : raw.drop (lineText raw).length = ending := by
    have := congrArg (List.drop (lineText raw).length) hraw
    rwa [drop_left] at this
  rw [hgetLine, hgetRaw, hdrop]
  generalize hafter : tickLine (lineText raw) row spans pr = after at *
  have hset : (segments body).set (front.map lineText).length (after ++ ending) =
      front ++ (after ++ ending) :: rest := by
    rw [hsegments, length_map, set_append_right _ _ (Nat.le_refl _), Nat.sub_self]
    rfl
  have hrawFeed : '\n' ∉ lineText raw ++ ending := by
    rw [← hraw]
    exact @not_mem_segment body _ (by rw [hsegments]; simp)
  rw [mem_append, not_or] at hrawFeed
  have hedited : segments (joinSegments (front ++ (after ++ ending) :: rest)) =
      front ++ (after ++ ending) :: rest := by
    refine segments_joinSegments (by simp) fun l hl => ?_
    rcases List.mem_append.mp hl with hl | hl
    · exact @not_mem_segment body _ (by rw [hsegments]; simp [hl])
    · rcases List.mem_cons.mp hl with rfl | hl
      · rw [mem_append, not_or]
        exact ⟨hfeed hrawFeed.1, hrawFeed.2⟩
      · exact @not_mem_segment body _ (by rw [hsegments]; simp [hl])
  have hlines' : lines (joinSegments (front ++ (after ++ ending) :: rest)) =
      front.map lineText ++ after :: rest.map lineText := by
    rw [lines, hedited, map_append, map_cons, lineText_append hending hend]
  have hfound' : rowLine phase (front.map lineText).length after =
      .row { row with done := true, notes } spans' := by
    rw [rowLine, hparse', hrow]
  refine ⟨front, rest, ending, before, behind, row, _, spans, spans', notes, ?_, ?_, hending, ?_,
    hend, ?_, ?_, ?_, hid, rfl, hnotes ▸ hkept, hagain _ rfl⟩
  · rw [← hraw]
    exact hsegments
  · rw [hset, hedited]
  · rw [length_map]
  · rw [hlines, hscan _ hmark, ← hfound, length_map]
  · rw [hset, hlines', hscan _ (isRowMark_of_parseRow hparse'), hfound', length_map]
  · rw [hrow]

/-- A tick that succeeds changes one row line in front of its line ending. All rows and malformed
lines are read again where they were, the ticked row is done and has the entry in its notes, and the
same tick again changes nothing. -/
theorem tick_row_only (body item : String) (pr : Option Line) (edit : TickEdit)
    (h : tick body item pr = .ok edit) :
    (∃ front ending rest, segments body = front ++ (edit.before ++ ending) :: rest ∧
      segments edit.body = front ++ (edit.after ++ ending) :: rest ∧
      (∀ c ∈ ending, isLineEnd c = true) ∧ edit.line = front.length + 1) ∧
    (∃ rows row rows' notes, (parse body).rows = rows ++ row :: rows' ∧
      (parse edit.body).rows = rows ++ { row with done := true, notes } :: rows' ∧
      row.id = item ∧ row.line = edit.line ∧ NotesKept pr row.notes notes) ∧
    (parse edit.body).malformed = (parse body).malformed ∧
    tick edit.body item pr = .ok { edit with before := edit.after } := by
  obtain ⟨front, rest, ending, before, behind, row, row', spans, spans', notes, hsegments, hsegments',
    hending, hline, hend, hscan, hscan', hplace, hid, rfl, hkept, hagain⟩ := exists_ticked h
  refine ⟨⟨front, ending, rest, hsegments, hsegments', hending, hline⟩,
    ⟨(tableOf before).rows, row, (tableOf behind).rows, notes, ?_, ?_, hid, hplace, hkept⟩, ?_, ?_⟩
  · rw [parse, hscan, tableOf_append_row]
  · rw [parse, hscan', tableOf_append_row]
  · rw [parse, parse, hscan, hscan', tableOf_append_row, tableOf_append_row]
  · obtain ⟨hpr, hcount, hmalformed, place, row₀, spans₀, hrows, hedit⟩ := tick_eq_ok.mp h
    rw [hscan] at hcount hmalformed hrows
    have hrows' : rowsOf item before = [] ∧ rowsOf item behind = [] := by
      rw [rowsOf_append, rowsOf_row hid] at hrows
      have hlength := congrArg List.length hrows
      rw [List.length_append, List.length_cons, List.length_singleton] at hlength
      exact ⟨List.eq_nil_of_length_eq_zero (by omega), List.eq_nil_of_length_eq_zero (by omega)⟩
    refine tick_eq_ok.mpr ⟨hpr, ?_, ?_, front.length,
      { row with done := true, notes }, spans', ?_, ?_⟩
    · rw [hscan']
      simpa using hcount
    · rw [malformedOf_append, malformedOf_row] at hmalformed
      rw [hscan', malformedOf_append, malformedOf_row, hmalformed]
    · have hid' : ({ row with done := true, notes } : Row).id = item := hid
      rw [hscan', rowsOf_append, rowsOf_row hid', hrows'.1, hrows'.2]
      rfl
    · have hlines : (lines edit.body).getD front.length [] = edit.after := by
        rw [lines, hsegments', List.map_append, List.map_cons, lineText_append hending hend]
        simp
      have hraw : (segments edit.body).getD front.length [] = edit.after ++ ending := by
        rw [hsegments']
        simp
      rw [hlines, hraw, hagain, List.drop_left]
      have hset : (segments edit.body).set front.length (edit.after ++ ending) =
          segments edit.body := by
        rw [hsegments', List.set_append_right _ _ (Nat.le_refl _), Nat.sub_self]
        rfl
      rw [hset, joinSegments_segments, ← hline]

def notedBody : String :=
  "## Phase table\r\n- [ ] **A1** First: #1 (PR #16 (a) ) · after B2 \r\n- [x] **B2** Second"

def notedEdit : TickEdit where
  body := "## Phase table\r\n- [x] **A1** First: #1 (PR #16 (a), PR #1 ) · after B2 \r\n" ++
    "- [x] **B2** Second"
  line := 2
  before := "- [ ] **A1** First: #1 (PR #16 (a) ) · after B2".toList
  after := "- [x] **A1** First: #1 (PR #16 (a), PR #1 ) · after B2".toList

theorem tick_row_only_noted :
    tick notedBody "A1" (some "#1".toList) = .ok notedEdit ∧
      (parse notedEdit.body).malformed = (parse notedBody).malformed ∧
      tick notedEdit.body "A1" (some "#1".toList) =
        .ok { notedEdit with before := notedEdit.after } :=
  have htick : tick notedBody "A1" (some "#1".toList) = .ok notedEdit := by decide +kernel
  ⟨htick, (tick_row_only notedBody "A1" (some "#1".toList) notedEdit htick).2.2⟩

end NilsCli.Tracker
