import NilsCli.Devlog.Entry

/-!
# Written entries are read back

The lines of a rendered entry are plain, so that a reader sees all of them, and a written fragment is
loaded (`load_fragment`).
-/

namespace NilsCli.Devlog

open Lib

variable {line : Text} {lines : List Text} {entry : Entry} {date : EntryDate} {slug : Text}
  {q : Text → Bool} {state : Option Text}

/-! ## Reading plain lines -/

/-- The structural lines of a text. -/
def structuralLines (contents : Text) : List Text :=
  ((structuralLineMask (linesOf contents)).zip (linesOf contents)).filterMap fun row =>
    if row.1 then some row.2 else none

theorem splitInclusive_unlines_append (h : ∀ line ∈ lines, '\n' ∉ line) (text : Text) :
    splitInclusive (unlines lines ++ text) = lines.map (· ++ ['\n']) ++ splitInclusive text := by
  refine splitInclusive_flatten_append ?_ text
  intro raw hraw
  obtain ⟨line, hline, rfl⟩ := List.mem_map.mp hraw
  exact ⟨line, h line hline, rfl⟩

theorem splitInclusive_unlines (h : ∀ line ∈ lines, '\n' ∉ line) :
    splitInclusive (unlines lines) = lines.map (· ++ ['\n']) := by
  have hsplit := splitInclusive_unlines_append h []
  rwa [List.append_nil, splitInclusive, List.append_nil] at hsplit

theorem lineOf_newline (h : trimLineEnd line = line) : lineOf (line ++ ['\n']) = line := by
  unfold lineOf
  rw [if_pos (List.getLast?_concat ..), List.dropLast_concat, if_neg]
  intro hlast
  have hne : line ≠ [] := by
    rintro rfl
    cases hlast
  have hend := List.rdropWhile_eq_self_iff.mp h hne
  rw [List.getLast?_eq_some_getLast hne] at hlast
  exact hend (decide_eq_true (.inr (Option.some.inj hlast)))

theorem linesOf_unlines (h : ∀ line ∈ lines, Plain line) : linesOf (unlines lines) = lines := by
  rw [linesOf, splitInclusive_unlines fun line hline => (h line hline).one, List.map_map]
  exact (List.map_congr_left fun line hline => lineOf_newline (h line hline).ends).trans (List.map_id _)

theorem structural_eq (h : ∀ line ∈ lines, fenceDelimiter line = none) :
    ((structuralLineMask lines).zip lines).filterMap (fun row => if row.1 then some row.2 else none) =
      lines := by
  induction lines with
  | nil => simp
  | cons line lines ih =>
    obtain ⟨hline, hlines⟩ := List.forall_mem_cons.mp h
    simp only [structuralLineMask, hline, List.zip_cons_cons]
    exact congrArg (line :: ·) (ih hlines)

theorem structuralLines_unlines (h : ∀ line ∈ lines, Plain line) :
    structuralLines (unlines lines) = lines := by
  rw [structuralLines, linesOf_unlines h]
  exact structural_eq fun line hline => (h line hline).fence

theorem unterminated_of_plain (h : ∀ line ∈ lines, fenceDelimiter line = none) (at_ : Nat) :
    unterminatedFrom at_ lines = none := by
  induction lines generalizing at_ with
  | nil => simp [unterminatedFrom]
  | cons line lines ih =>
    obtain ⟨hline, hlines⟩ := List.forall_mem_cons.mp h
    simp only [unterminatedFrom, hline]
    exact ih hlines _

theorem closed_unlines (h : ∀ line ∈ lines, Plain line) :
    hasUnterminatedFence (linesOf (unlines lines)) = false := by
  rw [linesOf_unlines h, hasUnterminatedFence, unterminatedFenceLine,
    unterminated_of_plain fun line hline => (h line hline).fence]
  rfl

theorem noConflict_unlines (h : ∀ line ∈ lines, Plain line) : firstConflictMarker (unlines lines) = none := by
  rw [firstConflictMarker, linesOf_unlines h, Option.map_eq_none_iff, List.findIdx?_eq_none_iff]
  intro row hrow
  rw [(h _ (List.of_mem_zip hrow).2).conflict, Bool.and_false]

theorem quiet_of_forall {raws : List Text} (h : ∀ raw ∈ raws, q raw = false) : fence.Quiet q state raws := by
  induction raws generalizing state with
  | nil => exact Fence.quiet_nil
  | cons raw raws ih =>
    obtain ⟨hraw, hraws⟩ := List.forall_mem_cons.mp h
    rw [Fence.quiet_cons, hraw, Bool.and_false]
    exact ⟨rfl, ih hraws⟩

/-! ## The lines of a rendered entry -/

theorem blank_trimmed {text : Text} (h : blank text = false) : blank (trimmed text) = false := by
  by_contra hblank
  rw [Bool.not_eq_false, trimmed, ← trimEnd_eq_nil_iff, trimEnd_trimEnd, trimEnd_eq_nil_iff] at hblank
  have hall : blank text = true := by
    rw [blank, ← List.takeWhile_append_dropWhile (p := isWhitespace) (l := text), List.all_append,
      Bool.and_eq_true]
    exact ⟨List.all_takeWhile, hblank⟩
  rw [h] at hall
  cases hall

theorem mem_of_mem_trimmed {text : Text} {c : Char} (h : c ∈ trimmed text) : c ∈ text :=
  (List.dropWhile_suffix _).subset (mem_of_mem_trimEnd h)

theorem not_lineEnd_of_digit {c : Char} (h : isAsciiDigit c = true ∨ c = '-') : c ≠ '\n' ∧ c ≠ '\r' := by
  constructor
  · rintro rfl
    exact absurd h (by decide)
  · rintro rfl
    exact absurd h (by decide)

theorem date_chars (date : EntryDate) : ∀ c ∈ date.text, c ≠ '\n' ∧ c ≠ '\r' :=
  fun _ hc => not_lineEnd_of_digit (EntryDate.text_chars hc)

theorem headingLine_plain (date : EntryDate) (htitle : blank entry.title = false) (hline : '\n' ∉ entry.title) :
    Plain (entry.headingLine date) ∧ trimEnd (entry.headingLine date) = entry.headingLine date := by
  have htrim : trimEnd (entry.headingLine date) = entry.headingLine date := by
    rw [Entry.headingLine, trimEnd_append_of_not_blank _ (blank_trimmed htitle), trimmed, trimEnd_trimEnd]
  have hcons : entry.headingLine date =
      '#' :: ("# ".toList ++ (date.text ++ (" - ".toList ++ trimmed entry.title))) := by
    simp [Entry.headingLine]
  refine ⟨⟨?_, trimLineEnd_of_trimEnd htrim, ?_, ?_⟩, htrim⟩
  · simp only [Entry.headingLine, List.mem_append, not_or]
    exact ⟨⟨⟨by decide, fun h => (date_chars date _ h).1 rfl⟩, by decide⟩,
      fun h => hline (mem_of_mem_trimmed h)⟩
  · rw [hcons]
    exact fenceDelimiter_cons (by decide) _
  · rw [hcons]
    rfl

/-- In no bullet a fence starts a line. -/
def Entry.Fenceless (entry : Entry) : Prop :=
  ∀ row ∈ entry.sections, ∀ bullet ∈ row.2, NilsCli.Devlog.Fenceless bullet

theorem fenceless_todo : Fenceless "TODO".toList := by
  unfold NilsCli.Devlog.Fenceless
  decide +kernel

theorem rendered_label {row : Text × List Text} (h : row ∈ entry.rendered) : row.1 ∈ sectionLabels :=
  (List.of_mem_zip (List.mem_of_mem_filter h)).1

theorem shown_inner (hbullets : entry.Fenceless) {row : Text × List Text} (h : row ∈ entry.rendered) :
    ∀ line ∈ (shownBullets row.2).flatMap bulletLines, Inner line := by
  intro line hline
  obtain ⟨bullet, hbullet, hline⟩ := List.mem_flatMap.mp hline
  refine bulletLines_inner ?_ line hline
  unfold shownBullets at hbullet
  split at hbullet
  · exact List.mem_singleton.mp hbullet ▸ fenceless_todo
  · exact hbullets row (List.mem_of_mem_filter h) bullet hbullet

theorem label_line {label : Text} (h : label ∈ sectionLabels) :
    Plain ("### ".toList ++ label) ∧ sectionMark.isPrefixOf ("### ".toList ++ label) = false ∧
      "### ".toList.isPrefixOf? ("### ".toList ++ label) = some label ∧ trimmed label = label := by
  simp only [sectionLabels, List.mem_cons, List.not_mem_nil, or_false] at h
  rcases h with rfl | rfl | rfl | rfl | rfl
  all_goals exact ⟨⟨by decide, by decide, by decide, by decide⟩, by decide, by decide, by decide⟩

theorem inner_nil : Inner [] := ⟨⟨by decide, by decide, by decide, by decide⟩, by decide, by decide⟩

theorem sectionLines_plain (hbullets : entry.Fenceless) {row : Text × List Text} (h : row ∈ entry.rendered) :
    ∀ line ∈ sectionLines row, Plain line ∧ sectionMark.isPrefixOf line = false := by
  intro line hline
  simp only [sectionLines, List.mem_cons] at hline
  rcases hline with rfl | rfl | rfl | hline
  · exact ⟨inner_nil.toPlain, inner_nil.noEntry⟩
  · exact ⟨(label_line (rendered_label h)).1, (label_line (rendered_label h)).2.1⟩
  · exact ⟨inner_nil.toPlain, inner_nil.noEntry⟩
  · have hinner := shown_inner hbullets h line hline
    exact ⟨hinner.toPlain, hinner.noEntry⟩

theorem sectionLines_labels (hbullets : entry.Fenceless) {row : Text × List Text} (h : row ∈ entry.rendered) :
    (sectionLines row).filterMap ("### ".toList.isPrefixOf? ·) = [row.1] := by
  have hnone : ((shownBullets row.2).flatMap bulletLines).filterMap ("### ".toList.isPrefixOf? ·) = [] :=
    List.filterMap_eq_nil_iff.mpr fun line hline => (shown_inner hbullets h line hline).noSection
  rw [sectionLines, List.filterMap_cons_none inner_nil.noSection,
    List.filterMap_cons_some (label_line (rendered_label h)).2.2.1,
    List.filterMap_cons_none inner_nil.noSection, hnone]

/-- The lines below the heading. -/
def Entry.body (entry : Entry) : List Text := entry.rendered.flatMap sectionLines

theorem body_plain (hbullets : entry.Fenceless) :
    ∀ line ∈ entry.body, Plain line ∧ sectionMark.isPrefixOf line = false := by
  intro line hline
  obtain ⟨row, hrow, hline⟩ := List.mem_flatMap.mp hline
  exact sectionLines_plain hbullets hrow line hline

theorem body_labels (hbullets : entry.Fenceless) :
    entry.body.filterMap ("### ".toList.isPrefixOf? ·) = entry.rendered.map (·.1) := by
  have hall : ∀ rows : List (Text × List Text), (∀ row ∈ rows, row ∈ entry.rendered) →
      (rows.flatMap sectionLines).filterMap ("### ".toList.isPrefixOf? ·) = rows.map (·.1) := by
    intro rows hrows
    induction rows with
    | nil => rfl
    | cons row rows ih =>
      obtain ⟨hrow, hrows⟩ := List.forall_mem_cons.mp hrows
      rw [List.flatMap_cons, List.filterMap_append, sectionLines_labels hbullets hrow, ih hrows]
      rfl
  exact hall _ fun _ h => h

/-! ## Fragments -/

theorem isPrefixOf?_append (pattern rest : Text) : pattern.isPrefixOf? (pattern ++ rest) = some rest := by
  induction pattern with
  | nil => rfl
  | cons c pattern ih =>
    rw [List.cons_append, List.isPrefixOf?, if_pos (beq_self_eq_true c), ih]

theorem isSuffixOf?_append (text suffix_ : Text) : suffix_.isSuffixOf? (text ++ suffix_) = some text := by
  rw [List.isSuffixOf?, List.reverse_append, isPrefixOf?_append, Option.map_some, List.reverse_reverse]

/-- The line with the identity of a fragment. -/
def idLine (date : EntryDate) (slug : Text) : Text := idMark ++ (date.text ++ '-' :: slug) ++ " -->".toList

def fragmentLines (entry : Entry) (date : EntryDate) (slug : Text) : List Text :=
  entry.headingLine date :: idLine date slug :: entry.body

theorem fragmentRow_eq (slug : Text) (hheading : '\n' ∉ entry.headingLine date) : fragmentRow entry date slug =
    (date.text ++ '-' :: slug ++ ".md".toList, unlines (fragmentLines entry date slug)) := by
  have hsplit : splitOnce ['\n'] (entry.render date) = some (entry.headingLine date, unlines entry.body) := by
    rw [Entry.render_eq, Entry.allLines, unlines_cons]
    exact splitOnce_cons_self hheading
  rw [fragmentRow, hsplit, fragmentLines, unlines_cons, unlines_cons, idLine]
  simp

theorem slug_chars (h : validSlug slug = true) : ∀ c ∈ slug, c ≠ '\n' ∧ c ≠ '\r' := by
  rw [validSlug, decide_eq_true_iff] at h
  intro c hc
  have hall := List.all_eq_true.mp h.2.2 c hc
  constructor
  · rintro rfl
    exact absurd hall (by decide)
  · rintro rfl
    exact absurd hall (by decide)

theorem idLine_inner (date : EntryDate) (h : validSlug slug = true) : Inner (idLine date slug) := by
  have hmark : ∀ c ∈ idMark, c ≠ '\n' ∧ c ≠ '\r' := forall_of_all (by decide)
  have hclose : ∀ c ∈ " -->".toList, c ≠ '\n' ∧ c ≠ '\r' := forall_of_all (by decide)
  have hchars : ∀ c ∈ idLine date slug, c ≠ '\n' ∧ c ≠ '\r' := by
    intro c hc
    simp only [idLine, List.mem_append, List.mem_cons] at hc
    rcases hc with (hc | hc | rfl | hc) | hc
    · exact hmark c hc
    · exact date_chars date c hc
    · decide
    · exact slug_chars h c hc
    · exact hclose c hc
  have hcons : idLine date slug =
      '<' :: '!' :: ("-- devlog-id: ".toList ++ ((date.text ++ '-' :: slug) ++ " -->".toList)) := by
    have hmark : idMark = '<' :: '!' :: "-- devlog-id: ".toList := by decide
    rw [idLine, List.append_assoc, hmark]
    rfl
  refine ⟨⟨fun hmem => (hchars _ hmem).1 rfl, trimLineEnd_eq_self hchars, ?_, ?_⟩, ?_, ?_⟩
  · rw [hcons]
    exact fenceDelimiter_cons (by decide) _
  · rw [hcons]
    rfl
  · rw [hcons]
    rfl
  · rw [hcons]
    rfl

/-- The result of an entry is always rendered. -/
theorem body_shown (entry : Entry) : blank (unlines entry.body) = false := by
  have hmem : ("Result".toList, entry.result) ∈ entry.rendered := by
    refine List.mem_filter.mpr ⟨List.mem_cons_self, ?_⟩
    have hrequired : (!requiredSections.contains "Result".toList) = false := by decide
    rw [hrequired, Bool.and_false]
    rfl
  have hchar : '#' ∈ unlines entry.body := by
    refine List.mem_flatten.mpr ⟨"### ".toList ++ "Result".toList ++ ['\n'], ?_, by decide⟩
    refine List.mem_map_of_mem (List.mem_flatMap.mpr ⟨_, hmem, ?_⟩)
    exact List.mem_cons_of_mem _ List.mem_cons_self
  by_contra hblank
  rw [Bool.not_eq_false, blank, List.all_eq_true] at hblank
  exact absurd (hblank _ hchar) (by decide)

/-- The block of a fragment. -/
def fragmentBlock (entry : Entry) (date : EntryDate) (slug : Text) : Block where
  date := date
  slug := slug
  identity := date.text ++ '-' :: slug
  text := trimEnd (unlines (fragmentLines entry date slug)) ++ ['\n']

theorem splitOnce_date (date : EntryDate) (title : Text) :
    splitOnce " - ".toList (date.text ++ " - ".toList ++ title) = some (date.text, title) := by
  have hall : ∀ text : Text, ' ' ∉ text →
      splitOnce " - ".toList (text ++ " - ".toList ++ title) = some (text, title) := by
    intro text htext
    induction text with
    | nil => rfl
    | cons c text ih =>
      rw [List.mem_cons, not_or] at htext
      have hnot : " - ".toList.isPrefixOf (c :: (text ++ " - ".toList ++ title)) = false := by
        change (' ' == c && _) = false
        rw [beq_eq_false_iff_ne.mpr htext.1, Bool.false_and]
      rw [List.cons_append, List.cons_append, splitOnce, if_neg (by rw [hnot]; exact Bool.false_ne_true),
        ih htext.2]
      rfl
  refine hall _ fun hmem => ?_
  rcases EntryDate.text_chars hmem with h | h
  · exact absurd h (by decide)
  · exact absurd h (by decide)

theorem parseBlock_fragment (date : EntryDate) (htitle : blank entry.title = false) (hline : '\n' ∉ entry.title)
    (hslug : validSlug slug = true) :
    parseBlock (fragmentBlock entry date slug).text = .ok (fragmentBlock entry date slug) := by
  obtain ⟨hplain, htrim⟩ := headingLine_plain date htitle hline
  have hid := idLine_inner date hslug
  have htext : (fragmentBlock entry date slug).text = entry.headingLine date ++ '\n' ::
      (idLine date slug ++ '\n' :: (trimEnd (unlines entry.body) ++ ['\n'])) := by
    change trimEnd (unlines (fragmentLines entry date slug)) ++ ['\n'] = _
    have hparts : unlines (fragmentLines entry date slug) =
        (entry.headingLine date ++ '\n' :: (idLine date slug ++ ['\n'])) ++ unlines entry.body := by
      rw [fragmentLines, unlines_cons, unlines_cons]
      simp
    rw [hparts, trimEnd_append_of_not_blank _ (body_shown entry)]
    simp
  have hlines : ∃ rest, linesOf (fragmentBlock entry date slug).text =
      entry.headingLine date :: idLine date slug :: rest := by
    rw [htext, linesOf, splitInclusive_body hplain.one, splitInclusive_body hid.one, List.map_cons,
      List.map_cons, lineOf_newline hplain.ends, lineOf_newline hid.ends]
    exact ⟨_, rfl⟩
  obtain ⟨rest, hlines⟩ := hlines
  have hheading : sectionMark.isPrefixOf? (entry.headingLine date) =
      some (date.text ++ " - ".toList ++ trimmed entry.title) := by
    have hparts : entry.headingLine date = sectionMark ++ (date.text ++ " - ".toList ++ trimmed entry.title) := by
      simp [Entry.headingLine, sectionMark]
    rw [hparts, isPrefixOf?_append]
  have hmarker : markerId (fragmentBlock entry date slug).text = some (date.text ++ '-' :: slug) := by
    have hidLine : idLine date slug = idMark ++ ((date.text ++ '-' :: slug) ++ " -->".toList) := by
      rw [idLine, List.append_assoc]
    rw [markerId, hlines]
    change ((idMark.isPrefixOf? (idLine date slug)).bind _) = _
    rw [hidLine, isPrefixOf?_append, Option.bind_some, isSuffixOf?_append]
  have hslug' : ((date.text ++ ['-']).isPrefixOf? (date.text ++ '-' :: slug)).filter validSlug = some slug := by
    have hparts : date.text ++ '-' :: slug = (date.text ++ ['-']) ++ slug := by simp
    rw [hparts, isPrefixOf?_append, Option.filter_some, hslug]
    rfl
  unfold parseBlock
  rw [hlines, List.headD_cons, htrim, hheading]
  simp only [splitOnce_date, parseDate_text, hmarker, hslug']
  rfl

theorem fragment_plain (date : EntryDate) (htitle : blank entry.title = false) (hline : '\n' ∉ entry.title)
    (hbullets : entry.Fenceless) (hslug : validSlug slug = true) :
    ∀ line ∈ fragmentLines entry date slug, Plain line := by
  intro line hmem
  simp only [fragmentLines, List.mem_cons] at hmem
  rcases hmem with rfl | rfl | hmem
  · exact (headingLine_plain date htitle hline).1
  · exact (idLine_inner date hslug).toPlain
  · exact (body_plain hbullets line hmem).1

theorem heading_starts (entry : Entry) (date : EntryDate) :
    sectionMark.isPrefixOf (entry.headingLine date) = true := by
  rw [Entry.headingLine, List.append_assoc, List.append_assoc]
  exact List.isPrefixOf_iff_prefix.mpr (List.prefix_append _ _)

/-- Plain lines below a heading are one block. -/
theorem isBlock_lines {first : Text} (hfirst : Plain first) (hheading : sectionMark.isPrefixOf first = true)
    (hrest : ∀ line ∈ lines, sectionMark.isPrefixOf line = false) :
    fence.IsBlock isHeading ((first :: lines).map (· ++ ['\n'])) := by
  refine ⟨first ++ ['\n'], lines.map (· ++ ['\n']), rfl, ?_, ?_, quiet_of_forall fun raw hraw => ?_⟩
  · have hsame := fenceDelimiter_lineOf (first ++ ['\n'])
    rw [lineOf_newline hfirst.ends] at hsame
    exact hsame.symm.trans hfirst.fence
  · rw [isHeading, isPrefixOf_append_newline (by decide), hheading]
  · obtain ⟨line, hline, rfl⟩ := List.mem_map.mp hraw
    rw [isHeading, isPrefixOf_append_newline (by decide), hrest line hline]

theorem closed_lines (h : ∀ line ∈ lines, Plain line) :
    fence.after none (lines.map (· ++ ['\n'])) = none := by
  have hclosed := (unterminated_eq_false _).mp (closed_unlines h)
  rwa [splitInclusive_unlines fun line hline => (h line hline).one] at hclosed

theorem blocks_fragment (htitle : blank entry.title = false) (hline : '\n' ∉ entry.title)
    (hbullets : entry.Fenceless) (hslug : validSlug slug = true) :
    blocks (unlines (fragmentLines entry date slug)) = .ok [fragmentBlock entry date slug] := by
  have hplain := fragment_plain date htitle hline hbullets hslug
  have hblock : fence.IsBlock isHeading ((fragmentLines entry date slug).map (· ++ ['\n'])) := by
    refine isBlock_lines (hplain _ List.mem_cons_self) (heading_starts entry date) fun line hmem => ?_
    rcases List.mem_cons.mp hmem with rfl | hmem
    · exact (idLine_inner date hslug).noEntry
    · exact (body_plain hbullets line hmem).2
  have hcut : fence.cut isHeading none ((fragmentLines entry date slug).map (· ++ ['\n']) ++ []) = _ :=
    Fence.after_block hblock (closed_lines hplain)
  rw [List.append_nil] at hcut
  have hpieces : piecesOf (unlines (fragmentLines entry date slug)) =
      ([], [(fragmentLines entry date slug).map (· ++ ['\n'])]) := by
    rw [piecesOf_eq, splitInclusive_unlines fun line hmem => (hplain line hmem).one, hcut]
    rw [Fence.cut, List.append_nil]
  rw [blocks, noConflict_unlines hplain]
  simp only [closed_unlines hplain, hpieces]
  rw [if_neg Bool.false_ne_true, List.mapM_cons]
  have hparse := parseBlock_fragment date htitle hline hslug
  rw [pieceText]
  change (parseBlock (fragmentBlock entry date slug).text >>= _) = _
  rw [hparse]
  rfl

/-! ## The check of a fragment -/

theorem isPrefixOf?_eq_none {pattern text : Text} (h : pattern.isPrefixOf text = false) :
    pattern.isPrefixOf? text = none := by
  cases hrest : pattern.isPrefixOf? text with
  | none => rfl
  | some rest =>
    rw [isPrefixOf?_eq_some hrest, List.isPrefixOf_iff_prefix.mpr (List.prefix_append _ _)] at h
    cases h

theorem checkedEntries_body (h : ∀ line ∈ lines, sectionMark.isPrefixOf line = false) (current : CheckedEntry) :
    checkedEntries lines (some current) =
      [⟨current.title, current.labels ++ (lines.filterMap ("### ".toList.isPrefixOf? ·)).map trimmed⟩] := by
  induction lines generalizing current with
  | nil =>
    rw [checkedEntries, List.filterMap_nil, List.map_nil, List.append_nil]
    rfl
  | cons line lines ih =>
    obtain ⟨hline, hlines⟩ := List.forall_mem_cons.mp h
    have hnone : "## ".toList.isPrefixOf? line = none := isPrefixOf?_eq_none hline
    rw [checkedEntries, hnone]
    simp only
    cases hlabel : "### ".toList.isPrefixOf? line with
    | none =>
      rw [List.filterMap_cons_none hlabel]
      exact ih hlines current
    | some label =>
      rw [List.filterMap_cons_some hlabel, List.map_cons]
      refine (ih hlines _).trans ?_
      rw [List.append_assoc, List.singleton_append]

theorem monthHeading_shape (month : Month) : Inner month.heading ∧ trimmed month.heading = month.heading := by
  have hmark : ∀ c ∈ "# Development log - ".toList, c ≠ '\n' ∧ c ≠ '\r' := forall_of_all (by decide)
  have hchars : ∀ c ∈ month.heading, c ≠ '\n' ∧ c ≠ '\r' := by
    intro c hc
    rcases List.mem_append.mp hc with hc | hc
    · exact hmark c hc
    · exact not_lineEnd_of_digit (Month.text_chars hc)
  have hcons : month.heading = '#' :: (" Development log - ".toList ++ month.text) := by
    have hfirst : "# Development log - ".toList = '#' :: " Development log - ".toList := by decide
    exact congrArg (· ++ month.text) hfirst
  refine ⟨⟨⟨fun hmem => (hchars _ hmem).1 rfl, trimLineEnd_eq_self hchars, ?_, ?_⟩, ?_, ?_⟩, ?_⟩
  · rw [hcons]
    exact fenceDelimiter_cons (by decide) _
  · rw [hcons]
    rfl
  · rw [hcons]
    rfl
  · rw [hcons]
    rfl
  · rw [trimmed, hcons, List.dropWhile_cons_of_neg (by decide), ← hcons]
    exact trimEnd_month (parseMonth_text month)

theorem date_shown (date : EntryDate) : ∀ c ∈ date.text, isWhitespace c = false := by
  intro c hc
  rcases EntryDate.text_chars hc with hdigit | rfl
  · simp only [isAsciiDigit, charIn, decide_eq_true_eq] at hdigit
    have hlow : 48 ≤ c.toNat ∧ c.toNat ≤ 57 := hdigit
    simp only [isWhitespace, decide_eq_false_iff_not]
    omega
  · decide

theorem trimmed_date (date : EntryDate) : trimmed date.text = date.text := by
  have hfirst : date.text.dropWhile isWhitespace = date.text :=
    List.dropWhile_cons_of_neg (by simp [date_shown date _ List.mem_cons_self])
  rw [trimmed, hfirst]
  refine List.rdropWhile_eq_self_iff.mpr fun hne hend => ?_
  rw [date_shown date _ (List.getLast_mem hne)] at hend
  cases hend

theorem trimmed_title {title : Text} (h : blank title = false) (date : EntryDate) :
    trimmed (date.text ++ " - ".toList ++ trimmed title) = date.text ++ " - ".toList ++ trimmed title := by
  have hfirst : (date.text ++ " - ".toList ++ trimmed title).dropWhile isWhitespace =
      date.text ++ " - ".toList ++ trimmed title :=
    List.dropWhile_cons_of_neg (by simp [date_shown date _ List.mem_cons_self])
  rw [trimmed, hfirst, trimEnd_append_of_not_blank _ (blank_trimmed h)]
  congr 1
  exact trimEnd_trimEnd _

theorem checkedEntry_date (date : EntryDate) (title : Text) (labels : List Text) :
    CheckedEntry.date ⟨date.text ++ " - ".toList ++ title, labels⟩ = some date.text := by
  rw [CheckedEntry.date, splitOnce_date, Option.map_some, trimmed_date]

theorem checkedEntries_inner (h : Inner line) (current : Option CheckedEntry) :
    checkedEntries (line :: lines) current = checkedEntries lines current := by
  have hnone : "## ".toList.isPrefixOf? line = none := isPrefixOf?_eq_none h.noEntry
  rw [checkedEntries, hnone]
  simp only
  rw [h.noSection]

/-- The check collects one entry, with its sections. -/
theorem checkedEntries_fragment (htitle : blank entry.title = false) (hbullets : entry.Fenceless)
    (hslug : validSlug slug = true) :
    checkedEntries (date.month.heading :: [] :: fragmentLines entry date slug) none =
      [⟨date.text ++ " - ".toList ++ trimmed entry.title, entry.rendered.map (·.1)⟩] := by
  have hheading : "## ".toList.isPrefixOf? (entry.headingLine date) =
      some (date.text ++ " - ".toList ++ trimmed entry.title) := by
    have hparts : entry.headingLine date =
        "## ".toList ++ (date.text ++ " - ".toList ++ trimmed entry.title) := by
      rw [Entry.headingLine, List.append_assoc, List.append_assoc, List.append_assoc]
    rw [hparts, isPrefixOf?_append]
  have hlabels : (entry.rendered.map (·.1)).map trimmed = entry.rendered.map (·.1) := by
    rw [List.map_map]
    refine List.map_congr_left fun row hrow => ?_
    exact (label_line (rendered_label hrow)).2.2.2
  rw [checkedEntries_inner (monthHeading_shape date.month).1, checkedEntries_inner inner_nil, fragmentLines,
    checkedEntries, hheading]
  simp only
  rw [checkedEntries_inner (idLine_inner date hslug),
    checkedEntries_body fun line hmem => (body_plain hbullets line hmem).2, body_labels hbullets, hlabels, trimmed_title htitle]
  rfl

theorem dateBelongsTo_self (date : EntryDate) : dateBelongsTo date.text date.month = true := by
  have hreverse : date.text.reverse =
      digit date.day :: digit (date.day / 10) :: '-' :: date.month.text.reverse := by
    rw [EntryDate.text, twoDigits]
    simp
  rw [dateBelongsTo, hreverse]
  simp only [List.reverse_reverse, decide_true, (digit_cases _).2.1, Bool.and_self]

theorem required_rendered (entry : Entry) {label : Text} (h : label ∈ requiredSections) :
    label ∈ entry.rendered.map (·.1) := by
  have hall : ∀ bullets, (label, bullets) ∈ entry.sections → label ∈ entry.rendered.map (·.1) := by
    intro bullets hmem
    refine List.mem_map.mpr ⟨_, List.mem_filter.mpr ⟨hmem, ?_⟩, rfl⟩
    rw [List.contains_iff_mem.mpr h, Bool.not_true, Bool.and_false, Bool.not_false]
  simp only [requiredSections, List.mem_cons, List.not_mem_nil, or_false] at h
  rcases h with rfl | rfl | rfl
  · exact hall entry.result (by simp [Entry.sections, sectionLabels])
  · exact hall entry.why (by simp [Entry.sections, sectionLabels])
  · exact hall entry.evidence (by simp [Entry.sections, sectionLabels])

theorem checkContents_fragment (htitle : blank entry.title = false) (hline : '\n' ∉ entry.title)
    (hbullets : entry.Fenceless) (hslug : validSlug slug = true) :
    checkContents date.month (date.month.heading ++ "\n\n".toList ++
      unlines (fragmentLines entry date slug)) = [] := by
  obtain ⟨hheading, htrim⟩ := monthHeading_shape date.month
  have hplain : ∀ line ∈ date.month.heading :: [] :: fragmentLines entry date slug, Plain line := by
    intro line hmem
    simp only [List.mem_cons] at hmem
    rcases hmem with rfl | rfl | hmem
    · exact hheading.toPlain
    · exact inner_nil.toPlain
    · exact fragment_plain date htitle hline hbullets hslug line hmem
  have htext : date.month.heading ++ "\n\n".toList ++ unlines (fragmentLines entry date slug) =
      unlines (date.month.heading :: [] :: fragmentLines entry date slug) := by
    rw [unlines_cons, unlines_cons, List.append_assoc]
    rfl
  have hfences : unterminatedFenceLine (date.month.heading :: [] :: fragmentLines entry date slug) = none :=
    unterminated_of_plain (fun line hmem => (hplain line hmem).fence) 0
  have hmissing : requiredSections.filter (!(entry.rendered.map (·.1)).contains ·) = [] := by
    refine List.filter_eq_nil_iff.mpr fun label hlabel => ?_
    rw [List.contains_iff_mem.mpr (required_rendered entry hlabel)]
    decide
  have hunknown : (entry.rendered.map (·.1)).filter (!sectionLabels.contains ·) = [] := by
    refine List.filter_eq_nil_iff.mpr fun label hlabel => ?_
    obtain ⟨row, hrow, rfl⟩ := List.mem_map.mp hlabel
    rw [List.contains_iff_mem.mpr (rendered_label hrow)]
    decide
  have hsorted : sortBy (fun a b => decide (b ≤ a)) [date.text] = [date.text] := rfl
  unfold checkContents
  rw [htext, noConflict_unlines hplain]
  simp only [linesOf_unlines hplain, structural_eq fun line hmem => (hplain line hmem).fence,
    checkedEntries_fragment htitle hbullets hslug, List.headD_cons, htrim, hfences, List.filterMap_cons,
    List.filterMap_nil, List.filter_cons, List.filter_nil, checkedEntry_date, dateBelongsTo_self,
    List.flatMap_cons, List.flatMap_nil, hmissing, hunknown, hsorted]
  simp

theorem load_fragment (htitle : blank entry.title = false) (hline : '\n' ∉ entry.title)
    (hbullets : entry.Fenceless) (hslug : validSlug slug = true) :
    load (fragmentRow entry date slug) =
      .ok ⟨(fragmentRow entry date slug).1, fragmentBlock entry date slug, hslug⟩ := by
  have hrow := fragmentRow_eq slug (headingLine_plain date htitle hline).1.one
  have hname : (fragmentRow entry date slug).1 = (date.text ++ '-' :: slug) ++ ".md".toList := by
    rw [hrow]
  have htext : (fragmentRow entry date slug).2 = unlines (fragmentLines entry date slug) := by
    rw [hrow]
  have hlen : date.text.length = 10 := rfl
  have htake : (date.text ++ '-' :: slug).take 10 = date.text := List.take_left' hlen
  have hdrop : (date.text ++ '-' :: slug).drop 10 = ['-'] ++ slug := List.drop_left' hlen
  have hstarts : sectionMark.isPrefixOf (unlines (fragmentLines entry date slug)) = true := by
    rw [fragmentLines, unlines_cons, List.isPrefixOf_iff_prefix]
    exact (List.isPrefixOf_iff_prefix.mp (heading_starts entry date)).trans (List.prefix_append _ _)
  unfold load
  simp only [hname, htext, isSuffixOf?_append, htake, parseDate_text, hdrop, isPrefixOf?_append, hslug,
    dif_pos, blocks_fragment htitle hline hbullets hslug, hstarts, if_true]
  rw [dif_pos ⟨rfl, rfl, rfl⟩]
  change (if checkContents date.month _ = [] then _ else _) = _
  rw [if_pos (checkContents_fragment htitle hline hbullets hslug)]

end NilsCli.Devlog

/-!
## Inserted entries

The main result on `Entry.render`: where no line of a bullet opens a fence, every line of an entry is seen
by a reader, so a written fragment is loaded, and an inserted entry takes a block of its own
(`render_closed`).
-/

namespace NilsCli.Devlog

open Lib

variable {contents : Text} {entry : Entry} {date : EntryDate} {raws : List Text}

/-! ## Lines -/

theorem rendered_plain (date : EntryDate) (htitle : blank entry.title = false) (hline : '\n' ∉ entry.title)
    (hbullets : entry.Fenceless) : ∀ line ∈ entry.allLines date, Plain line := by
  intro line hmem
  rcases List.mem_cons.mp hmem with rfl | hmem
  · exact (headingLine_plain date htitle hline).1
  · exact (body_plain hbullets line hmem).1

theorem splitInclusive_dropWhile (text : Text) : splitInclusive (text.dropWhile (· = '\n')) =
    (splitInclusive text).dropWhile (· = ['\n']) := by
  induction text with
  | nil => rfl
  | cons c text ih =>
    by_cases hc : c = '\n'
    · have hsplit : splitInclusive (c :: text) = ['\n'] :: splitInclusive text := by
        rw [splitInclusive, if_pos hc, hc]
      rw [List.dropWhile_cons_of_pos (by simp [hc]), ih, hsplit, List.dropWhile_cons_of_pos (by simp)]
    · rw [List.dropWhile_cons_of_neg (by simp [hc])]
      have hfirst : ∃ line lines, splitInclusive (c :: text) = (c :: line) :: lines := by
        rw [splitInclusive, if_neg hc]
        split
        · exact ⟨_, _, rfl⟩
        · exact ⟨_, _, rfl⟩
      obtain ⟨line, lines, hsplit⟩ := hfirst
      rw [hsplit, List.dropWhile_cons_of_neg (by simp [hc])]

theorem splitOnce_newline (text : Text) :
    ((splitOnce ['\n'] text).map (·.2)).getD [] = (splitInclusive text).tail.flatten := by
  induction text with
  | nil => rfl
  | cons c text ih =>
    rw [splitOnce, splitInclusive]
    by_cases hc : c = '\n'
    · rw [if_pos (by simp [hc]), if_pos hc]
      simp
    · rw [if_neg (by simp [Ne.symm hc]), if_neg hc, Option.map_map]
      refine Eq.trans ?_ (ih.trans ?_)
      · rfl
      · split
        next hnil => rw [hnil]; rfl
        next hcons => rw [hcons]; rfl

theorem newline_not_mem_lineOf {raw : Text} (h : raw ∈ splitInclusive contents) : '\n' ∉ lineOf raw := by
  obtain ⟨raws, last, hsplit, hraws, hlast⟩ := splitInclusive_eq contents
  have hshape : ∃ body, '\n' ∉ body ∧ (raw = body ++ ['\n'] ∨ raw = body) := by
    rw [hsplit, List.mem_append] at h
    rcases h with h | h
    · obtain ⟨body, hbody, rfl⟩ := hraws raw h
      exact ⟨body, hbody, .inl rfl⟩
    · rcases hlast with rfl | ⟨body, rfl, -, hbody⟩
      · exact absurd h List.not_mem_nil
      · exact ⟨body, hbody, .inr (List.mem_singleton.mp h)⟩
  obtain ⟨body, hbody, rfl | rfl⟩ := hshape
  · unfold lineOf
    rw [if_pos (List.getLast?_concat ..), List.dropLast_concat]
    split
    · exact fun hmem => hbody ((List.dropLast_sublist _).subset hmem)
    · exact hbody
  · unfold lineOf
    rw [if_neg fun hend => hbody (List.mem_of_getLast? hend)]
    exact hbody

theorem splitInclusive_tail {raw : Text} (h : splitInclusive contents = raw :: raws) :
    splitInclusive raws.flatten = raws := by
  by_cases hnil : raws = []
  · rw [hnil]
    rfl
  · have hwhole := whole_of_before (show splitInclusive contents = [raw] ++ raws from h) hnil
    have hflat := flatten_splitInclusive contents
    rw [h, List.flatten_cons] at hflat
    rw [← hflat] at h
    have hsplit := splitInclusive_flatten_append hwhole raws.flatten
    rw [List.flatten_singleton, h, List.singleton_append, List.cons_eq_cons] at hsplit
    exact hsplit.2.symm

theorem first_shape {first : Text} (h : trimmed first = date.month.heading) :
    fenceDelimiter first = none ∧ sectionMark.isPrefixOf first = false := by
  obtain ⟨tail, -, htail⟩ := trimEnd_append (first.dropWhile isWhitespace)
  rw [← trimmed, h] at htail
  have hcons : ∃ rest, first.dropWhile isWhitespace = '#' :: ' ' :: rest := by
    have hmark : "# Development log - ".toList = '#' :: ' ' :: "Development log - ".toList := by decide
    refine ⟨"Development log - ".toList ++ date.month.text ++ tail, ?_⟩
    rw [htail]
    exact congrArg (· ++ date.month.text ++ tail) hmark
  obtain ⟨rest, hrest⟩ := hcons
  constructor
  · have hdrop : (first.dropWhile isWhitespace).dropWhile isWhitespace = first.dropWhile isWhitespace := by
      rw [hrest]
      exact List.dropWhile_cons_of_neg (by decide)
    have hsame : fenceDelimiter first = fenceDelimiter (first.dropWhile isWhitespace) := by
      unfold fenceDelimiter
      rw [hdrop]
    rw [hsame, hrest]
    exact fenceDelimiter_cons (by decide) _
  · by_contra hmark
    rw [Bool.not_eq_false, List.isPrefixOf_iff_prefix] at hmark
    obtain ⟨more, rfl⟩ := hmark
    rw [sectionMark] at hrest
    change '#' :: '#' :: ' ' :: more = _ at hrest
    cases hrest

/-! ## Insertion -/

def prose (contents : Text) : Text :=
  ((piecesOf contents).1.tail.dropWhile (· = ['\n'])).flatten

theorem cut_dropWhile (raws : List Text) :
    (fence.cut isHeading none (raws.dropWhile (· = ['\n']))).1.dropWhile (· = ['\n']) =
      (fence.cut isHeading none (raws.dropWhile (· = ['\n']))).1 := by
  induction raws with
  | nil => rfl
  | cons raw raws ih =>
    by_cases hraw : raw = ['\n']
    · rw [List.dropWhile_cons_of_pos (by simp [hraw]), ih]
    · rw [List.dropWhile_cons_of_neg (by simp [hraw]), Fence.cut]
      split
      · rfl
      · exact List.dropWhile_cons_of_neg (by simp [hraw])

theorem cut_newline_cons (raws : List Text) : fence.cut isHeading none (['\n'] :: raws) =
    (['\n'] :: (fence.cut isHeading none raws).1, (fence.cut isHeading none raws).2) := by
  have hnext : fence.next none ['\n'] = none := by decide
  have hvisible : (fence.visible none ['\n'] && isHeading ['\n']) = false := by decide
  rw [Fence.cut, hnext, hvisible]
  rfl

theorem cut_newlines (raws : List Text) :
    fence.cut isHeading none raws =
      (raws.takeWhile (· = ['\n']) ++ (fence.cut isHeading none (raws.dropWhile (· = ['\n']))).1,
        (fence.cut isHeading none (raws.dropWhile (· = ['\n']))).2) := by
  induction raws with
  | nil => rfl
  | cons raw raws ih =>
    by_cases hraw : raw = ['\n']
    · rw [List.takeWhile_cons_of_pos (by simp [hraw]), List.dropWhile_cons_of_pos (by simp [hraw]), hraw,
        cut_newline_cons, ih]
      rfl
    · rw [List.takeWhile_cons_of_neg (by simp [hraw]), List.dropWhile_cons_of_neg (by simp [hraw])]
      rfl

/-- A block below a heading line is cut as one. -/
theorem cut_inserted {first : Text} (hfence : fenceDelimiter first = none)
    (hmark : sectionMark.isPrefixOf first = false) {block : List Text} (hblock : fence.IsBlock isHeading block)
    (hclosed : fence.after none block = none) (below : List Text) :
    (fence.cut isHeading none ((first ++ ['\n']) :: ['\n'] :: (block ++ below))).2 =
      (block ++ (fence.cut isHeading none below).1) :: (fence.cut isHeading none below).2 := by
  have hnext : fence.next none (first ++ ['\n']) = none := by
    change fenceDelimiter (first ++ ['\n']) = none
    rw [← fenceDelimiter_trimEnd, trimEnd_newline, fenceDelimiter_trimEnd, hfence]
  have hnotHeading : isHeading (first ++ ['\n']) = false := by
    rw [isHeading, isPrefixOf_append_newline (by decide), hmark]
  rw [Fence.cut, hnext, hnotHeading, Bool.and_false, cut_newline_cons, Fence.after_block hblock hclosed]
  rfl

theorem insert_blocks (hplain : ∀ line ∈ entry.allLines date, Plain line)
    (hbody : ∀ line ∈ entry.body, sectionMark.isPrefixOf line = false) {existing : Option Text}
    (hcontents : existing.getD (date.month.heading ++ ['\n']) = contents)
    (hmarkers : firstConflictMarker contents = none)
    (hheading : trimmed ((linesOf contents).headD []) = date.month.heading) :
    ∃ updated, insert existing entry date = .ok (⟨date.month, date, existing.isNone⟩, updated) ∧
      (piecesOf updated).2.map pieceText =
        (trimEnd (entry.render date ++ '\n' :: prose contents) ++ ['\n']) ::
          (piecesOf contents).2.map pieceText := by
  -- the first line of the file, and the lines below it
  cases hsplit : splitInclusive contents with
  | nil =>
    rw [linesOf, hsplit] at hheading
    cases hheading
  | cons raw raws =>
    have hfirst : (linesOf contents).headD [] = lineOf raw := by
      rw [linesOf, hsplit]
      rfl
    rw [hfirst] at hheading
    have hnewline : '\n' ∉ lineOf raw := newline_not_mem_lineOf (hsplit ▸ List.mem_cons_self)
    obtain ⟨hfence, hmark⟩ := first_shape hheading
    have hraws := splitInclusive_tail hsplit
    let below := raws.dropWhile (· = ['\n'])
    have hrest : splitInclusive ((((splitOnce ['\n'] contents).map (·.2)).getD []).dropWhile (· = '\n')) =
        below := by
      rw [splitOnce_newline, hsplit, List.tail_cons, splitInclusive_dropWhile, hraws]
    -- the blocks of the file
    have hdelim : fence.delim raw = none := (fenceDelimiter_lineOf raw).symm.trans hfence
    have hnotHeading : isHeading raw = false := (sectionMark_lineOf raw).symm.trans hmark
    have hpieces : piecesOf contents =
        (raw :: (raws.takeWhile (· = ['\n']) ++ (fence.cut isHeading none below).1),
          (fence.cut isHeading none below).2) := by
      have hnext : fence.next none raw = none := hdelim
      rw [piecesOf_eq, hsplit, Fence.cut, hnext, hnotHeading, cut_newlines raws, Bool.and_false]
      rfl
    have hprose : prose contents = (fence.cut isHeading none below).1.flatten := by
      have hnewlines : ∀ r ∈ raws.takeWhile (· = ['\n']), decide (r = ['\n']) = true := by
        intro r hr
        simpa using List.mem_takeWhile_imp hr
      rw [prose, hpieces, List.tail_cons, List.dropWhile_append_of_pos hnewlines]
      exact congrArg List.flatten (cut_dropWhile raws)
    -- the new block
    have hblock : fence.IsBlock isHeading ((entry.allLines date).map (· ++ ['\n'])) :=
      isBlock_lines (hplain _ List.mem_cons_self) (heading_starts entry date) hbody
    have hclosed := closed_lines hplain
    have hflatten : ((entry.allLines date).map (· ++ ['\n'])).flatten = entry.render date :=
      (Entry.render_eq entry date).symm
    have hlines : ∀ line ∈ lineOf raw :: [] :: entry.allLines date, '\n' ∉ line := by
      intro line hmem
      simp only [List.mem_cons] at hmem
      rcases hmem with rfl | rfl | hmem
      · exact hnewline
      · exact List.not_mem_nil
      · exact (hplain line hmem).one
    have hhead : ∀ tail : Text, lineOf raw ++ "\n\n".toList ++ entry.render date ++ tail =
        unlines (lineOf raw :: [] :: entry.allLines date) ++ tail := by
      intro tail
      rw [unlines_cons, unlines_cons, Entry.render_eq]
      simp
    generalize hrestText : (((splitOnce ['\n'] contents).map (·.2)).getD []).dropWhile (· = '\n') = rest
      at hrest
    refine ⟨lineOf raw ++ "\n\n".toList ++ entry.render date ++ if rest = [] then [] else '\n' :: rest, ?_, ?_⟩
    · unfold insert
      simp only [hcontents, hmarkers, hfirst, hrestText]
      rw [if_neg (not_not.mpr hheading)]
    · rw [hhead, piecesOf_eq, splitInclusive_unlines_append hlines, hprose, hpieces, List.map_cons,
        List.map_cons]
      by_cases hnil : rest = []
      · have hbelow : below = [] := by
          rw [← hrest, hnil]
          rfl
        rw [if_pos hnil, hbelow]
        change ((fence.cut isHeading none (_ :: ['\n'] :: (_ ++ []))).2).map pieceText = _
        have hempty : fence.cut isHeading none [] = ([], []) := rfl
        rw [cut_inserted hfence hmark hblock hclosed, hempty, List.map_cons, pieceText, List.append_nil,
          hflatten]
        change _ = (trimEnd (entry.render date ++ ['\n']) ++ ['\n']) :: []
        rw [trimEnd_newline]
        rfl
      · have htail : splitInclusive ('\n' :: rest) = ['\n'] :: below := by
          rw [splitInclusive, if_pos rfl, hrest]
        rw [if_neg hnil, htail]
        change ((fence.cut isHeading none (_ :: ['\n'] :: (_ ++ _))).2).map pieceText = _
        rw [cut_inserted hfence hmark hblock hclosed, cut_newline_cons, List.map_cons, pieceText,
          List.flatten_append, hflatten, List.flatten_cons]
        rfl

/-! ## The main result -/

/-- Where no bullet is wrapped in front of a fence, every line of a rendered entry is seen, a written fragment is
loaded, and an inserted entry takes a block of its own. -/
theorem render_closed (date : EntryDate) (htitle : blank entry.title = false) (hline : '\n' ∉ entry.title)
    (hbullets : entry.Fenceless) :
    hasUnterminatedFence (linesOf (entry.render date)) = false ∧
    (structuralLines (entry.render date)).filter (sectionMark.isPrefixOf ·) = [entry.headingLine date] ∧
    (structuralLines (entry.render date)).filterMap ("### ".toList.isPrefixOf? ·) =
      entry.rendered.map (·.1) ∧
    (∀ slug, validSlug slug = true → ∃ f, load (fragmentRow entry date slug) = .ok f ∧
      f.entry.date = date ∧ f.entry.slug = slug) ∧
    ∀ existing : Option Text, ∀ contents, existing.getD (date.month.heading ++ ['\n']) = contents →
      firstConflictMarker contents = none →
      trimmed ((linesOf contents).headD []) = date.month.heading →
      ∃ updated, insert existing entry date = .ok (⟨date.month, date, existing.isNone⟩, updated) ∧
        (piecesOf updated).2.map pieceText =
          (trimEnd (entry.render date ++ '\n' :: prose contents) ++ ['\n']) ::
            (piecesOf contents).2.map pieceText ∧
        (blank (prose contents) = true →
          trimEnd (entry.render date ++ '\n' :: prose contents) = trimEnd (entry.render date)) := by
  have hplain := rendered_plain date htitle hline hbullets
  have hquiet : ∀ line ∈ entry.body, sectionMark.isPrefixOf line = false :=
    fun line hmem => (body_plain hbullets line hmem).2
  have hstructural : structuralLines (entry.render date) = entry.allLines date := by
    rw [Entry.render_eq, structuralLines_unlines hplain]
  refine ⟨?_, ?_, ?_, fun slug hslug => ?_, ?_⟩
  · rw [Entry.render_eq]
    exact closed_unlines hplain
  · have hnone : entry.body.filter (sectionMark.isPrefixOf ·) = [] :=
      List.filter_eq_nil_iff.mpr fun line hmem => by rw [hquiet line hmem]; exact Bool.false_ne_true
    rw [hstructural, Entry.allLines, List.filter_cons_of_pos (heading_starts entry date)]
    exact congrArg (_ :: ·) hnone
  · have hnone : "### ".toList.isPrefixOf? (entry.headingLine date) = none := by
      refine isPrefixOf?_eq_none ?_
      rw [Entry.headingLine, List.append_assoc, List.append_assoc]
      rfl
    rw [hstructural, Entry.allLines, List.filterMap_cons_none hnone]
    exact body_labels hbullets
  · exact ⟨_, load_fragment htitle hline hbullets hslug, rfl, rfl⟩
  · intro existing contents hcontents hmarkers hheading
    obtain ⟨updated, hinsert, hblocks⟩ := insert_blocks hplain hquiet hcontents hmarkers hheading
    refine ⟨updated, hinsert, hblocks, fun hblank => trimEnd_append_blank _ ?_⟩
    rw [blank, List.all_cons, Bool.and_eq_true]
    exact ⟨by decide, hblank⟩

def januaryDay : EntryDate := ⟨januaryMonth, 2, Nat.le_of_ble_eq_true rfl, Nat.le_of_ble_eq_true rfl⟩

/-- The fence of the bullet stands inside its line. -/
def fencedEntry (column : Nat) : Entry :=
  ⟨"A".toList, [List.replicate column 'x' ++ " ``` y".toList], [], [], [], []⟩

/-- The entry is written as a fragment that is loaded, and inserted into a new month. -/
theorem render_closed_bullet :
    let entry := fencedEntry 1
    hasUnterminatedFence (linesOf (entry.render januaryDay)) = false ∧
      (∃ f, load (fragmentRow entry januaryDay "a".toList) = .ok f ∧ f.entry.date = januaryDay ∧
        f.entry.slug = "a".toList) ∧
      ∃ updated, insert none entry januaryDay = .ok (⟨januaryMonth, januaryDay, true⟩, updated) := by
  intro entry
  have hfenceless : entry.Fenceless := by
    unfold Entry.Fenceless NilsCli.Devlog.Fenceless
    decide +kernel
  obtain ⟨hclosed, -, -, hload, hinsert⟩ :=
    render_closed januaryDay (by decide) (by decide) hfenceless
  obtain ⟨updated, hupdated, -⟩ := hinsert none _ rfl
    (by rw [firstConflictMarker_eq]; decide +kernel) (by decide +kernel)
  exact ⟨hclosed, hload "a".toList (by decide), updated, hupdated⟩

/-- A word in front of the fence that fills the line moves it to the start of the next one. -/
theorem fence_wrapped : hasUnterminatedFence (linesOf ((fencedEntry 75).render januaryDay)) = true := by
  decide +kernel

end NilsCli.Devlog
