import NilsCli.Devlog.Regenerate

/-!
# A regenerated index stays as it is

The main result on `renderIndex`: where its sections can be put at the end (`Ends`), a second run changes
nothing (`renderIndex_again`), and everything authored is kept unless the writer takes an authored pending
section for a generated one (`renderIndex_keeps`).
-/

namespace NilsCli.Devlog

open Lib List

variable {text heading line : Text} {raws lines : List Text} {months : List Month}
  {entries : List PendingEntry} {secs : List Section}

/-! ## The rendered lines -/

/-- The lines of the months section. -/
def monthLines (months : List Month) : List Text := (newestFirst months).map monthLine

theorem monthLines_shape (months : List Month) : ∀ l ∈ monthLines months,
    '\n' ∉ l ∧ sectionMark.isPrefixOf l = false ∧ blank l = false ∧ trimEnd l = l ∧
      pendingMarker.isPrefixOf l = false := by
  intro l hl
  obtain ⟨m, -, rfl⟩ := List.mem_map.mp hl
  have hline : monthLine m = '-' :: (" [".toList ++ m.text ++ "](".toList ++ m.text) ++
      ".md)".toList := by
    simp [monthLine]
  have htrim : trimEnd (monthLine m) = monthLine m := by
    rw [hline, trimEnd_append_of_not_blank _ (by decide)]
    rfl
  refine ⟨monthLine_newline m, ?_, ?_, htrim, ?_⟩
  · rw [hline]
    rfl
  · rw [hline, blank_append]
    exact Bool.and_false _
  · rw [hline]
    rfl

theorem trimLineEnd_of_trimEnd (h : trimEnd line = line) : trimLineEnd line = line := by
  conv_lhs => rw [← h]
  rw [trimLineEnd_trimEnd, h]

theorem pendingLines_shape (entries : List PendingEntry) : ∀ l ∈ pendingLines entries,
    '\n' ∉ l ∧ sectionMark.isPrefixOf l = false ∧ trimLineEnd l = l := by
  intro l hl
  refine ⟨(pendingLines_quiet entries l hl).1, (pendingLines_quiet entries l hl).2, ?_⟩
  rw [pendingLines, mem_cons] at hl
  rcases hl with rfl | hl
  · decide
  · split at hl
    · exact absurd hl not_mem_nil
    · rcases List.mem_cons.mp hl with rfl | hl
      · rfl
      · obtain ⟨entry, -, rfl⟩ := List.mem_map.mp hl
        refine trimLineEnd_of_trimEnd ?_
        rw [PendingEntry.line, trimEnd_append_of_not_blank _ (by decide)]
        rfl

theorem marker_mem_pendingLines (entries : List PendingEntry) :
    pendingMarker ∈ trimBlank (pendingLines entries) := by
  have hmem : ∀ rest : List Text, pendingMarker ∈ trimBlank (pendingMarker :: rest) := by
    intro rest
    have hnot : blank pendingMarker = false := by decide
    have hsplit : pendingMarker ∈ (pendingMarker :: rest).rdropWhile blank ++
        (pendingMarker :: rest).rtakeWhile blank := by
      rw [rdropWhile_append_rtakeWhile]
      exact mem_cons_self
    rw [trimBlank, dropWhile_cons_of_neg (by simp [hnot])]
    rcases List.mem_append.mp hsplit with h | h
    · exact h
    · rw [mem_rtakeWhile_imp h] at hnot
      exact absurd hnot (by decide)
  exact hmem _

/-- A heading of the outline is a line of the text. -/
theorem outlineOf_heading_iff (hheading : sectionMark.isPrefixOf heading = true) (raws : List Text) :
    (∃ s ∈ (outlineOf raws).2, s.1 = heading) ↔ ∃ raw ∈ raws, trimLineEnd raw = heading := by
  constructor
  · rintro ⟨s, hs, heq⟩
    by_contra hnone
    exact outlineOf_headings (fun raw hraw h => hnone ⟨raw, hraw, h⟩) s hs heq
  · rintro ⟨raw, hraw, heq⟩
    obtain ⟨pre, rest, rfl⟩ := List.append_of_mem hraw
    rw [outlineOf, sectionsOf_append _ (heading_section hheading heq)]
    exact ⟨_, List.mem_map.mpr ⟨(trimLineEnd raw, (sectionsOf rest).1),
      mem_append_right _ mem_cons_self, rfl⟩, heq⟩

theorem setFirst_heading {other : Text} (hne : other ≠ heading) (body : List Text) (secs : List Section) :
    (∃ s ∈ setFirst heading body secs, s.1 = other) ↔ ∃ s ∈ secs, s.1 = other := by
  induction secs with
  | nil => simp [setFirst, hne.symm]
  | cons s secs ih =>
    rw [setFirst]
    split
    next hs => simp only [mem_cons, exists_eq_or_imp, hs, hne.symm, false_or]
    next => simp only [mem_cons, exists_eq_or_imp, ih]

/-! ## Clean ends -/

theorem cleanLast_append {a b : List Text} (hb : ∃ raw ∈ b, blank raw = false) :
    CleanLast (a ++ b) ↔ CleanLast b := by
  constructor
  · intro h init last blanks heq hlast hblanks
    refine h (a ++ init) last blanks ?_ hlast hblanks
    rw [heq, append_assoc]
  · intro h init last blanks heq hlast hblanks
    obtain ⟨c, -, hc⟩ := split_last heq hb hblanks
    exact h c last blanks hc hlast hblanks

theorem monthLines_ne_nil (hne : months ≠ []) : monthLines months ≠ [] := by
  intro h
  have hlen := congrArg List.length (List.map_eq_nil_iff.mp h)
  rw [newestFirst, (perm_sortBy _ months).length_eq] at hlen
  exact hne (eq_nil_of_length_eq_zero hlen)

/-- A text that ends with rendered months is clean. -/
theorem cleanLast_monthLines (hne : months ≠ []) (init : List Text) :
    CleanLast (init ++ bodyLines (monthLines months)) := by
  have hlines := monthLines_ne_nil hne
  obtain ⟨inner, l, heq⟩ : ∃ inner l, monthLines months = inner ++ [l] :=
    ⟨_, _, (dropLast_append_getLast hlines).symm⟩
  obtain ⟨-, -, hl, htrim, -⟩ := monthLines_shape months l (by rw [heq]; simp)
  have hbody : bodyLines (monthLines months) = inner.map (· ++ ['\n']) ++ [l ++ ['\n']] := by
    rw [bodyLines, if_neg hlines, heq]
    simp
  have hlast : blank (l ++ ['\n']) = false := by rw [blank_append, hl, Bool.false_and]
  rw [hbody, ← append_assoc, cleanLast_append ⟨_, mem_singleton_self _, hlast⟩]
  intro init last blanks heq' hlast' hblanks
  have hinit : init = [] := by
    cases init with
    | nil => rfl
    | cons raw init => simp at heq'
  rw [hinit, nil_append, cons_eq_cons] at heq'
  rw [← heq'.1, trimEnd_newline, ← htrim, lineOf_trimEnd, trimEnd_trimEnd]

/-! ## The conditions -/

/-- Whether a heading line stands in the text. -/
def HasHeading (text heading : Text) : Prop := ∃ raw ∈ splitInclusive text, trimLineEnd raw = heading

def MonthsLast (text : Text) : Prop :=
  ∀ raw ∈ ((splitInclusive text).dropWhile fun raw => trimLineEnd raw ≠ monthsHeading).tail,
    sectionMark.isPrefixOf raw = false

structure Ends (text : Text) (months : List Month) (entries : List PendingEntry) : Prop where
  /-- An authored text is not trimmed when a section is put at its end. -/
  clean : ¬ HasHeading text monthsHeading ∨ (writesPending text (renderPending entries) = true ∧
    ¬ HasHeading text pendingHeading ∧ ¬ MonthsLast text) → CleanEnd text
  /-- A pending section does not come to stand right after an empty list of months. -/
  listed : writesPending text (renderPending entries) = true → ¬ HasHeading text pendingHeading →
    MonthsLast text → months ≠ []

/-- The pending section that is replaced, if one is, is a generated or an empty one. -/
def Marked (text : Text) (entries : List PendingEntry) : Prop :=
  writesPending text (renderPending entries) = true →
    ∀ s, (outline text).2.find? (·.1 = pendingHeading) = some s → s.2 = [] ∨ pendingMarker ∈ s.2

/-! ## The months section -/

theorem months_outline (hclean : ¬ HasHeading text monthsHeading → CleanEnd text) :
    outline (replaceMonthsSection text months) =
      ((outline text).1, setFirst monthsHeading (trimBlank (monthLines months)) (outline text).2) :=
  outline_replaceSection monthsHeading rfl rfl (by decide)
    (fun l hl => ⟨(monthLines_shape months l hl).1, (monthLines_shape months l hl).2.1,
      trimLineEnd_of_trimEnd (monthLines_shape months l hl).2.2.2.1⟩)
    fun hnone => hclean fun h => by
      obtain ⟨raw, hraw, heq⟩ := h
      exact hnone raw hraw heq

theorem hasPending_months (hclean : ¬ HasHeading text monthsHeading → CleanEnd text) :
    HasHeading (replaceMonthsSection text months) pendingHeading ↔ HasHeading text pendingHeading := by
  have hne : pendingHeading ≠ monthsHeading := by decide
  have hiff := setFirst_heading hne (trimBlank (monthLines months)) (outline text).2
  rw [HasHeading, HasHeading, ← outlineOf_heading_iff rfl, ← outlineOf_heading_iff rfl]
  change (∃ s ∈ (outline (replaceMonthsSection text months)).2, s.1 = pendingHeading) ↔ _
  rw [months_outline hclean]
  exact hiff

/-- The lines of a text whose months have been written. -/
theorem months_lines (months : List Month) (hclean : ¬ HasHeading text monthsHeading → CleanEnd text) :
    ∃ pre line after, splitInclusive (replaceMonthsSection text months) =
        pre ++ line :: ['\n'] :: (bodyLines (monthLines months) ++ gap after) ∧
      (∀ raw ∈ pre, trimLineEnd raw ≠ monthsHeading) ∧ trimLineEnd line = monthsHeading ∧
      closeLine line = line ∧
      (after = [] ∨ ∃ next more, after = next :: more ∧ sectionMark.isPrefixOf next = true) ∧
      (after = [] → MonthsLast text) ∧
      (after ≠ [] → ¬ MonthsLast text ∧ (CleanEnd text → CleanLast after)) ∧
      ∀ raw ∈ pre ++ after, blank raw = false → ∃ raw' ∈ splitInclusive text, lineOf raw = lineOf raw' := by
  have hnewlines : ∀ l ∈ monthLines months, '\n' ∉ l := fun l hl => (monthLines_shape months l hl).1
  by_cases hhas : HasHeading text monthsHeading
  · rcases heading_cases monthsHeading (splitInclusive text) with hnone | ⟨pre, line, rest, hsplit, hpre, hline⟩
    · obtain ⟨raw, hraw, heq⟩ := hhas
      exact absurd heq (hnone raw hraw)
    · have hwhole : splitInclusive text = (pre ++ line :: rest.takeWhile fun raw =>
          !sectionMark.isPrefixOf raw) ++ rest.dropWhile fun raw => !sectionMark.isPrefixOf raw := by
        rw [hsplit, append_assoc, cons_append, takeWhile_append_dropWhile]
      have htail : ((splitInclusive text).dropWhile fun raw => trimLineEnd raw ≠ monthsHeading).tail =
          rest := by
        rw [hsplit, dropWhile_append_of_pos fun raw hraw => decide_eq_true (hpre raw hraw),
          dropWhile_cons_of_neg (by simp [hline])]
        rfl
      refine ⟨pre, closeLine line, _, replaceSection_found hsplit hpre hline hnewlines, hpre,
        by rw [trimLineEnd_closeLine, hline], closeLine_closeLine line, after_starts rest, ?_, ?_, ?_⟩
      · intro hnil raw hraw
        rw [htail] at hraw
        simpa using List.dropWhile_eq_nil_iff.mp hnil raw hraw
      · intro hne
        constructor
        · intro hlast
          refine hne (List.dropWhile_eq_nil_iff.mpr fun raw hraw => ?_)
          rw [hlast raw (by rw [htail]; exact hraw)]
          rfl
        · intro hcleanEnd
          rcases after_starts rest with hnil | ⟨next, more, heq, hnext⟩
          · exact absurd hnil hne
          · rw [CleanEnd, hwhole, heq] at hcleanEnd
            rw [heq]
            exact (cleanLast_append ⟨next, mem_cons_self, not_blank_of_section hnext⟩).mp hcleanEnd
      · intro raw hraw _
        refine ⟨raw, ?_, rfl⟩
        rw [hwhole]
        rcases List.mem_append.mp hraw with hraw | hraw
        · exact mem_append_left _ (mem_append_left _ hraw)
        · exact mem_append_right _ hraw
  · have hnone : ∀ raw ∈ splitInclusive text, trimLineEnd raw ≠ monthsHeading :=
      fun raw hraw heq => hhas ⟨raw, hraw, heq⟩
    have hkept := (outline_trimEnd (hclean hhas)).2
    refine ⟨splitInclusive (trimEnd text ++ ['\n']) ++ [['\n']], monthsHeading ++ ['\n'], [], ?_, ?_, ?_, ?_,
      .inl rfl, fun _ => ?_, fun h => absurd rfl h, ?_⟩
    · have hmissing := replaceSection_missing hnone (by decide) hnewlines
      rw [gap, if_pos rfl, append_nil, append_assoc]
      exact hmissing
    · intro raw hraw heq
      have hmark := not_blank_of_section (heading_section rfl heq)
      rcases List.mem_append.mp hraw with hraw | hraw
      · obtain ⟨raw', hraw', htrim, -⟩ := hkept raw hraw hmark
        exact hnone raw' hraw' (htrim.symm.trans heq)
      · rw [List.mem_singleton.mp hraw] at hmark
        exact absurd hmark (by decide)
    · decide
    · decide
    · have hnil : (splitInclusive text).dropWhile (fun raw => trimLineEnd raw ≠ monthsHeading) = [] :=
        List.dropWhile_eq_nil_iff.mpr fun raw hraw => decide_eq_true (hnone raw hraw)
      rw [MonthsLast, hnil]
      exact fun raw h => absurd h not_mem_nil
    · intro raw hraw hne
      rw [append_nil] at hraw
      rcases List.mem_append.mp hraw with hraw | hraw
      · obtain ⟨raw', hraw', -, hlineOf⟩ := hkept raw hraw hne
        exact ⟨raw', hraw', hlineOf⟩
      · rw [List.mem_singleton.mp hraw] at hne
        exact absurd hne (by decide)

/-! ## The main result -/

theorem writesPending_nil (text : Text) :
    writesPending text [] = true ↔ ∃ raw ∈ splitInclusive text, lineOf raw = pendingMarker := by
  rw [writesPending, decide_eq_true_iff, any_eq_true, linesOf]
  constructor
  · rintro (h | ⟨line, hline, heq⟩)
    · exact absurd rfl h
    · obtain ⟨raw, hraw, rfl⟩ := List.mem_map.mp hline
      exact ⟨raw, hraw, of_decide_eq_true heq⟩
  · rintro ⟨raw, hraw, heq⟩
    exact .inr ⟨lineOf raw, mem_map_of_mem hraw, decide_eq_true heq⟩

theorem mem_replaceSection (hheading : '\n' ∉ heading) (hlines : ∀ l ∈ lines, '\n' ∉ l)
    (h : line ∈ bodyLines lines) :
    line ∈ splitInclusive (replaceSection text heading (joinLines lines)) := by
  rcases heading_cases heading (splitInclusive text) with hnone | ⟨pre, hline, rest, hsplit, hpre, heq⟩
  · rw [replaceSection_missing hnone hheading hlines]
    simp [h]
  · rw [replaceSection_found hsplit hpre heq hlines]
    simp [h]

/-- The lines of the months carry no marker. -/
theorem lineOf_monthLines_ne (h : line ∈ bodyLines (monthLines months)) : lineOf line ≠ pendingMarker := by
  intro heq
  obtain ⟨tail, -, htail⟩ := lineOf_lineEnd line
  rw [heq] at htail
  unfold bodyLines at h
  split at h
  · rw [List.mem_singleton.mp h] at heq
    exact absurd heq (by decide)
  · obtain ⟨l, hl, rfl⟩ := List.mem_map.mp h
    obtain ⟨-, -, -, -, hmarker⟩ := monthLines_shape months l hl
    have hsame : pendingMarker.isPrefixOf (l ++ ['\n']) = pendingMarker.isPrefixOf l :=
      isPrefixOf_append_newline (by decide)
    rw [← hsame, htail] at hmarker
    have hstarts : pendingMarker.isPrefixOf (pendingMarker ++ tail) = true :=
      List.isPrefixOf_iff_prefix.mpr (prefix_append _ _)
    rw [hstarts] at hmarker
    exact absurd hmarker (by decide)

theorem writesPending_renderIndex (months : List Month) (entries : List PendingEntry)
    (hclean : ¬ HasHeading text monthsHeading → CleanEnd text) :
    writesPending (renderIndex text months (renderPending entries)) (renderPending entries) =
      writesPending text (renderPending entries) := by
  by_cases hpending : renderPending entries = []
  · have hsame : writesPending (renderIndex text months []) [] = true ↔ writesPending text [] = true := by
      constructor
      · intro hout
        by_contra hwrites
        have hrender : renderIndex text months [] = replaceMonthsSection text months := by
          rw [renderIndex, if_neg hwrites]
        rw [hrender, writesPending_nil] at hout
        obtain ⟨raw, hraw, heq⟩ := hout
        obtain ⟨pre, line, after, hsplit, -, hline, -, -, -, -, hfrom⟩ := months_lines months hclean
        have hold : raw ∈ pre ++ after → False := by
          intro hmem
          have hne : blank raw = false := by
            by_contra hblank
            obtain ⟨tail, -, htail⟩ := lineOf_lineEnd raw
            rw [htail, heq, blank_append] at hblank
            exact hblank rfl
          obtain ⟨raw', hraw', heq'⟩ := hfrom raw hmem hne
          exact hwrites ((writesPending_nil text).mpr ⟨raw', hraw', heq'.symm.trans heq⟩)
        have hgap : raw ∈ gap after → raw ∈ after ∨ raw = ['\n'] := by
          unfold gap
          split
          · exact fun h => absurd h not_mem_nil
          · exact fun h => (List.mem_cons.mp h).symm
        rw [hsplit] at hraw
        simp only [mem_append, mem_cons] at hraw
        rcases hraw with hraw | rfl | rfl | hraw | hraw
        · exact hold (mem_append_left _ hraw)
        · obtain ⟨tail, htail, htext⟩ := lineOf_lineEnd raw
          rw [htext, heq, trimLineEnd_append_lineEnd htail] at hline
          exact absurd hline (by decide)
        · exact absurd heq (by decide)
        · exact lineOf_monthLines_ne hraw heq
        · rcases hgap hraw with hraw | rfl
          · exact hold (mem_append_right _ hraw)
          · exact absurd heq (by decide)
      · intro hwrites
        have hrender : renderIndex text months [] =
            replaceSection (replaceMonthsSection text months) pendingHeading
              (joinLines (pendingLines entries)) := by
          rw [renderIndex, if_pos hwrites, ← hpending, pendingBody_eq]
        rw [hrender, writesPending_nil]
        have hmem : pendingMarker ++ ['\n'] ∈ bodyLines (pendingLines entries) := by
          have hne : pendingLines entries ≠ [] := cons_ne_nil _ _
          rw [bodyLines, if_neg hne]
          exact mem_map_of_mem mem_cons_self
        exact ⟨_, mem_replaceSection (by decide) (fun l hl => (pendingLines_quiet entries l hl).1) hmem,
          by decide⟩
    rw [hpending, Bool.eq_iff_iff, hsame]
  · rw [writesPending, writesPending, decide_eq_decide]
    exact iff_of_true (.inl hpending) (.inl hpending)

theorem pending_end (h : Ends text months entries)
    (hwrites : writesPending text (renderPending entries) = true)
    (hno : ¬ HasHeading (replaceMonthsSection text months) pendingHeading) :
    CleanEnd (replaceMonthsSection text months) ∧ (MonthsLast text → months ≠ []) := by
  have hclean : ¬ HasHeading text monthsHeading → CleanEnd text := fun hhas => h.clean (.inl hhas)
  obtain ⟨pre, line, after, hsplit, -, -, -, hafter, hlast, hmore, -⟩ := months_lines months hclean
  rw [hasPending_months hclean] at hno
  refine ⟨?_, h.listed hwrites hno⟩
  rw [CleanEnd, hsplit]
  by_cases hnil : after = []
  · have hend := cleanLast_monthLines (h.listed hwrites hno (hlast hnil)) (pre ++ [line, ['\n']])
    rw [hnil, gap, if_pos rfl, append_nil]
    rwa [append_assoc] at hend
  · obtain ⟨hnot, hcleanAfter⟩ := hmore hnil
    rcases hafter with hnil' | ⟨next, more, rfl, hnext⟩
    · exact absurd hnil' hnil
    · have hparts : pre ++ line :: ['\n'] :: (bodyLines (monthLines months) ++ gap (next :: more)) =
          (pre ++ line :: ['\n'] :: (bodyLines (monthLines months) ++ [['\n']])) ++ next :: more := by
        rw [gap, if_neg (cons_ne_nil _ _)]
        simp
      rw [hparts, cleanLast_append ⟨next, mem_cons_self, not_blank_of_section hnext⟩]
      exact hcleanAfter (h.clean (.inr ⟨hwrites, hno, hnot⟩))

theorem renderIndex_again (h : Ends text months entries) :
    renderIndex (renderIndex text months (renderPending entries)) months (renderPending entries) =
      renderIndex text months (renderPending entries) := by
  have hclean : ¬ HasHeading text monthsHeading → CleanEnd text := fun hhas => h.clean (.inl hhas)
  have hmonths : ∀ l ∈ monthLines months, '\n' ∉ l ∧ sectionMark.isPrefixOf l = false :=
    fun l hl => ⟨(monthLines_shape months l hl).1, (monthLines_shape months l hl).2.1⟩
  obtain ⟨pre, line, after, hsplit, hpre, hline, hclosed, hafter, hlast, -, -⟩ :=
    months_lines months hclean
  have hstable := writesPending_renderIndex months entries hclean
  by_cases hwrites : writesPending text (renderPending entries) = true
  · have hmissing : (∀ raw ∈ splitInclusive (replaceMonthsSection text months),
        trimLineEnd raw ≠ pendingHeading) → ¬ HasHeading (replaceMonthsSection text months) pendingHeading := by
      rintro hnone ⟨raw, hraw, heq⟩
      exact hnone raw hraw heq
    have hsettledMonths := settled_pending hsplit hpre hline hclosed hafter
      (fun l hl => ⟨(monthLines_shape months l hl).2.1, (monthLines_shape months l hl).2.2.1,
        (monthLines_shape months l hl).2.2.2.1⟩)
      (pendingLines_quiet entries) fun hnone =>
        ⟨(pending_end h hwrites (hmissing hnone)).1, fun hnil =>
          monthLines_ne_nil ((pending_end h hwrites (hmissing hnone)).2 (hlast hnil))⟩
    have hsettledPending := settled_replaceSection pendingHeading (by decide) (by decide)
      (by decide) (fun l hl => (pendingLines_quiet entries l hl).1)
      fun hnone => (pending_end h hwrites (hmissing hnone)).1
    have hrender : renderIndex text months (renderPending entries) =
        replaceSection (replaceMonthsSection text months) pendingHeading (joinLines (pendingLines entries)) := by
      rw [renderIndex, if_pos hwrites, pendingBody_eq]
    rw [renderIndex, hstable, if_pos hwrites, pendingBody_eq, hrender, replaceMonthsSection]
    exact (congrArg (replaceSection · pendingHeading _)
      (replaceSection_settled hsettledMonths hmonths)).trans
      (replaceSection_settled hsettledPending (pendingLines_quiet entries))
  · have hrender : renderIndex text months (renderPending entries) = replaceMonthsSection text months := by
      rw [renderIndex, if_neg hwrites]
    rw [renderIndex, hstable, if_neg hwrites, hrender, replaceMonthsSection]
    exact replaceSection_settled ⟨pre, line, after, hsplit, hpre, hline, hclosed, hafter⟩ hmonths

theorem outline_renderIndex (h : Ends text months entries) :
    outline (renderIndex text months (renderPending entries)) = ((outline text).1,
      if writesPending text (renderPending entries) then
        setFirst pendingHeading (trimBlank (pendingLines entries))
          (setFirst monthsHeading (trimBlank (monthLines months)) (outline text).2)
      else setFirst monthsHeading (trimBlank (monthLines months)) (outline text).2) := by
  have hclean : ¬ HasHeading text monthsHeading → CleanEnd text := fun hhas => h.clean (.inl hhas)
  by_cases hwrites : writesPending text (renderPending entries) = true
  · have hrender : renderIndex text months (renderPending entries) =
        replaceSection (replaceMonthsSection text months) pendingHeading (joinLines (pendingLines entries)) := by
      rw [renderIndex, if_pos hwrites, pendingBody_eq]
    have houtline := outline_replaceSection pendingHeading rfl (by decide) (by decide)
      (pendingLines_shape entries) fun hnone => (pending_end h hwrites fun hhas => by
        obtain ⟨raw, hraw, heq⟩ := hhas
        exact hnone raw hraw heq).1
    rw [hrender, houtline, months_outline hclean, if_pos hwrites]
  · rw [renderIndex, if_neg hwrites, months_outline hclean, if_neg hwrites]

/-- Where sections can be put at the end, a second run changes nothing, and what is not generated is kept
if and only if the pending section that is replaced was a generated or an empty one. -/
theorem renderIndex_keeps (h : Ends text months entries) :
    (renderIndex (renderIndex text months (renderPending entries)) months (renderPending entries) =
        renderIndex text months (renderPending entries) ∧
      ∃ extra : List Section, extra.Sublist [(monthsHeading, []), (pendingHeading, [])] ∧
        kept (outline (renderIndex text months (renderPending entries))) =
          ((kept (outline text)).1, (kept (outline text)).2 ++ extra)) ↔ Marked text entries := by
  have hadded : ∀ heading secs, (added heading secs).Sublist [(heading, [])] := by
    intro heading secs
    unfold added
    split
    · exact List.nil_sublist _
    · exact List.Sublist.refl _
  rw [and_iff_right (renderIndex_again h), outline_renderIndex h]
  by_cases hwrites : writesPending text (renderPending entries) = true
  · rw [if_pos hwrites]
    constructor
    · rintro ⟨extra, -, hkept⟩ - s hs
      have hsections := congrArg Prod.snd hkept
      rw [kept, clearMonths_setFirst_pending, clearMonths_setFirst] at hsections
      rw [← find_pending_clearMonths] at hs
      exact marked_of_clearPending (marker_mem_pendingLines entries) hsections hs
    · intro hmarked
      exact ⟨_, (hadded monthsHeading _).append (hadded pendingHeading _),
        kept_setFirst_pending (marker_mem_pendingLines entries) (hmarked hwrites) _⟩
  · rw [if_neg hwrites]
    refine iff_of_true ⟨_, (hadded monthsHeading _).trans ?_, kept_setFirst _ _⟩ fun h => absurd h hwrites
    exact List.Sublist.cons_cons _ (List.nil_sublist _)

def authoredPending : Text := "## Months\n\n## Pending\n\nnotes\n".toList

def pendingFragment : PendingEntry :=
  ⟨⟨januaryMonth, 2, by decide, by decide⟩, "a".toList, by decide⟩

/-- An authored pending section is replaced when there is a pending entry. -/
theorem renderIndex_takes_authored :
    kept (outline authoredPending) =
        ([], [(monthsHeading, []), (pendingHeading, ["notes".toList])]) ∧
      kept (outline (renderIndex authoredPending [januaryMonth] (renderPending [pendingFragment]))) =
        ([], [(monthsHeading, []), (pendingHeading, [])]) := by
  constructor <;> decide +kernel

def generatedPending : Text :=
  "# Index\n\n## Pending\n\n<!-- devlog-pending-index -->\n- old\n".toList

/-- A generated pending section is replaced, and the months are put at the end. -/
theorem renderIndex_keeps_generated :
    let again := fun text => renderIndex text [januaryMonth] (renderPending [pendingFragment])
    again (again generatedPending) = again generatedPending ∧
      kept (outline (again generatedPending)) = ((kept (outline generatedPending)).1,
        (kept (outline generatedPending)).2 ++ [(monthsHeading, [])]) := by
  intro again
  have hpending : HasHeading generatedPending pendingHeading := by
    refine ⟨pendingHeading ++ ['\n'], ?_, ?_⟩ <;> decide +kernel
  have hclean : CleanEnd generatedPending := by
    intro init last blanks heq _ _
    have hall : ((splitInclusive generatedPending).all fun raw => trimEnd raw = lineOf raw) = true := by
      decide +kernel
    rw [List.all_eq_true, heq] at hall
    exact of_decide_eq_true (hall last (by simp))
  have hends : Ends generatedPending [januaryMonth] [pendingFragment] :=
    ⟨fun _ => hclean, fun _ hno => absurd hpending hno⟩
  have hmarked : Marked generatedPending [pendingFragment] := by
    intro _ s hs
    have hall : ((outline generatedPending).2.all fun s =>
        s.1 = pendingHeading → pendingMarker ∈ s.2) = true := by decide +kernel
    rw [List.all_eq_true] at hall
    have hname : s.1 = pendingHeading := by simpa using List.find?_some hs
    exact .inr (of_decide_eq_true (hall s (List.mem_of_find?_eq_some hs)) hname)
  exact ⟨((renderIndex_keeps hends).mpr hmarked).1, by decide +kernel⟩

end NilsCli.Devlog
