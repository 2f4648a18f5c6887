import NilsCli.Devlog.Sections

/-!
# The months that the index lists

What a check reads of a regenerated index. Only the lines that start a section or stand in the months
section count (`listedFrom_append`, `listedFrom_unnamed`), so a generated pending section changes nothing
(`listedMonths_pending`), and a months section is read back as it was rendered (`listedFrom_bodyLines`).
-/

namespace NilsCli.Devlog

open Lib

variable {text line raw : Text} {raws pre rest body : List Text} {inSection : Bool}

/-! ## Lines -/

def namesMonths (line : Text) : Bool := sectionMark.isPrefixOf line && trimmed line = monthsHeading

def inMonths (inSection : Bool) (lines : List Text) : Bool :=
  lines.foldl (fun inSection line =>
    if sectionMark.isPrefixOf line then trimmed line = monthsHeading else inSection) inSection

theorem listedMonth_lineOf (raw : Text) : listedMonth (lineOf raw) = listedMonth raw := by
  rw [listedMonth, trimmed_lineOf, listedMonth]

theorem listedFrom_map_lineOf (inSection : Bool) (raws : List Text) :
    listedFrom inSection (raws.map lineOf) = listedFrom inSection raws := by
  induction raws generalizing inSection with
  | nil => rfl
  | cons raw raws ih =>
    simp only [List.map_cons, listedFrom, sectionMark_lineOf, trimmed_lineOf, listedMonth_lineOf, ih]

theorem listedMonths_eq (text : Text) : listedMonths text = listedFrom false (splitInclusive text) :=
  listedFrom_map_lineOf false _

theorem listedFrom_append (inSection : Bool) (pre rest : List Text) :
    listedFrom inSection (pre ++ rest) =
      listedFrom inSection pre ++ listedFrom (inMonths inSection pre) rest := by
  induction pre generalizing inSection with
  | nil => rfl
  | cons line pre ih =>
    simp only [List.cons_append, listedFrom, inMonths, List.foldl_cons, ih]
    split
    · rfl
    · split
      · rw [List.append_assoc]
      · rfl

theorem listedFrom_section (h : sectionMark.isPrefixOf line = true) :
    listedFrom inSection (line :: rest) = listedFrom (namesMonths line) rest := by
  rw [listedFrom, if_pos h, namesMonths, h, Bool.true_and]

theorem listedFrom_unnamed (h : ∀ raw ∈ raws, namesMonths raw = false) :
    listedFrom false raws = [] ∧ inMonths false raws = false := by
  induction raws with
  | nil => exact ⟨rfl, rfl⟩
  | cons raw raws ih =>
    obtain ⟨hraw, hraws⟩ := List.forall_mem_cons.mp h
    obtain ⟨hlisted, hin⟩ := ih hraws
    by_cases hmark : sectionMark.isPrefixOf raw = true
    · rw [namesMonths, hmark, Bool.true_and] at hraw
      rw [listedFrom, if_pos hmark, hraw, inMonths, List.foldl_cons, if_pos hmark, hraw]
      exact ⟨hlisted, hin⟩
    · rw [listedFrom, if_neg hmark, inMonths, List.foldl_cons, if_neg hmark]
      exact ⟨hlisted, hin⟩

theorem listedFrom_quiet (h : ∀ raw ∈ body, sectionMark.isPrefixOf raw = false) (rest : List Text) :
    listedFrom false (body ++ rest) = listedFrom false rest := by
  have hnamed : ∀ raw ∈ body, namesMonths raw = false := by
    intro raw hraw
    rw [namesMonths, h raw hraw, Bool.false_and]
  rw [listedFrom_append, (listedFrom_unnamed hnamed).1, (listedFrom_unnamed hnamed).2, List.nil_append]

theorem listedFrom_after (inSection : Bool) (rest : List Text) :
    listedFrom inSection (gap (rest.dropWhile fun raw => !sectionMark.isPrefixOf raw)) =
      listedFrom false (rest.dropWhile fun raw => !sectionMark.isPrefixOf raw) := by
  rcases after_starts rest with hnil | ⟨next, more, heq, hnext⟩
  · rw [hnil]
    rfl
  · have hblank : ∀ b, listedFrom b (['\n'] :: next :: more) = listedFrom b (next :: more) := by
      intro b
      cases b <;> rfl
    rw [heq, gap, if_neg (List.cons_ne_nil _ _), hblank, listedFrom_section hnext,
      listedFrom_section hnext]

theorem namesMonths_of_heading (h : trimLineEnd line = monthsHeading) : namesMonths line = true := by
  have hmark : sectionMark.isPrefixOf line = true := by
    rw [← sectionMark_trimLineEnd, h]
    rfl
  rw [namesMonths, hmark, ← trimmed_trimLineEnd, h]
  rfl

theorem pending_names (h : trimLineEnd line = pendingHeading) :
    sectionMark.isPrefixOf line = true ∧ namesMonths line = false := by
  have hmark : sectionMark.isPrefixOf line = true := by
    rw [← sectionMark_trimLineEnd, h]
    rfl
  rw [namesMonths, hmark, ← trimmed_trimLineEnd, h]
  exact ⟨rfl, rfl⟩

@[simp] theorem namesMonths_closeLine (raw : Text) : namesMonths (closeLine raw) = namesMonths raw := by
  rw [namesMonths, ← sectionMark_trimLineEnd, ← trimmed_trimLineEnd, trimLineEnd_closeLine,
    sectionMark_trimLineEnd, trimmed_trimLineEnd, namesMonths]

@[simp] theorem sectionMark_closeLine (raw : Text) :
    sectionMark.isPrefixOf (closeLine raw) = sectionMark.isPrefixOf raw := by
  rw [← sectionMark_trimLineEnd, trimLineEnd_closeLine, sectionMark_trimLineEnd]

/-! ## The end of a trimmed text -/

theorem listedMonth_blank (h : blank line = true) : listedMonth line = none := by
  have hnil : trimmed line = [] := by
    rw [trimmed, List.dropWhile_eq_nil_iff.mpr (List.all_eq_true.mp h)]
    rfl
  rw [listedMonth, hnil]
  rfl

theorem listedFrom_blank (h : ∀ raw ∈ raws, blank raw = true) (inSection : Bool) :
    listedFrom inSection raws = [] := by
  induction raws with
  | nil => rfl
  | cons raw raws ih =>
    obtain ⟨hraw, hraws⟩ := List.forall_mem_cons.mp h
    rw [listedFrom, sectionMark_of_blank hraw, listedMonth_blank hraw, ih hraws]
    cases inSection <;> rfl

theorem listedMonth_section (h : sectionMark.isPrefixOf line = true) : listedMonth line = none := by
  obtain ⟨rest, rfl⟩ := List.isPrefixOf_iff_prefix.mp h
  have hhead : trimmed (sectionMark ++ rest) = '#' :: '#' :: trimEnd (' ' :: rest) := by
    have hdrop : (sectionMark ++ rest).dropWhile isWhitespace = ['#'] ++ ('#' :: ' ' :: rest) := rfl
    by_cases hblank : blank (' ' :: rest) = true
    · rw [trimmed, hdrop, trimEnd_eq_nil_iff.mpr hblank]
      have happend := trimEnd_append_blank ['#', '#'] hblank
      exact happend
    · have happend := trimEnd_append_of_not_blank ['#', '#'] (by simpa using hblank)
      rw [trimmed, hdrop]
      exact happend
  rw [listedMonth, hhead]
  rfl

theorem listedFrom_trimEnd (text : Text) :
    listedFrom false (splitInclusive (trimEnd text ++ ['\n'])) = listedFrom false (splitInclusive text) := by
  rcases splitInclusive_trimEnd text with ⟨hblank, hsplit⟩ | ⟨init, last, blanks, heq, -, hblanks, hsplit⟩
  · rw [hsplit, listedFrom_blank hblank]
    rfl
  · rw [hsplit, heq, listedFrom_append, listedFrom_append]
    congr 1
    generalize inMonths false init = inSection
    have hmonth : listedMonth (trimEnd last ++ ['\n']) = listedMonth last := by
      rw [listedMonth, trimmed_append_blank _ (by decide), trimmed_trimEnd, listedMonth]
    have hmark : sectionMark.isPrefixOf (trimEnd last ++ ['\n']) = true →
        sectionMark.isPrefixOf last = true := by
      rw [isPrefixOf_append_newline (by decide), List.isPrefixOf_iff_prefix,
        List.isPrefixOf_iff_prefix]
      obtain ⟨tail, -, htail⟩ := trimEnd_append last
      intro h
      rw [htail]
      exact h.trans (List.prefix_append _ _)
    by_cases hlast : sectionMark.isPrefixOf last = true
    · have hrest : listedFrom inSection (last :: blanks) = [] := by
        rw [listedFrom, if_pos hlast, listedFrom_blank hblanks]
      rw [hrest, listedFrom, hmonth, listedMonth_section hlast]
      split
      · rfl
      · split <;> rfl
    · have hrest : listedFrom inSection (last :: blanks) =
          if inSection then (listedMonth last).toList ++ [] else [] := by
        rw [listedFrom, if_neg hlast, listedFrom_blank hblanks]
      rw [hrest, listedFrom, if_neg (fun h => hlast (hmark h)), hmonth]
      rfl

/-! ## Rendered lists -/

theorem trimmed_listLine {label rest : Text} (hrest : trimEnd rest = rest) (hne : blank rest = false) :
    trimmed ('-' :: label ++ rest ++ ['\n']) = '-' :: label ++ rest := by
  rw [trimmed_append_blank _ (by decide), trimmed]
  have hdrop : ('-' :: label ++ rest).dropWhile isWhitespace = ('-' :: label) ++ rest := rfl
  rw [hdrop, trimEnd_append_of_not_blank _ hne, hrest]

theorem listedMonth_monthLine (m : Month) : listedMonth (monthLine m ++ ['\n']) = some m := by
  have htrim : trimmed (monthLine m ++ ['\n']) =
      "- [".toList ++ (m.text ++ ']' :: ("(".toList ++ m.text ++ ".md)".toList)) := by
    have hline : monthLine m = '-' :: (" [".toList ++ m.text ++ "](".toList ++ m.text) ++
        ".md)".toList := by
      simp [monthLine]
    rw [hline, trimmed_listLine (by decide) (by decide)]
    simp
  have hbracket : ']' ∉ m.text := by
    intro hmem
    rcases Month.text_chars hmem with h | h <;> exact absurd h (by decide)
  have hstrip : ∀ rest, "- [".toList.isPrefixOf? ("- [".toList ++ rest) = some rest := fun rest => rfl
  rw [listedMonth, htrim, hstrip, Option.bind_some, splitOnce_cons_self hbracket, Option.bind_some,
    parseMonth_text]

theorem sectionMark_listLine (label : Text) : sectionMark.isPrefixOf ('-' :: label) = false := rfl

theorem listedFrom_bodyLines (months : List Month) (rest : List Text) :
    listedFrom true (bodyLines (months.map monthLine) ++ rest) = months ++ listedFrom true rest := by
  cases months with
  | nil => rfl
  | cons m months =>
    rw [bodyLines, if_neg (by simp)]
    induction m :: months with
    | nil => rfl
    | cons m months ih =>
      have hmark : ¬ sectionMark.isPrefixOf (monthLine m ++ ['\n']) = true := by
        have hline : monthLine m ++ ['\n'] = '-' :: (" [".toList ++ m.text ++ "](".toList ++ m.text ++
            ".md)".toList ++ ['\n']) := by
          simp [monthLine]
        rw [hline, sectionMark_listLine]
        exact Bool.false_ne_true
      rw [List.map_cons, List.map_cons, List.cons_append, listedFrom, if_neg hmark, if_pos rfl,
        listedMonth_monthLine, ih]
      rfl

end NilsCli.Devlog

/-!
## The index and its check

A sync regenerates the index, and a check compares the months it lists with the month files. The writer
goes by the exact heading line and the reader by the trimmed one, so they agree exactly where the writer
finds the section or the reader has found no month before (`sync_lists`).
-/

namespace NilsCli.Devlog

open Lib

variable {text updated heading : Text} {raws pre rest lines : List Text} {months listed : List Month}
  {entries : List PendingEntry}

/-! ## The check -/

/-- A problem of the index. -/
inductive IndexProblem where
  | missingIndex
  | conflictMarkers (line : Nat)
  | missingMonth (month : Month)
  | staleMonth (month : Month)

def IndexProblem.kind : IndexProblem → String
  | .missingIndex => "missing-index"
  | .conflictMarkers _ => "conflict-markers"
  | .missingMonth _ => "index-missing-month"
  | .staleMonth _ => "index-stale-month"

def checkIndex (contents : Option Text) (months : List Month) : List IndexProblem :=
  match contents with
  | none => [.missingIndex]
  | some contents =>
    match firstConflictMarker contents with
    | some line => [.conflictMarkers line]
    | none =>
      let listed := listedMonths contents
      (months.filter (· ∉ listed)).map .missingMonth ++ (listed.filter (· ∉ months)).map .staleMonth

def sync (contents : Text) (months : List Month) (entries : List PendingEntry) : Except Nat Text :=
  match firstConflictMarker contents with
  | some line => .error line
  | none => .ok (renderIndex contents months (renderPending entries))

/-- The months, newest first, each once. -/
def ListsExactly (listed months : List Month) : Prop :=
  listed.Pairwise (· > ·) ∧ ∀ m, m ∈ listed ↔ m ∈ months

/-- An exact list leaves nothing to report of the months. -/
theorem checkIndex_exact (h : ListsExactly (listedMonths text) months) (m : Month) :
    .missingMonth m ∉ checkIndex (some text) months ∧ .staleMonth m ∉ checkIndex (some text) months := by
  unfold checkIndex
  simp only
  split
  · simp
  · have hmissing : months.filter (· ∉ listedMonths text) = [] := by
      rw [List.filter_eq_nil_iff]
      intro m hm
      simpa using (h.2 m).mpr hm
    have hstale : (listedMonths text).filter (· ∉ months) = [] := by
      rw [List.filter_eq_nil_iff]
      intro m hm
      simpa using (h.2 m).mp hm
    rw [hmissing, hstale]
    exact ⟨List.not_mem_nil, List.not_mem_nil⟩

theorem newestFirst_exact (h : months.Nodup) : ListsExactly (newestFirst months) months := by
  refine ⟨?_, fun m => mem_sortBy⟩
  have hsorted : (newestFirst months).Pairwise fun a b => decide (b ≤ a) = true := by
    refine pairwise_sortBy (fun a b => ?_) (fun {a b c} hab hbc => ?_) months
    · rcases le_total a b with hle | hle
      · simp [hle]
      · simp [hle]
    · exact decide_eq_true ((of_decide_eq_true hbc).trans (of_decide_eq_true hab))
  have hnodup : (newestFirst months).Nodup := (perm_sortBy _ months).nodup_iff.mpr h
  refine (hsorted.and hnodup).imp fun {a b} hab => ?_
  exact lt_of_le_of_ne (of_decide_eq_true hab.1) (Ne.symm hab.2)

/-! ## The pending section -/

theorem PendingEntry.newline_not_mem (entry : PendingEntry) : '\n' ∉ entry.line := by
  have hidentity : '\n' ∉ entry.identity := by
    rw [PendingEntry.identity, List.mem_append, not_or, List.mem_cons, not_or]
    refine ⟨fun h => ?_, by decide, fun h => ?_⟩
    · rcases EntryDate.text_chars h with h | h <;> exact absurd h (by decide)
    · exact absurd (List.all_eq_true.mp entry.valid.2.2 _ h) (by decide)
  simp only [PendingEntry.line, List.mem_append, not_or]
  exact ⟨⟨⟨⟨by decide, hidentity⟩, by decide⟩, hidentity⟩, by decide⟩

theorem PendingEntry.line_cons (entry : PendingEntry) : ∃ rest, entry.line = '-' :: rest :=
  ⟨" [".toList ++ entry.identity ++ "](pending/".toList ++ entry.identity ++ ".md)".toList, by
    simp [PendingEntry.line]⟩

theorem joinLines_cons (line : Text) (lines : List Text) :
    joinLines (line :: lines) = line ++ lines.flatMap fun next => '\n' :: next := by
  induction lines generalizing line with
  | nil => simp [joinLines, List.intercalate]
  | cons next lines ih =>
    have hstep : joinLines (line :: next :: lines) = line ++ '\n' :: joinLines (next :: lines) := by
      simp [joinLines, List.intercalate]
    rw [hstep, ih next]
    simp

/-- The lines of the pending section. -/
def pendingLines (entries : List PendingEntry) : List Text :=
  let listed := (sortBy PendingEntry.le entries).map PendingEntry.line
  pendingMarker :: if listed = [] then [] else [] :: listed

theorem pendingBody_eq (entries : List PendingEntry) :
    pendingBody (renderPending entries) = joinLines (pendingLines entries) := by
  rw [renderPending, pendingLines, pendingBody]
  cases hsorted : sortBy PendingEntry.le entries with
  | nil => rfl
  | cons entry sorted =>
    obtain ⟨rest, hrest⟩ := entry.line_cons
    rw [List.map_cons, if_neg (List.cons_ne_nil _ _), joinLines_cons, joinLines_cons, List.flatMap_cons,
      List.flatMap_cons, if_neg (by simp [hrest])]
    simp

theorem pendingLines_quiet (entries : List PendingEntry) :
    ∀ line ∈ pendingLines entries, '\n' ∉ line ∧ sectionMark.isPrefixOf line = false := by
  intro line hline
  rw [pendingLines, List.mem_cons] at hline
  rcases hline with rfl | hline
  · exact ⟨by decide, by decide⟩
  · split at hline
    · exact absurd hline List.not_mem_nil
    · rcases List.mem_cons.mp hline with rfl | hline
      · exact ⟨List.not_mem_nil, rfl⟩
      · obtain ⟨entry, -, rfl⟩ := List.mem_map.mp hline
        obtain ⟨rest, hrest⟩ := entry.line_cons
        refine ⟨entry.newline_not_mem, ?_⟩
        rw [hrest, sectionMark_listLine]

theorem sectionMark_newline (h : sectionMark.isPrefixOf text = false) :
    sectionMark.isPrefixOf (text ++ ['\n']) = false := by
  rw [isPrefixOf_append_newline (by decide), h]

theorem bodyLines_quiet (h : ∀ line ∈ lines, sectionMark.isPrefixOf line = false) :
    ∀ raw ∈ bodyLines lines, sectionMark.isPrefixOf raw = false := by
  intro raw hraw
  unfold bodyLines at hraw
  split at hraw
  · rw [List.mem_singleton.mp hraw]
    decide
  · obtain ⟨line, hline, rfl⟩ := List.mem_map.mp hraw
    exact sectionMark_newline (h line hline)

theorem takeWhile_quiet (rest : List Text) :
    ∀ raw ∈ rest.takeWhile fun raw => !sectionMark.isPrefixOf raw, sectionMark.isPrefixOf raw = false := by
  intro raw hraw
  simpa using List.mem_takeWhile_imp hraw

/-- A pending section changes nothing of the months. -/
theorem listedMonths_pending (text : Text) (hlines : ∀ line ∈ lines, '\n' ∉ line)
    (hquiet : ∀ line ∈ lines, sectionMark.isPrefixOf line = false) :
    listedMonths (replaceSection text pendingHeading (joinLines lines)) = listedMonths text := by
  have hbody := bodyLines_quiet hquiet
  rw [listedMonths_eq, listedMonths_eq]
  rcases heading_cases pendingHeading (splitInclusive text) with hnone | ⟨pre, line, rest, hsplit, hpre, hline⟩
  · rw [replaceSection_missing hnone (by decide) hlines, listedFrom_append, listedFrom_trimEnd]
    have hblank : ∀ b rest, listedFrom b (['\n'] :: rest) = listedFrom b rest := by
      intro b rest
      cases b <;> rfl
    have hempty : listedFrom false (bodyLines lines) = [] := by
      have hquiet := listedFrom_quiet hbody []
      rwa [List.append_nil] at hquiet
    have hheading : sectionMark.isPrefixOf (pendingHeading ++ ['\n']) = true := rfl
    have hnames : namesMonths (pendingHeading ++ ['\n']) = false := by decide
    rw [hblank, listedFrom_section hheading, hnames, hblank, hempty, List.append_nil]
  · have hnames := pending_names hline
    have hafter := listedFrom_after false rest
    rw [replaceSection_found hsplit hpre hline hlines, hsplit, listedFrom_append, listedFrom_append,
      listedFrom_section (by rw [sectionMark_closeLine]; exact hnames.1), listedFrom_section hnames.1,
      namesMonths_closeLine, hnames.2]
    congr 1
    have hblank : ∀ raw ∈ [['\n']], sectionMark.isPrefixOf raw = false := by decide
    conv_rhs => rw [← List.takeWhile_append_dropWhile (p := fun raw => !sectionMark.isPrefixOf raw)
      (l := rest)]
    rw [listedFrom_quiet (takeWhile_quiet rest), ← hafter]
    calc listedFrom false ([['\n']] ++ (bodyLines lines ++ _))
      _ = listedFrom false (bodyLines lines ++ _) := listedFrom_quiet hblank _
      _ = _ := listedFrom_quiet hbody _

/-! ## The months section -/

theorem monthLine_newline (m : Month) : '\n' ∉ monthLine m := by
  have htext : '\n' ∉ m.text := by
    intro h
    rcases Month.text_chars h with h | h <;> exact absurd h (by decide)
  simp only [monthLine, List.mem_append, not_or]
  exact ⟨⟨⟨⟨by decide, htext⟩, by decide⟩, htext⟩, by decide⟩

theorem renderMonths_lines (months : List Month) :
    ∀ line ∈ (newestFirst months).map monthLine, '\n' ∉ line := by
  intro line hline
  obtain ⟨m, -, rfl⟩ := List.mem_map.mp hline
  exact monthLine_newline m

theorem listedMonths_found (hone : (splitInclusive text).countP namesMonths ≤ 1)
    (h : ∃ raw ∈ splitInclusive text, trimLineEnd raw = monthsHeading) :
    listedMonths (replaceMonthsSection text months) = newestFirst months := by
  rcases heading_cases monthsHeading (splitInclusive text) with hnone | ⟨pre, line, rest, hsplit, hpre, hline⟩
  · obtain ⟨raw, hraw, heq⟩ := h
    exact absurd heq (hnone raw hraw)
  · have hnames := namesMonths_of_heading hline
    rw [hsplit, List.countP_append, List.countP_cons, if_pos hnames] at hone
    have hpreUnnamed : ∀ raw ∈ pre, namesMonths raw = false := by
      intro raw hraw
      by_contra hraw'
      have hpos := List.countP_pos_iff.mpr ⟨raw, hraw, by simpa using hraw'⟩
      omega
    have hrestUnnamed : ∀ raw ∈ rest, namesMonths raw = false := by
      intro raw hraw
      by_contra hraw'
      have hpos := List.countP_pos_iff.mpr ⟨raw, hraw, by simpa using hraw'⟩
      omega
    have hmark : sectionMark.isPrefixOf (closeLine line) = true := by
      rw [sectionMark_closeLine]
      exact (Bool.and_eq_true _ _ ▸ hnames).1
    have hafter : listedFrom true (gap (rest.dropWhile fun raw => !sectionMark.isPrefixOf raw)) = [] := by
      rw [listedFrom_after]
      refine (listedFrom_unnamed fun raw hraw => hrestUnnamed raw ?_).1
      exact List.dropWhile_sublist _ |>.subset hraw
    rw [listedMonths_eq, replaceMonthsSection, renderMonths,
      replaceSection_found hsplit hpre hline (renderMonths_lines months), listedFrom_append,
      (listedFrom_unnamed hpreUnnamed).1, (listedFrom_unnamed hpreUnnamed).2, List.nil_append,
      listedFrom_section hmark, namesMonths_closeLine, hnames]
    calc listedFrom true (['\n'] :: (bodyLines ((newestFirst months).map monthLine) ++ _))
      _ = listedFrom true (bodyLines ((newestFirst months).map monthLine) ++ _) := rfl
      _ = newestFirst months := by rw [listedFrom_bodyLines, hafter, List.append_nil]

theorem listedMonths_missing (months : List Month)
    (h : ∀ raw ∈ splitInclusive text, trimLineEnd raw ≠ monthsHeading) :
    listedMonths (replaceMonthsSection text months) = listedMonths text ++ newestFirst months := by
  have hblank : ∀ b rest, listedFrom b (['\n'] :: rest) = listedFrom b rest := by
    intro b rest
    cases b <;> rfl
  have hheading : sectionMark.isPrefixOf (monthsHeading ++ ['\n']) = true := rfl
  have hnames : namesMonths (monthsHeading ++ ['\n']) = true := by decide
  have hbody := listedFrom_bodyLines (newestFirst months) []
  rw [List.append_nil] at hbody
  rw [listedMonths_eq, listedMonths_eq, replaceMonthsSection, renderMonths,
    replaceSection_missing h (by decide) (renderMonths_lines months), listedFrom_append,
    listedFrom_trimEnd, hblank, listedFrom_section hheading, hnames, hblank, hbody]
  simp [listedFrom]

theorem listedMonths_renderIndex_eq (text : Text) (months : List Month) (entries : List PendingEntry) :
    listedMonths (renderIndex text months (renderPending entries)) =
      listedMonths (replaceMonthsSection text months) := by
  unfold renderIndex
  simp only
  split
  · rw [pendingBody_eq]
    exact listedMonths_pending _ (fun line h => (pendingLines_quiet entries line h).1)
      fun line h => (pendingLines_quiet entries line h).2
  · rfl

theorem countP_namesMonths (text : Text) :
    (linesOf text).countP namesMonths = (splitInclusive text).countP namesMonths := by
  rw [linesOf, List.countP_map]
  refine List.countP_congr fun raw _ => ?_
  rw [Function.comp_apply, namesMonths, sectionMark_lineOf, trimmed_lineOf, namesMonths]

/-- After a sync of an index that names the months section at most once, exactly the months are listed
and a check reports no missing and no stale month, if and only if the writer finds its heading or nothing
was listed before. -/
theorem sync_lists (hnodup : months.Nodup) (hone : (linesOf text).countP namesMonths ≤ 1)
    (hsync : sync text months entries = .ok updated) :
    (ListsExactly (listedMonths updated) months ∧ ∀ m,
        .missingMonth m ∉ checkIndex (some updated) months ∧
        .staleMonth m ∉ checkIndex (some updated) months) ↔
      (∃ raw ∈ splitInclusive text, trimLineEnd raw = monthsHeading) ∨ listedMonths text = [] := by
  have hupdated : updated = renderIndex text months (renderPending entries) := by
    unfold sync at hsync
    split at hsync
    · cases hsync
    · exact (Except.ok.inj hsync).symm
  have hexact : ListsExactly (listedMonths updated) months →
      ListsExactly (listedMonths updated) months ∧ ∀ m,
        .missingMonth m ∉ checkIndex (some updated) months ∧
        .staleMonth m ∉ checkIndex (some updated) months :=
    fun h => ⟨h, checkIndex_exact h⟩
  rw [countP_namesMonths] at hone
  by_cases hfound : ∃ raw ∈ splitInclusive text, trimLineEnd raw = monthsHeading
  · refine iff_of_true (hexact ?_) (.inl hfound)
    rw [hupdated, listedMonths_renderIndex_eq, listedMonths_found hone hfound]
    exact newestFirst_exact hnodup
  · have hmissing := listedMonths_missing months fun raw hraw heq => hfound ⟨raw, hraw, heq⟩
    rw [← listedMonths_renderIndex_eq _ _ entries, ← hupdated] at hmissing
    constructor
    · rintro ⟨⟨hsorted, hmem⟩, -⟩
      refine .inr ?_
      cases hlisted : listedMonths text with
      | nil => rfl
      | cons m rest =>
        -- a month listed before the new section is listed in it once more
        rw [hlisted] at hmissing
        have hm : m ∈ newestFirst months :=
          mem_sortBy.mpr ((hmem m).mp (by rw [hmissing]; exact List.mem_cons_self))
        rw [hmissing, List.cons_append] at hsorted
        exact absurd (List.rel_of_pairwise_cons hsorted (List.mem_append_right _ hm)) (lt_irrefl m)
    · rintro (h | h)
      · exact absurd h hfound
      · refine hexact ?_
        rw [hmissing, h, List.nil_append]
        exact newestFirst_exact hnodup

/-- A heading line with a trailing blank. -/
def blankAfterHeading : Text := "## Months \n\n- [2024-01](2024-01.md)\n".toList

theorem firstConflictMarker_eq (contents : Text) : firstConflictMarker contents =
    (((fence.mask none (linesOf contents)).zip (linesOf contents)).findIdx? fun row =>
      row.1 && isConflictMarker row.2).map (· + 1) := by
  rw [firstConflictMarker, structuralLineMask_eq]

theorem sync_ok (h : firstConflictMarker text = none) :
    sync text months entries = .ok (renderIndex text months (renderPending entries)) := by
  rw [sync, h]

theorem sync_lists_found :
    ListsExactly (listedMonths (renderIndex "## Months\n".toList [januaryMonth] [])) [januaryMonth] := by
  have hclean : firstConflictMarker "## Months\n".toList = none := by
    rw [firstConflictMarker_eq]
    decide
  have hsync : sync "## Months\n".toList [januaryMonth] [] =
      .ok (renderIndex "## Months\n".toList [januaryMonth] []) := sync_ok hclean
  exact ((sync_lists (by decide) (by decide) hsync).mpr
    (.inl ⟨_, List.mem_cons_self, by decide⟩)).1

/-- The index gets a second months section. -/
theorem sync_lists_twice : firstConflictMarker blankAfterHeading = none ∧
    (linesOf blankAfterHeading).countP namesMonths ≤ 1 ∧
    (sync blankAfterHeading [januaryMonth] []).toOption.map listedMonths =
      some [januaryMonth, januaryMonth] ∧
    ¬ ListsExactly [januaryMonth, januaryMonth] [januaryMonth] := by
  have hclean : firstConflictMarker blankAfterHeading = none := by
    rw [firstConflictMarker_eq]
    decide
  refine ⟨hclean, by decide, ?_, fun h => ?_⟩
  · rw [sync_ok hclean]
    decide +kernel
  · exact absurd (List.rel_of_pairwise_cons h.1 List.mem_cons_self) (lt_irrefl _)

end NilsCli.Devlog
