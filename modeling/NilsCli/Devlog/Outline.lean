import NilsCli.Devlog.Listing

/-!
# The outline of an index

The outline of a text is what stands before its sections, and the sections with their headings, without
the blank lines at the edges.
-/

namespace NilsCli.Devlog

open Lib List

variable {text line heading : Text} {raws pre rest body lines : List Text}

/-! ## Outlines -/

/-- A heading line and the lines below it. -/
abbrev Section := Text × List Text

/-- The lines without the blank ones at the edges. -/
def trimBlank (lines : List Text) : List Text := (lines.dropWhile blank).rdropWhile blank

def sectionsOf : List Text → List Text × List Section
  | [] => ([], [])
  | raw :: raws =>
    if sectionMark.isPrefixOf raw then
      ([], (trimLineEnd raw, (sectionsOf raws).1) :: (sectionsOf raws).2)
    else (trimLineEnd raw :: (sectionsOf raws).1, (sectionsOf raws).2)

def outlineOf (raws : List Text) : List Text × List Section :=
  (trimBlank (sectionsOf raws).1, (sectionsOf raws).2.map fun s => (s.1, trimBlank s.2))

def outline (text : Text) : List Text × List Section := outlineOf (splitInclusive text)

def setFirst (heading : Text) (body : List Text) : List Section → List Section
  | [] => [(heading, body)]
  | s :: rest => if s.1 = heading then (heading, body) :: rest else s :: setFirst heading body rest

/-! ## Blank lines at the edges -/

theorem trimBlank_cons_blank (h : blank line = true) (lines : List Text) :
    trimBlank (line :: lines) = trimBlank lines := by
  rw [trimBlank, dropWhile_cons, if_pos h, trimBlank]

theorem trimBlank_concat_blank (h : blank line = true) (lines : List Text) :
    trimBlank (lines ++ [line]) = trimBlank lines := by
  rw [trimBlank, trimBlank]
  by_cases hall : ∀ l ∈ lines, blank l = true
  · have hnil : lines.dropWhile blank = [] := List.dropWhile_eq_nil_iff.mpr hall
    have hdrop : (lines ++ [line]).dropWhile blank = [] := by
      refine List.dropWhile_eq_nil_iff.mpr fun l hl => ?_
      rcases List.mem_append.mp hl with hl | hl
      · exact hall l hl
      · rw [List.mem_singleton.mp hl, h]
    rw [hnil, hdrop]
  · have hne : (lines.dropWhile blank).isEmpty = false := by
      rw [isEmpty_eq_false_iff]
      exact fun hnil => hall (List.dropWhile_eq_nil_iff.mp hnil)
    rw [List.dropWhile_append, hne]
    exact rdropWhile_concat_pos _ _ _ h

theorem trimBlank_append_blanks {blanks : List Text} (h : ∀ line ∈ blanks, blank line = true)
    (lines : List Text) : trimBlank (lines ++ blanks) = trimBlank lines := by
  induction blanks using reverseRecOn with
  | nil => rw [append_nil]
  | append_singleton blanks last ih =>
    rw [← append_assoc, trimBlank_concat_blank (h last (by simp)), ih fun line hline => h line
      (mem_append_left _ hline)]

/-! ## Sections of joined lines -/

/-- A heading line ends what stands before it. -/
theorem sectionsOf_append (pre : List Text) (hline : sectionMark.isPrefixOf line = true)
    (rest : List Text) : sectionsOf (pre ++ line :: rest) = ((sectionsOf pre).1,
      (sectionsOf pre).2 ++ (trimLineEnd line, (sectionsOf rest).1) :: (sectionsOf rest).2) := by
  induction pre with
  | nil =>
    simp only [nil_append, sectionsOf, if_pos hline]
  | cons raw pre ih =>
    rw [cons_append, sectionsOf, ih, sectionsOf]
    split <;> rfl

theorem sectionsOf_quiet (h : ∀ raw ∈ body, sectionMark.isPrefixOf raw = false) (rest : List Text) :
    sectionsOf (body ++ rest) = (body.map trimLineEnd ++ (sectionsOf rest).1, (sectionsOf rest).2) := by
  induction body with
  | nil => rfl
  | cons raw body ih =>
    obtain ⟨hraw, hbody⟩ := List.forall_mem_cons.mp h
    rw [cons_append, sectionsOf, ih hbody, if_neg (by simp [hraw])]
    rfl

theorem sectionsOf_blanks (h : ∀ raw ∈ body, blank raw = true) :
    sectionsOf body = (body.map trimLineEnd, []) := by
  have hquiet := sectionsOf_quiet (fun raw hraw => sectionMark_of_blank (h raw hraw)) []
  simpa [sectionsOf] using hquiet

theorem blank_trimLineEnd (h : blank line = true) : blank (trimLineEnd line) = true := by
  obtain ⟨tail, -, heq⟩ := trimLineEnd_append line
  rw [heq, blank_append, Bool.and_eq_true] at h
  exact h.1

theorem sectionsOf_gap (lines rest : List Text) :
    trimBlank (lines ++ (sectionsOf (gap (rest.dropWhile fun raw => !sectionMark.isPrefixOf raw))).1) =
      trimBlank lines ∧
    (sectionsOf (gap (rest.dropWhile fun raw => !sectionMark.isPrefixOf raw))).2 = (sectionsOf rest).2 ∧
    (sectionsOf rest).1 = (rest.takeWhile fun raw => !sectionMark.isPrefixOf raw).map trimLineEnd := by
  have hrest := sectionsOf_quiet (takeWhile_quiet rest)
    (rest.dropWhile fun raw => !sectionMark.isPrefixOf raw)
  rw [takeWhile_append_dropWhile] at hrest
  rcases after_starts rest with hnil | ⟨next, more, heq, hnext⟩
  · rw [hnil] at hrest ⊢
    rw [hrest]
    exact ⟨by rw [gap, if_pos rfl, sectionsOf, append_nil], rfl, append_nil _⟩
  · rw [heq] at hrest ⊢
    have hsections : sectionsOf (next :: more) =
        ([], (trimLineEnd next, (sectionsOf more).1) :: (sectionsOf more).2) := by
      rw [sectionsOf, if_pos hnext]
    have hgap : sectionsOf (gap (next :: more)) =
        ([[]], (trimLineEnd next, (sectionsOf more).1) :: (sectionsOf more).2) := by
      have hnewline : ∀ raw ∈ [['\n']], sectionMark.isPrefixOf raw = false := by decide
      have hblank := sectionsOf_quiet hnewline (next :: more)
      rw [hsections] at hblank
      exact hblank
    rw [hgap, hrest, hsections]
    exact ⟨trimBlank_concat_blank rfl lines, rfl, append_nil _⟩

/-! ## The first section of a heading -/

theorem setFirst_append {s : Section} {pre rest : List Section} (hpre : ∀ s ∈ pre, s.1 ≠ heading)
    (hs : s.1 = heading) : setFirst heading body (pre ++ s :: rest) = pre ++ (heading, body) :: rest := by
  induction pre with
  | nil => rw [nil_append, setFirst, if_pos hs]; rfl
  | cons t pre ih =>
    obtain ⟨ht, hpre⟩ := List.forall_mem_cons.mp hpre
    rw [cons_append, setFirst, if_neg ht, ih hpre]
    rfl

theorem setFirst_missing {secs : List Section} (h : ∀ s ∈ secs, s.1 ≠ heading) :
    setFirst heading body secs = secs ++ [(heading, body)] := by
  induction secs with
  | nil => rfl
  | cons t secs ih =>
    obtain ⟨ht, hsecs⟩ := List.forall_mem_cons.mp h
    rw [setFirst, if_neg ht, ih hsecs]
    rfl

/-- The headings of the sections are lines of the text. -/
theorem exists_of_mem_sectionsOf {s : Section} (h : s ∈ (sectionsOf raws).2) :
    ∃ raw ∈ raws, trimLineEnd raw = s.1 := by
  induction raws with
  | nil => exact absurd h not_mem_nil
  | cons raw raws ih =>
    rw [sectionsOf] at h
    split at h
    · rcases List.mem_cons.mp h with rfl | h
      · exact ⟨raw, mem_cons_self, rfl⟩
      · obtain ⟨raw', hraw', heq⟩ := ih h
        exact ⟨raw', mem_cons_of_mem _ hraw', heq⟩
    · obtain ⟨raw', hraw', heq⟩ := ih h
      exact ⟨raw', mem_cons_of_mem _ hraw', heq⟩

theorem outlineOf_headings (h : ∀ raw ∈ raws, trimLineEnd raw ≠ heading) :
    ∀ s ∈ (outlineOf raws).2, s.1 ≠ heading := by
  intro s hs
  obtain ⟨t, ht, rfl⟩ := List.mem_map.mp hs
  obtain ⟨raw, hraw, heq⟩ := exists_of_mem_sectionsOf ht
  exact heq ▸ h raw hraw

/-! ## Replacing -/

def CleanLast (raws : List Text) : Prop :=
  ∀ init last blanks, raws = init ++ last :: blanks → blank last = false →
    (∀ raw ∈ blanks, blank raw = true) → trimEnd last = lineOf last

def CleanEnd (text : Text) : Prop := CleanLast (splitInclusive text)

theorem trimLineEnd_trimEnd (line : Text) : trimLineEnd (trimEnd line) = trimEnd line := by
  refine List.rdropWhile_eq_self_iff.mpr fun hne hend => ?_
  refine rdropWhile_last_not isWhitespace line hne ?_
  change decide _ = true at hend
  rcases of_decide_eq_true hend with heq | heq
  · exact heq ▸ by decide
  · exact heq ▸ by decide

theorem trimLineEnd_append_lineEnd {tail : Text} (h : ∀ c ∈ tail, c = '\n' ∨ c = '\r') (body : Text) :
    trimLineEnd (body ++ tail) = trimLineEnd body := by
  induction tail using reverseRecOn with
  | nil => rw [append_nil]
  | append_singleton tail c ih =>
    rw [← append_assoc, trimLineEnd, rdropWhile_concat_pos _ _ _
      (by simpa using h c (by simp))]
    exact ih fun d hd => h d (mem_append_left _ hd)

theorem trimLineEnd_of_clean (h : trimEnd line = lineOf line) : trimLineEnd line = trimEnd line := by
  obtain ⟨tail, htail, heq⟩ := lineOf_lineEnd line
  calc trimLineEnd line
    _ = trimLineEnd (lineOf line ++ tail) := by rw [← heq]
    _ = trimLineEnd (trimEnd line) := by rw [trimLineEnd_append_lineEnd htail, h]
    _ = trimEnd line := trimLineEnd_trimEnd line

theorem outlineOf_congr {q r : List Text} (hq : ∀ raw ∈ q, sectionMark.isPrefixOf raw = false)
    (hr : ∀ raw ∈ r, sectionMark.isPrefixOf raw = false)
    (h : ∀ lines, trimBlank (lines ++ q.map trimLineEnd) = trimBlank (lines ++ r.map trimLineEnd))
    (init : List Text) : outlineOf (init ++ q) = outlineOf (init ++ r) := by
  have hall : (∀ lines, trimBlank (lines ++ (sectionsOf (init ++ q)).1) =
      trimBlank (lines ++ (sectionsOf (init ++ r)).1)) ∧
      (outlineOf (init ++ q)).2 = (outlineOf (init ++ r)).2 := by
    induction init with
    | nil =>
      have hq' := sectionsOf_quiet hq []
      have hr' := sectionsOf_quiet hr []
      simp only [append_nil, sectionsOf] at hq' hr'
      simp only [nil_append, outlineOf, hq', hr']
      exact ⟨h, trivial⟩
    | cons raw init ih =>
      obtain ⟨hlines, hsecs⟩ := ih
      simp only [outlineOf] at hsecs
      simp only [cons_append, outlineOf, sectionsOf]
      split
      · have hbody := hlines []
        rw [nil_append, nil_append] at hbody
        simp only [map_cons, hbody, hsecs, implies_true, and_self]
      · refine ⟨fun lines => ?_, hsecs⟩
        have hraw := hlines (lines ++ [trimLineEnd raw])
        simpa using hraw
  have hpreamble := hall.1 []
  rw [nil_append, nil_append] at hpreamble
  exact Prod.ext hpreamble hall.2

theorem outline_trimEnd (h : CleanEnd text) :
    outlineOf (splitInclusive (trimEnd text ++ ['\n'])) = outline text ∧
      ∀ raw ∈ splitInclusive (trimEnd text ++ ['\n']), blank raw = false →
        ∃ raw' ∈ splitInclusive text, trimLineEnd raw = trimLineEnd raw' ∧ lineOf raw = lineOf raw' := by
  rw [outline]
  rcases splitInclusive_trimEnd text with
    ⟨hblank, hsplit⟩ | ⟨init, last, blanks, heq, hlast, hblanks, hsplit⟩
  · rw [hsplit]
    constructor
    · rw [outlineOf, outlineOf, sectionsOf_blanks hblank, sectionsOf_blanks (by decide)]
      have hlines : ∀ line ∈ (splitInclusive text).map trimLineEnd, blank line = true := by
        intro line hline
        obtain ⟨raw, hraw, rfl⟩ := List.mem_map.mp hline
        exact blank_trimLineEnd (hblank raw hraw)
      have hnil := trimBlank_append_blanks hlines []
      rw [nil_append] at hnil
      rw [hnil]
      rfl
    · intro raw hraw hne
      rw [List.mem_singleton.mp hraw] at hne
      exact absurd hne (by decide)
  · have hclean := h init last blanks heq hlast hblanks
    have hend : trimLineEnd (trimEnd last ++ ['\n']) = trimLineEnd last := by
      rw [trimLineEnd_newline, trimLineEnd_trimEnd, trimLineEnd_of_clean hclean]
    have hmark : sectionMark.isPrefixOf (trimEnd last ++ ['\n']) = sectionMark.isPrefixOf last := by
      rw [← sectionMark_trimLineEnd, hend, sectionMark_trimLineEnd]
    have hlineOf : lineOf (trimEnd last ++ ['\n']) = lineOf last := by
      rw [lineOf_trimEnd, hclean]
    have hblanks' : ∀ line ∈ blanks.map trimLineEnd, blank line = true := by
      intro line hline
      obtain ⟨raw, hraw, rfl⟩ := List.mem_map.mp hline
      exact blank_trimLineEnd (hblanks raw hraw)
    rw [hsplit, heq]
    constructor
    · by_cases hsection : sectionMark.isPrefixOf last = true
      · rw [outlineOf, outlineOf, sectionsOf_append _ (hmark.trans hsection), sectionsOf_append _ hsection,
          sectionsOf_blanks hblanks, hend, map_append, map_append]
        have hnil := trimBlank_append_blanks hblanks' []
        rw [nil_append] at hnil
        simp only [map_cons, hnil, map_nil]
        rfl
      · have hlastQuiet : sectionMark.isPrefixOf last = false := Bool.eq_false_of_not_eq_true hsection
        have hquiet : ∀ raw ∈ last :: blanks, sectionMark.isPrefixOf raw = false := by
          rintro raw (_ | ⟨_, hraw⟩)
          · exact hlastQuiet
          · exact sectionMark_of_blank (hblanks raw hraw)
        refine outlineOf_congr ?_ hquiet (fun lines => ?_) init
        · intro raw hraw
          rw [List.mem_singleton.mp hraw, hmark, hlastQuiet]
        · have happend := trimBlank_append_blanks hblanks' (lines ++ [trimLineEnd last])
          rw [append_assoc, singleton_append] at happend
          rw [map_singleton, hend, map_cons, happend]
    · intro raw hraw _
      rcases List.mem_append.mp hraw with hraw | hraw
      · exact ⟨raw, mem_append_left _ hraw, rfl, rfl⟩
      · rw [List.mem_singleton.mp hraw]
        exact ⟨last, mem_append_right _ mem_cons_self, hend, hlineOf⟩

theorem outline_replaceSection (heading : Text) (hheading : sectionMark.isPrefixOf heading = true)
    (hend : trimLineEnd heading = heading) (hnewline : '\n' ∉ heading)
    (hlines : ∀ line ∈ lines, '\n' ∉ line ∧ sectionMark.isPrefixOf line = false ∧ trimLineEnd line = line)
    (hclean : (∀ raw ∈ splitInclusive text, trimLineEnd raw ≠ heading) → CleanEnd text) :
    outline (replaceSection text heading (joinLines lines)) =
      ((outline text).1, setFirst heading (trimBlank lines) (outline text).2) := by
  have hbody : ∀ more, sectionsOf (['\n'] :: (bodyLines lines ++ more)) =
      ([] :: (bodyLines lines).map trimLineEnd ++ (sectionsOf more).1, (sectionsOf more).2) := by
    intro more
    have hquiet : ∀ raw ∈ [['\n']] ++ bodyLines lines, sectionMark.isPrefixOf raw = false := by
      intro raw hraw
      rcases List.mem_append.mp hraw with hraw | hraw
      · rw [List.mem_singleton.mp hraw]
        decide
      · exact bodyLines_quiet (fun line hline => (hlines line hline).2.1) raw hraw
    exact sectionsOf_quiet hquiet more
  have htrim : trimBlank ([] :: (bodyLines lines).map trimLineEnd) = trimBlank lines := by
    rw [trimBlank_cons_blank rfl, bodyLines]
    split
    next hnil =>
      rw [hnil]
      decide
    next =>
      rw [map_map]
      congr 1
      refine (map_congr_left fun line hline => ?_).trans (map_id lines)
      rw [Function.comp_apply, trimLineEnd_newline, (hlines line hline).2.2]
      rfl
  have hnewlines : ∀ line ∈ lines, '\n' ∉ line := fun line hline => (hlines line hline).1
  rcases heading_cases heading (splitInclusive text) with hnone | ⟨pre, line, rest, hsplit, hpre, hline⟩
  · have hmark : sectionMark.isPrefixOf (heading ++ ['\n']) = true := by
      rw [← sectionMark_trimLineEnd, trimLineEnd_newline, sectionMark_trimLineEnd, hheading]
    have hkept := (outline_trimEnd (hclean hnone)).1
    have hsecs : ∀ s ∈ (outline text).2, s.1 ≠ heading := outlineOf_headings hnone
    have hbody' := hbody []
    rw [append_nil] at hbody'
    have hgap := outlineOf_congr (q := [['\n']]) (r := []) (by decide) (by decide) (fun lines => by
      rw [map_singleton, map_nil, append_nil]
      exact trimBlank_concat_blank rfl lines) (splitInclusive (trimEnd text ++ ['\n']))
    rw [append_nil] at hgap
    rw [outline, replaceSection_missing hnone hnewline hnewlines, append_cons, outlineOf,
      sectionsOf_append _ hmark, hbody', setFirst_missing hsecs, ← hkept, ← hgap, outlineOf]
    simp only [map_append, map_cons, sectionsOf, append_nil, map_nil, htrim,
      trimLineEnd_newline, hend]
  · have hmark : sectionMark.isPrefixOf line = true := by
      rw [← sectionMark_trimLineEnd, hline, hheading]
    obtain ⟨hgap, hsecs, -⟩ := sectionsOf_gap ([] :: (bodyLines lines).map trimLineEnd) rest
    have hpreSecs : ∀ s ∈ (sectionsOf pre).2.map (fun s : Section => (s.1, trimBlank s.2)),
        s.1 ≠ heading := outlineOf_headings hpre
    rw [outline, outline, replaceSection_found hsplit hpre hline hnewlines, hsplit, outlineOf, outlineOf,
      sectionsOf_append _ (by rw [sectionMark_closeLine, hmark]), sectionsOf_append _ hmark, hbody]
    simp only [map_append, map_cons, trimLineEnd_closeLine, hline, hsecs]
    rw [setFirst_append hpreSecs rfl, hgap, htrim]

end NilsCli.Devlog
