import NilsCli.Devlog.Index

/-!
# Replacing a section

`replaceSection` puts new lines under a heading. The heading line, what stands before it and what follows
from the next heading on stay as they are (`replaceSection_found`); without the heading the section goes
to the end of the trimmed text (`replaceSection_missing`).
-/

namespace NilsCli.Devlog

open Lib List

variable {text raw line heading pattern tail : Text} {raws pre rest lines : List Text}

/-! ## Starts and ends of lines -/

theorem isPrefixOf_append_of_disjoint (h : ∀ c ∈ tail, c ∉ pattern) :
    pattern.isPrefixOf (line ++ tail) = pattern.isPrefixOf line := by
  rw [Bool.eq_iff_iff, isPrefixOf_iff_prefix, isPrefixOf_iff_prefix]
  constructor
  · intro hpre
    rcases prefix_or_prefix_of_prefix hpre (prefix_append line tail) with hle | hle
    · exact hle
    · obtain ⟨more, rfl⟩ := hle
      rw [prefix_append_right_inj] at hpre
      cases more with
      | nil => exact ⟨[], by rw [append_nil, append_nil]⟩
      | cons c more => exact absurd (by simp) (h c (hpre.subset mem_cons_self))
  · exact fun hpre => hpre.trans (prefix_append _ _)

theorem isPrefixOf_append_newline (h : '\n' ∉ pattern) :
    pattern.isPrefixOf (line ++ ['\n']) = pattern.isPrefixOf line :=
  isPrefixOf_append_of_disjoint fun _ hc => List.mem_singleton.mp hc ▸ h

theorem trimLineEnd_append (raw : Text) :
    ∃ tail, (∀ c ∈ tail, c = '\n' ∨ c = '\r') ∧ raw = trimLineEnd raw ++ tail := by
  refine ⟨raw.rtakeWhile fun c => c = '\n' ∨ c = '\r', fun c hc => ?_,
    List.rdropWhile_append_rtakeWhile.symm⟩
  simpa using mem_rtakeWhile_imp hc

theorem lineOf_trimEnd (line : Text) : lineOf (trimEnd line ++ ['\n']) = trimEnd line := by
  have hne : (trimEnd line).getLast? ≠ some '\r' := by
    intro h
    have hne : trimEnd line ≠ [] := by
      rintro hnil
      rw [hnil] at h
      exact absurd h (by decide)
    rw [getLast?_eq_some_getLast hne, Option.some_inj] at h
    refine rdropWhile_last_not isWhitespace line hne ?_
    exact h ▸ by decide
  rw [lineOf, if_pos (getLast?_concat ..), dropLast_concat, if_neg hne]

theorem sectionMark_disjoint (h : ∀ c ∈ tail, c = '\n' ∨ c = '\r') : ∀ c ∈ tail, c ∉ sectionMark := by
  intro c hc
  rcases h c hc with rfl | rfl <;> decide

@[simp] theorem sectionMark_lineOf (raw : Text) :
    sectionMark.isPrefixOf (lineOf raw) = sectionMark.isPrefixOf raw := by
  obtain ⟨tail, htail, heq⟩ := lineOf_lineEnd raw
  conv_rhs => rw [heq]
  rw [isPrefixOf_append_of_disjoint (sectionMark_disjoint htail)]

@[simp] theorem sectionMark_trimLineEnd (raw : Text) :
    sectionMark.isPrefixOf (trimLineEnd raw) = sectionMark.isPrefixOf raw := by
  obtain ⟨tail, htail, heq⟩ := trimLineEnd_append raw
  conv_rhs => rw [heq]
  rw [isPrefixOf_append_of_disjoint (sectionMark_disjoint htail)]

theorem sectionMark_of_blank (h : blank line = true) : sectionMark.isPrefixOf line = false := by
  cases line with
  | nil => rfl
  | cons c line =>
    have hc : isWhitespace c = true := (List.all_eq_true.mp h) c mem_cons_self
    have hne : c ≠ '#' := by
      rintro rfl
      exact absurd hc (by decide)
    have hbeq : ('#' == c) = false := beq_eq_false_iff_ne.mpr (Ne.symm hne)
    show ('#' == c && _) = false
    rw [hbeq, Bool.false_and]

theorem not_blank_of_section {raw : Text} (h : sectionMark.isPrefixOf raw = true) : blank raw = false := by
  by_contra hblank
  rw [sectionMark_of_blank (Bool.not_eq_false _ ▸ hblank)] at h
  exact Bool.false_ne_true h

theorem trimmed_append_blank (line : Text) (h : blank tail = true) :
    trimmed (line ++ tail) = trimmed line := by
  rw [trimmed, trimmed, dropWhile_append_blank h]
  by_cases hline : blank line = true
  · have hnil : line.dropWhile isWhitespace = [] :=
      List.dropWhile_eq_nil_iff.mpr (List.all_eq_true.mp hline)
    rw [if_pos hline, hnil]
  · rw [if_neg hline, trimEnd_append_blank _ h]

@[simp] theorem trimmed_lineOf (raw : Text) : trimmed (lineOf raw) = trimmed raw := by
  obtain ⟨tail, htail, heq⟩ := lineOf_append raw
  conv_rhs => rw [heq]
  rw [trimmed_append_blank _ htail]

@[simp] theorem trimmed_trimEnd (line : Text) : trimmed (trimEnd line) = trimmed line := by
  obtain ⟨tail, htail, heq⟩ := trimEnd_append line
  conv_rhs => rw [heq]
  rw [trimmed_append_blank _ htail]

theorem trimmed_trimLineEnd (raw : Text) : trimmed (trimLineEnd raw) = trimmed raw := by
  obtain ⟨tail, htail, heq⟩ := trimLineEnd_append raw
  conv_rhs => rw [heq]
  rw [trimmed_append_blank _ (blank_lineEnd htail)]

theorem trimLineEnd_newline (line : Text) : trimLineEnd (line ++ ['\n']) = trimLineEnd line :=
  rdropWhile_concat_pos _ _ _ (by simp)

/-! ## Whole lines -/

/-- The lines of a text from one of them on. -/
theorem splitInclusive_rest {init : List Text} (h : splitInclusive text = init ++ rest) :
    splitInclusive rest.flatten = rest := by
  by_cases hrest : rest = []
  · rw [hrest]
    rfl
  · have hwhole := whole_of_before h hrest
    have hflatten := congrArg flatten h
    rw [flatten_splitInclusive, flatten_append] at hflatten
    have hsplit := splitInclusive_flatten_append hwhole rest.flatten
    rw [← hflatten, h] at hsplit
    exact (append_cancel_left hsplit).symm

/-- The line with a line feed at its end. -/
def closeLine (raw : Text) : Text := if raw.getLast? = some '\n' then raw else raw ++ ['\n']

theorem whole_closeLine (h : raw ∈ splitInclusive text) : Whole (closeLine raw) := by
  obtain ⟨raws, last, hsplit, hraws, hlast⟩ := splitInclusive_eq text
  rw [hsplit, mem_append] at h
  rcases h with h | h
  · obtain ⟨body, hbody, rfl⟩ := hraws raw h
    exact ⟨body, hbody, by simp [closeLine]⟩
  · rcases hlast with rfl | ⟨body, rfl, -, hbody⟩
    · exact absurd h not_mem_nil
    · rw [List.mem_singleton.mp h]
      have hne : body.getLast? ≠ some '\n' := fun hlast => hbody (mem_of_getLast? hlast)
      exact ⟨body, hbody, by rw [closeLine, if_neg hne]⟩

@[simp] theorem trimLineEnd_closeLine (raw : Text) : trimLineEnd (closeLine raw) = trimLineEnd raw := by
  unfold closeLine
  split
  · rfl
  · exact trimLineEnd_newline raw

def bodyLines (lines : List Text) : List Text :=
  if lines = [] then [['\n']] else lines.map (· ++ ['\n'])

theorem flatten_bodyLines (lines : List Text) :
    (bodyLines lines).flatten = joinLines lines ++ ['\n'] := by
  cases lines with
  | nil => rfl
  | cons line lines =>
    rw [bodyLines, if_neg (cons_ne_nil _ _)]
    induction lines generalizing line with
    | nil => simp [joinLines, intercalate]
    | cons next lines ih =>
      rw [map_cons, flatten_cons, ih next]
      simp [joinLines, intercalate]

theorem whole_bodyLines (h : ∀ line ∈ lines, '\n' ∉ line) : ∀ raw ∈ bodyLines lines, Whole raw := by
  intro raw hraw
  unfold bodyLines at hraw
  split at hraw
  · rw [List.mem_singleton.mp hraw]
    exact ⟨[], not_mem_nil, rfl⟩
  · obtain ⟨line, hline, rfl⟩ := List.mem_map.mp hraw
    exact ⟨line, h line hline, rfl⟩

/-- The empty line before what follows a section. -/
def gap (after : List Text) : List Text := if after = [] then [] else ['\n'] :: after

/-! ## The section -/

/-- The section is where its heading first stands. -/
theorem sectionParts_eq (hpre : ∀ raw ∈ pre, trimLineEnd raw ≠ heading) (hline : trimLineEnd line = heading) :
    sectionParts heading (pre ++ line :: rest) = some (pre ++ [line],
      rest.takeWhile (fun raw => !sectionMark.isPrefixOf raw),
      rest.dropWhile fun raw => !sectionMark.isPrefixOf raw) := by
  have hpre' : ∀ raw ∈ pre, decide (trimLineEnd raw ≠ heading) = true := fun raw h =>
    decide_eq_true (hpre raw h)
  have hline' : decide (trimLineEnd line ≠ heading) = false := by simp [hline]
  rw [sectionParts, dropWhile_append_of_pos hpre', takeWhile_append_of_pos hpre']
  simp only [dropWhile_cons, takeWhile_cons, hline', sectionMark_trimLineEnd,
    Bool.false_eq_true, if_false, append_nil]

theorem sectionParts_none (h : ∀ raw ∈ raws, trimLineEnd raw ≠ heading) :
    sectionParts heading raws = none := by
  have hnil : raws.dropWhile (fun raw => trimLineEnd raw ≠ heading) = [] :=
    List.dropWhile_eq_nil_iff.mpr fun raw hraw => decide_eq_true (h raw hraw)
  rw [sectionParts, hnil]

/-- A text has the heading on a first line, or on none. -/
theorem heading_cases (heading : Text) (raws : List Text) :
    (∀ raw ∈ raws, trimLineEnd raw ≠ heading) ∨ ∃ pre line rest, raws = pre ++ line :: rest ∧
      (∀ raw ∈ pre, trimLineEnd raw ≠ heading) ∧ trimLineEnd line = heading := by
  induction raws with
  | nil => exact .inl fun _ h => absurd h not_mem_nil
  | cons raw raws ih =>
    by_cases hraw : trimLineEnd raw = heading
    · exact .inr ⟨[], raw, raws, rfl, fun _ h => absurd h not_mem_nil, hraw⟩
    · rcases ih with hall | ⟨pre, line, rest, rfl, hpre, hline⟩
      · exact .inl (List.forall_mem_cons.mpr ⟨hraw, hall⟩)
      · exact .inr ⟨raw :: pre, line, rest, rfl, List.forall_mem_cons.mpr ⟨hraw, hpre⟩, hline⟩

/-- What follows a section: a heading line comes first. -/
theorem after_starts (rest : List Text) :
    (rest.dropWhile fun raw => !sectionMark.isPrefixOf raw) = [] ∨ ∃ next more,
      (rest.dropWhile fun raw => !sectionMark.isPrefixOf raw) = next :: more ∧
        sectionMark.isPrefixOf next = true := by
  cases hafter : rest.dropWhile fun raw => !sectionMark.isPrefixOf raw with
  | nil => exact .inl rfl
  | cons next more =>
    have hhead := head_dropWhile_not (fun raw => !sectionMark.isPrefixOf raw)
      (by rw [hafter]; exact cons_ne_nil _ _)
    simp only [hafter, head_cons, Bool.not_eq_false'] at hhead
    exact .inr ⟨next, more, rfl, hhead⟩

theorem replaceSection_found (hsplit : splitInclusive text = pre ++ line :: rest)
    (hpre : ∀ raw ∈ pre, trimLineEnd raw ≠ heading) (hline : trimLineEnd line = heading)
    (hlines : ∀ line ∈ lines, '\n' ∉ line) :
    splitInclusive (replaceSection text heading (joinLines lines)) =
      pre ++ closeLine line :: ['\n'] :: (bodyLines lines ++
        gap (rest.dropWhile fun raw => !sectionMark.isPrefixOf raw)) := by
  have hpreWhole := whole_of_before hsplit (cons_ne_nil _ _)
  have hmem : line ∈ splitInclusive text := by
    rw [hsplit]
    exact mem_append_right _ mem_cons_self
  have hlineWhole : Whole (closeLine line) := whole_closeLine hmem
  have hstart : (if (pre ++ [line]).flatten.getLast? = some '\n' then (pre ++ [line]).flatten
      else (pre ++ [line]).flatten ++ ['\n']) = (pre ++ [closeLine line]).flatten := by
    have hne : line ≠ [] := ne_nil_of_mem_splitInclusive hmem
    have hflat : (pre ++ [line]).flatten = pre.flatten ++ line := by simp
    rw [hflat, getLast?_append_of_ne_nil _ hne, closeLine]
    split <;> simp
  have hrest : splitInclusive (rest.dropWhile fun raw => !sectionMark.isPrefixOf raw).flatten =
      rest.dropWhile fun raw => !sectionMark.isPrefixOf raw := by
    have hcut : splitInclusive text =
        (pre ++ line :: rest.takeWhile fun raw => !sectionMark.isPrefixOf raw) ++
          rest.dropWhile fun raw => !sectionMark.isPrefixOf raw := by
      rw [hsplit, append_assoc, cons_append, takeWhile_append_dropWhile]
    exact splitInclusive_rest hcut
  unfold replaceSection
  rw [hsplit, sectionParts_eq hpre hline]
  simp only [hstart]
  generalize hafter : (rest.dropWhile fun raw => !sectionMark.isPrefixOf raw) = after at hrest ⊢
  have hremainder : (if after.flatten.dropWhile (· = '\n') = [] then [] else
      '\n' :: after.flatten.dropWhile (· = '\n')) = (gap after).flatten := by
    rcases after_starts rest with hnil | ⟨next, more, heq, hnext⟩
    · rw [hafter] at hnil
      rw [hnil]
      rfl
    · rw [hafter] at heq
      obtain ⟨more', hmore'⟩ := List.isPrefixOf_iff_prefix.mp hnext
      have hhash : ∃ chars, after.flatten = '#' :: chars :=
        ⟨"# ".toList ++ more' ++ more.flatten, by rw [heq, flatten_cons, ← hmore']; rfl⟩
      obtain ⟨chars, hchars⟩ := hhash
      have hne : after ≠ [] := by simp [heq]
      rw [gap, if_neg hne, hchars, dropWhile_cons_of_neg (by decide),
        if_neg (cons_ne_nil _ _), flatten_cons, hchars]
      rfl
  have hwhole : ∀ raw ∈ pre ++ closeLine line :: ['\n'] :: bodyLines lines, Whole raw := by
    intro raw hraw
    simp only [mem_append, mem_cons] at hraw
    rcases hraw with hraw | rfl | rfl | hraw
    · exact hpreWhole raw hraw
    · exact hlineWhole
    · exact ⟨[], not_mem_nil, rfl⟩
    · exact whole_bodyLines hlines raw hraw
  have hgap : splitInclusive (gap after).flatten = gap after := by
    unfold gap
    split
    · rfl
    · have hblank : ∀ raw ∈ [['\n']], Whole raw := by
        intro raw hraw
        rw [List.mem_singleton.mp hraw]
        exact ⟨[], not_mem_nil, rfl⟩
      have hsplitGap := splitInclusive_flatten_append hblank after.flatten
      rw [hrest] at hsplitGap
      exact hsplitGap
  have hout := splitInclusive_flatten_append hwhole (gap after).flatten
  rw [hgap] at hout
  rw [hremainder]
  have htext : (pre ++ [closeLine line]).flatten ++ '\n' :: joinLines lines ++
      '\n' :: (gap after).flatten =
      (pre ++ closeLine line :: ['\n'] :: bodyLines lines).flatten ++ (gap after).flatten := by
    simp only [flatten_append, flatten_cons, flatten_bodyLines, flatten_nil,
      append_nil, append_assoc, cons_append, nil_append]
  rw [htext, hout]
  simp

theorem splitInclusive_trimEnd (text : Text) :
    (∀ raw ∈ splitInclusive text, blank raw = true) ∧ splitInclusive (trimEnd text ++ ['\n']) = [['\n']] ∨
      ∃ init last blanks, splitInclusive text = init ++ last :: blanks ∧ blank last = false ∧
        (∀ raw ∈ blanks, blank raw = true) ∧
        splitInclusive (trimEnd text ++ ['\n']) = init ++ [trimEnd last ++ ['\n']] := by
  have hlines := trimEnd_lines (splitInclusive text)
  rw [flatten_splitInclusive] at hlines
  rcases hlines with ⟨hblank, hnil⟩ | ⟨init, last, blanks, hsplit, hlast, hblanks, htrim⟩
  · refine .inl ⟨hblank, ?_⟩
    rw [hnil]
    rfl
  · refine .inr ⟨init, last, blanks, hsplit, hlast, hblanks, ?_⟩
    have hmem : last ∈ splitInclusive text := by
      rw [hsplit]
      exact mem_append_right _ mem_cons_self
    have hinit := whole_of_before hsplit (cons_ne_nil _ _)
    obtain ⟨body, hbody, heq⟩ := whole_trimEnd hmem
    rw [htrim, append_assoc, splitInclusive_flatten_append hinit, heq, splitInclusive_body hbody]
    rfl

theorem replaceSection_missing (h : ∀ raw ∈ splitInclusive text, trimLineEnd raw ≠ heading)
    (hheading : '\n' ∉ heading) (hlines : ∀ line ∈ lines, '\n' ∉ line) :
    splitInclusive (replaceSection text heading (joinLines lines)) =
      splitInclusive (trimEnd text ++ ['\n']) ++
        ['\n'] :: (heading ++ ['\n']) :: ['\n'] :: bodyLines lines := by
  have hwhole : ∀ raw ∈ splitInclusive (trimEnd text ++ ['\n']) ++
      ['\n'] :: (heading ++ ['\n']) :: ['\n'] :: bodyLines lines, Whole raw := by
    intro raw hraw
    simp only [mem_append, mem_cons] at hraw
    rcases hraw with hraw | rfl | rfl | rfl | hraw
    · exact whole_of_ends (getLast?_concat ..) raw hraw
    · exact ⟨[], not_mem_nil, rfl⟩
    · exact ⟨heading, hheading, rfl⟩
    · exact ⟨[], not_mem_nil, rfl⟩
    · exact whole_bodyLines hlines raw hraw
  rw [replaceSection, sectionParts_none h]
  rw [← splitInclusive_flatten hwhole]
  congr 1
  simp only [flatten_append, flatten_cons, flatten_splitInclusive, flatten_bodyLines]
  simp

end NilsCli.Devlog
