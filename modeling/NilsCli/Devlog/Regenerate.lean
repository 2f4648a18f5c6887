import NilsCli.Devlog.Outline

/-!
# Regenerating the index

What stands outside the generated sections is kept when the first section of a heading is set in an
outline (`kept_setFirst`), unless an authored pending section is taken for a generated one.
-/

namespace NilsCli.Devlog

open Lib List

variable {text heading : Text} {raws pre rest lines : List Text} {months : List Month}
  {entries : List PendingEntry} {secs : List Section}

/-! ## What is kept -/

def clearMonths : List Section → List Section
  | [] => []
  | s :: rest => if s.1 = monthsHeading then (s.1, []) :: rest else s :: clearMonths rest

/-- The sections, those of the pending entries that carry the marker without their lines. -/
def clearPending (secs : List Section) : List Section :=
  secs.map fun s => if s.1 = pendingHeading ∧ s.2.contains pendingMarker then (s.1, []) else s

/-- What of an outline is not generated. -/
def kept (o : List Text × List Section) : List Text × List Section :=
  (o.1, clearPending (clearMonths o.2))

/-- The section that is added where there is none. -/
def added (heading : Text) (secs : List Section) : List Section :=
  if ∃ s ∈ secs, s.1 = heading then [] else [(heading, [])]

theorem added_congr {a b : List Section} (h : (∃ s ∈ a, s.1 = heading) ↔ ∃ s ∈ b, s.1 = heading) :
    added heading a = added heading b := by
  rw [added, added, if_congr h rfl rfl]

theorem added_cons (s : Section) (secs : List Section) :
    added heading (s :: secs) = if s.1 = heading then [] else added heading secs := by
  unfold added
  by_cases h : s.1 = heading
  · rw [if_pos h, if_pos ⟨s, mem_cons_self, h⟩]
  · rw [if_neg h]
    simp only [mem_cons, exists_eq_or_imp, h, false_or]

theorem clearMonths_setFirst (body : List Text) (secs : List Section) :
    clearMonths (setFirst monthsHeading body secs) = clearMonths secs ++ added monthsHeading secs := by
  induction secs with
  | nil => rfl
  | cons s secs ih =>
    rw [setFirst, added_cons]
    by_cases h : s.1 = monthsHeading
    · rw [if_pos h, if_pos h, clearMonths, clearMonths, if_pos rfl, if_pos h, append_nil, h]
    · rw [if_neg h, if_neg h, clearMonths, clearMonths, if_neg h, if_neg h, ih, cons_append]

/-- The two sections have nothing to do with each other. -/
theorem clearMonths_setFirst_pending (body : List Text) (secs : List Section) :
    clearMonths (setFirst pendingHeading body secs) = setFirst pendingHeading body (clearMonths secs) := by
  have hne : pendingHeading ≠ monthsHeading := by decide
  induction secs with
  | nil => rfl
  | cons s secs ih =>
    rw [setFirst, clearMonths]
    by_cases hp : s.1 = pendingHeading
    · have hm : ¬ s.1 = monthsHeading := fun h => hne (hp.symm.trans h)
      rw [if_pos hp, if_neg hm, clearMonths, if_neg hne, setFirst, if_pos hp]
    · by_cases hm : s.1 = monthsHeading
      · rw [if_neg hp, if_pos hm, clearMonths, if_pos hm, setFirst, if_neg hp]
      · rw [if_neg hp, if_neg hm, clearMonths, if_neg hm, setFirst, if_neg hp, ih]

theorem clearPending_setFirst {body : List Text} (hbody : pendingMarker ∈ body)
    (h : ∀ s, secs.find? (·.1 = pendingHeading) = some s → s.2 = [] ∨ pendingMarker ∈ s.2) :
    clearPending (setFirst pendingHeading body secs) =
      clearPending secs ++ clearPending (added pendingHeading secs) := by
  induction secs with
  | nil =>
    rw [setFirst, clearPending, map_singleton, if_pos ⟨rfl, List.contains_iff_mem.mpr hbody⟩]
    rfl
  | cons s secs ih =>
    rw [setFirst, added_cons]
    by_cases hs : s.1 = pendingHeading
    · rw [if_pos hs, if_pos hs, clearPending, clearPending, map_cons, map_cons,
        if_pos ⟨rfl, List.contains_iff_mem.mpr hbody⟩]
      have hcleared : (if s.1 = pendingHeading ∧ s.2.contains pendingMarker then (s.1, []) else s) =
          (pendingHeading, []) := by
        rcases h s (by rw [List.find?_cons, decide_eq_true hs]) with hnil | hmem
        · split
          · rw [hs]
          · exact Prod.ext hs hnil
        · rw [if_pos ⟨hs, List.contains_iff_mem.mpr hmem⟩, hs]
      rw [hcleared]
      exact (append_nil _).symm
    · have hfind : ∀ t, secs.find? (·.1 = pendingHeading) = some t → t.2 = [] ∨ pendingMarker ∈ t.2 := by
        intro t ht
        refine h t ?_
        rw [List.find?_cons, decide_eq_false hs]
        exact ht
      have hrest := ih hfind
      simp only [clearPending] at hrest ⊢
      rw [if_neg hs, if_neg hs, map_cons, hrest, map_cons, cons_append]

theorem find_pending_clearMonths (secs : List Section) :
    (clearMonths secs).find? (·.1 = pendingHeading) = secs.find? (·.1 = pendingHeading) := by
  have hne : monthsHeading ≠ pendingHeading := by decide
  induction secs with
  | nil => rfl
  | cons s secs ih =>
    rw [clearMonths]
    split
    next hm => simp only [List.find?_cons, hm, hne, decide_false]
    next => simp only [List.find?_cons, ih]

theorem added_clearMonths (heading : Text) (secs : List Section) :
    added heading (clearMonths secs) = added heading secs := by
  induction secs with
  | nil => rfl
  | cons s secs ih =>
    rw [clearMonths]
    split
    · rw [added_cons, added_cons]
    · rw [added_cons, added_cons, ih]

theorem clearPending_append (a b : List Section) :
    clearPending (a ++ b) = clearPending a ++ clearPending b := map_append

theorem clearPending_added (heading : Text) (secs : List Section) :
    clearPending (added heading secs) = added heading secs := by
  unfold added
  split
  · rfl
  · rw [clearPending, map_singleton, if_neg (fun h => not_mem_nil (List.contains_iff_mem.mp h.2))]

theorem added_append_added (secs : List Section) :
    added pendingHeading (secs ++ added monthsHeading secs) = added pendingHeading secs := by
  have hne : monthsHeading ≠ pendingHeading := by decide
  have hiff : (∃ s ∈ secs ++ added monthsHeading secs, s.1 = pendingHeading) ↔
      ∃ s ∈ secs, s.1 = pendingHeading := by
    constructor
    · rintro ⟨s, hs, heq⟩
      rcases List.mem_append.mp hs with hs | hs
      · exact ⟨s, hs, heq⟩
      · unfold added at hs
        split at hs
        · exact absurd hs not_mem_nil
        · rw [List.mem_singleton.mp hs] at heq
          exact absurd heq hne
    · rintro ⟨s, hs, heq⟩
      exact ⟨s, mem_append_left _ hs, heq⟩
  exact added_congr hiff

theorem find_pending_append_added (secs : List Section) :
    (secs ++ added monthsHeading secs).find? (·.1 = pendingHeading) =
      secs.find? (·.1 = pendingHeading) := by
  have hnone : (added monthsHeading secs).find? (·.1 = pendingHeading) = none := by
    unfold added
    split
    · rfl
    · decide
  rw [List.find?_append, hnone, Option.or_none]

theorem kept_setFirst (o : List Text × List Section) (listed : List Text) :
    kept (o.1, setFirst monthsHeading listed o.2) =
      ((kept o).1, (kept o).2 ++ added monthsHeading o.2) := by
  rw [kept, clearMonths_setFirst, clearPending_append, clearPending_added]
  rfl

theorem kept_setFirst_pending {o : List Text × List Section} {body : List Text}
    (hbody : pendingMarker ∈ body)
    (h : ∀ s, o.2.find? (·.1 = pendingHeading) = some s → s.2 = [] ∨ pendingMarker ∈ s.2)
    (listed : List Text) :
    kept (o.1, setFirst pendingHeading body (setFirst monthsHeading listed o.2)) =
      ((kept o).1, (kept o).2 ++ (added monthsHeading o.2 ++ added pendingHeading o.2)) := by
  have hmarked : ∀ s, (clearMonths o.2 ++ added monthsHeading o.2).find? (·.1 = pendingHeading) =
      some s → s.2 = [] ∨ pendingMarker ∈ s.2 := by
    intro s hs
    rw [← added_clearMonths monthsHeading, find_pending_append_added,
      find_pending_clearMonths] at hs
    exact h s hs
  rw [kept, clearMonths_setFirst_pending, clearMonths_setFirst, clearPending_setFirst hbody hmarked,
    clearPending_append, clearPending_added, clearPending_added,
    ← added_clearMonths monthsHeading, added_append_added, added_clearMonths,
    added_clearMonths, append_assoc]
  rfl

theorem marked_of_clearPending {body : List Text} (hbody : pendingMarker ∈ body) {tail extra : List Section}
    (h : clearPending (setFirst pendingHeading body (secs ++ tail)) = clearPending secs ++ extra)
    {s : Section} (hs : secs.find? (·.1 = pendingHeading) = some s) : s.2 = [] ∨ pendingMarker ∈ s.2 := by
  induction secs with
  | nil => cases hs
  | cons t secs ih =>
    rw [cons_append, setFirst] at h
    rw [List.find?_cons] at hs
    by_cases ht : t.1 = pendingHeading
    · rw [decide_eq_true ht] at hs
      obtain rfl := Option.some.inj hs
      rw [if_pos ht, clearPending, clearPending, map_cons, map_cons, cons_append,
        if_pos ⟨rfl, List.contains_iff_mem.mpr hbody⟩, cons_eq_cons] at h
      by_cases hmarker : pendingMarker ∈ t.2
      · exact .inr hmarker
      · have hhead := h.1
        rw [if_neg fun hboth => hmarker (List.contains_iff_mem.mp hboth.2)] at hhead
        exact .inl (congrArg Prod.snd hhead).symm
    · rw [decide_eq_false ht] at hs
      rw [if_neg ht, clearPending, clearPending, map_cons, map_cons, cons_append,
        cons_eq_cons] at h
      exact ih h.2 hs

/-! ## Settled sections -/

def Settled (raws : List Text) (heading : Text) (lines : List Text) : Prop :=
  ∃ pre line after, raws = pre ++ line :: ['\n'] :: (bodyLines lines ++ gap after) ∧
    (∀ raw ∈ pre, trimLineEnd raw ≠ heading) ∧ trimLineEnd line = heading ∧ closeLine line = line ∧
    (after = [] ∨ ∃ next more, after = next :: more ∧ sectionMark.isPrefixOf next = true)

theorem eq_of_splitInclusive {a b : Text} (h : splitInclusive a = splitInclusive b) : a = b := by
  rw [← flatten_splitInclusive a, h, flatten_splitInclusive]

theorem closeLine_closeLine (raw : Text) : closeLine (closeLine raw) = closeLine raw := by
  unfold closeLine
  by_cases h : raw.getLast? = some '\n'
  · rw [if_pos h, if_pos h]
  · rw [if_neg h, if_pos (getLast?_concat ..)]

theorem dropWhile_quiet (h : ∀ raw ∈ pre, sectionMark.isPrefixOf raw = false) (rest : List Text) :
    (pre ++ rest).dropWhile (fun raw => !sectionMark.isPrefixOf raw) =
      rest.dropWhile fun raw => !sectionMark.isPrefixOf raw := by
  refine dropWhile_append_of_pos fun raw hraw => ?_
  rw [h raw hraw]
  rfl

theorem dropWhile_after {after : List Text}
    (h : after = [] ∨ ∃ next more, after = next :: more ∧ sectionMark.isPrefixOf next = true) :
    (gap after).dropWhile (fun raw => !sectionMark.isPrefixOf raw) = after := by
  rcases h with rfl | ⟨next, more, rfl, hnext⟩
  · rfl
  · have hnewline : ∀ raw ∈ [['\n']], sectionMark.isPrefixOf raw = false := by decide
    have hquiet := dropWhile_quiet hnewline (next :: more)
    rw [dropWhile_cons_of_neg (by simp [hnext])] at hquiet
    exact hquiet

theorem replaceSection_settled (h : Settled (splitInclusive text) heading lines)
    (hlines : ∀ line ∈ lines, '\n' ∉ line ∧ sectionMark.isPrefixOf line = false) :
    replaceSection text heading (joinLines lines) = text := by
  obtain ⟨pre, line, after, hsplit, hpre, hline, hclosed, hafter⟩ := h
  refine eq_of_splitInclusive ?_
  have hquiet : ∀ raw ∈ [['\n']] ++ bodyLines lines, sectionMark.isPrefixOf raw = false := by
    intro raw hraw
    rcases List.mem_append.mp hraw with hraw | hraw
    · rw [List.mem_singleton.mp hraw]
      decide
    · exact bodyLines_quiet (fun line hline => (hlines line hline).2) raw hraw
  have hdrop := dropWhile_quiet hquiet (gap after)
  rw [dropWhile_after hafter] at hdrop
  rw [replaceSection_found hsplit hpre hline fun line hline => (hlines line hline).1, hsplit, hclosed]
  rw [append_assoc, singleton_append] at hdrop
  rw [hdrop]

theorem settled_replaceSection (heading : Text) (hend : trimLineEnd heading = heading) (hne : blank heading = false)
    (hnewline : '\n' ∉ heading) (hlines : ∀ line ∈ lines, '\n' ∉ line)
    (hclean : (∀ raw ∈ splitInclusive text, trimLineEnd raw ≠ heading) → CleanEnd text) :
    Settled (splitInclusive (replaceSection text heading (joinLines lines))) heading lines := by
  rcases heading_cases heading (splitInclusive text) with hnone | ⟨pre, line, rest, hsplit, hpre, hline⟩
  · refine ⟨splitInclusive (trimEnd text ++ ['\n']) ++ [['\n']], heading ++ ['\n'], [], ?_, ?_, ?_, ?_,
      .inl rfl⟩
    · rw [replaceSection_missing hnone hnewline hlines, gap, if_pos rfl, append_nil,
        append_assoc]
      rfl
    · intro raw hraw heq
      by_cases hblank : blank raw = true
      · have hblank' := blank_trimLineEnd hblank
        rw [heq, hne] at hblank'
        exact Bool.false_ne_true hblank'
      · rcases List.mem_append.mp hraw with hraw | hraw
        · obtain ⟨raw', hraw', htrim, -⟩ := (outline_trimEnd (hclean hnone)).2 raw hraw
            (Bool.eq_false_of_not_eq_true hblank)
          exact hnone raw' hraw' (htrim.symm.trans heq)
        · exact hblank (List.mem_singleton.mp hraw ▸ rfl)
    · rw [trimLineEnd_newline, hend]
    · rw [closeLine, if_pos (getLast?_concat ..)]
  · exact ⟨pre, closeLine line, _, replaceSection_found hsplit hpre hline hlines, hpre,
      by rw [trimLineEnd_closeLine, hline], closeLine_closeLine line, after_starts rest⟩

theorem split_last {a b init blanks : List Text} {last : Text} (h : a ++ b = init ++ last :: blanks)
    (hb : ∃ raw ∈ b, blank raw = false) (hblanks : ∀ raw ∈ blanks, blank raw = true) :
    ∃ c, init = a ++ c ∧ b = c ++ last :: blanks := by
  rcases List.append_eq_append_iff.mp h with ⟨c, rfl, hb'⟩ | ⟨c, rfl, hb'⟩
  · exact ⟨c, rfl, hb'⟩
  · cases c with
    | nil => exact ⟨[], by simp, by simpa using hb'.symm⟩
    | cons raw c =>
      obtain ⟨raw', hraw', hne⟩ := hb
      obtain ⟨-, hb'⟩ := List.cons_eq_cons.mp hb'
      have hblank := hblanks raw' (hb' ▸ mem_append_right _ hraw')
      rw [hblank] at hne
      exact absurd hne (by decide)

theorem gap_append_cons (a : List Text) (raw : Text) (b : List Text) :
    gap (a ++ raw :: b) = ['\n'] :: (a ++ raw :: b) := by
  rw [gap, if_neg (by simp)]

theorem heading_section {raw : Text} (hheading : sectionMark.isPrefixOf heading = true)
    (h : trimLineEnd raw = heading) : sectionMark.isPrefixOf raw = true := by
  rw [← sectionMark_trimLineEnd, h, hheading]

section
variable {line pline : Text} {after plines q c prest : List Text}
  (hpre : ∀ raw ∈ pre, trimLineEnd raw ≠ monthsHeading) (hline : trimLineEnd line = monthsHeading)
  (hclosed : closeLine line = line)
  (hafter : after = [] ∨ ∃ next more, after = next :: more ∧ sectionMark.isPrefixOf next = true)

include hpre hline hclosed hafter

theorem settled_pending_missing
    (hsplit : splitInclusive text = pre ++ line :: ['\n'] :: (bodyLines lines ++ gap after))
    (hlines : ∀ l ∈ lines, sectionMark.isPrefixOf l = false ∧ blank l = false ∧ trimEnd l = l)
    (hplines : ∀ l ∈ plines, '\n' ∉ l)
    (hnone : ∀ raw ∈ splitInclusive text, trimLineEnd raw ≠ pendingHeading)
    (hclean : CleanEnd text) (hlisted : after = [] → lines ≠ []) :
    Settled (splitInclusive (replaceSection text pendingHeading (joinLines plines))) monthsHeading lines := by
  rw [replaceSection_missing hnone (by decide) hplines]
  rcases splitInclusive_trimEnd text with ⟨hblank, -⟩ | ⟨init, last, blanks, heq, hlast, hblanks, htrim⟩
  · have hline' := hblank line (by rw [hsplit]; exact mem_append_right _ mem_cons_self)
    rw [not_blank_of_section (heading_section (by decide) hline)] at hline'
    exact absurd hline' (by decide)
  · rw [htrim]
    have hcleanLast := hclean init last blanks heq hlast hblanks
    rw [hsplit] at heq
    rcases hafter with rfl | ⟨next, more, rfl, hnext⟩
    · -- the rendered months come last
      obtain ⟨inner, l, rfl⟩ : ∃ inner l, lines = inner ++ [l] :=
        ⟨_, _, (dropLast_append_getLast (hlisted rfl)).symm⟩
      obtain ⟨-, hl, htriml⟩ := hlines l (by simp)
      have hbody : bodyLines (inner ++ [l]) = inner.map (· ++ ['\n']) ++ [l ++ ['\n']] := by
        simp [bodyLines]
      have hparts : (pre ++ line :: ['\n'] :: inner.map (· ++ ['\n'])) ++ [l ++ ['\n']] =
          init ++ last :: blanks := by
        rw [← heq, hbody]
        simp [gap]
      have hlNot : blank (l ++ ['\n']) = false := by rw [blank_append, hl, Bool.false_and]
      obtain ⟨c, rfl, hc⟩ := split_last hparts ⟨_, mem_singleton_self _, hlNot⟩ hblanks
      have hcnil : c = [] := by
        cases c with
        | nil => rfl
        | cons raw c => simp at hc
      rw [hcnil, nil_append, cons_eq_cons] at hc
      refine ⟨pre, line, (pendingHeading ++ ['\n']) :: ['\n'] :: bodyLines plines, ?_, hpre, hline,
        hclosed, .inr ⟨_, _, rfl, rfl⟩⟩
      rw [← hc.1, trimEnd_newline, htriml, hbody, hcnil, gap, if_neg (cons_ne_nil _ _)]
      simp
    · have hparts : (pre ++ line :: ['\n'] :: (bodyLines lines ++ [['\n']])) ++ next :: more =
          init ++ last :: blanks := by
        rw [← heq, gap, if_neg (cons_ne_nil _ _)]
        simp
      obtain ⟨c, rfl, hc⟩ := split_last hparts
        ⟨_, mem_cons_self, not_blank_of_section hnext⟩ hblanks
      have hlastMark : sectionMark.isPrefixOf (trimEnd last ++ ['\n']) =
          sectionMark.isPrefixOf last := by
        rw [← sectionMark_trimLineEnd, trimLineEnd_newline, trimLineEnd_trimEnd,
          ← trimLineEnd_of_clean hcleanLast, sectionMark_trimLineEnd]
      refine ⟨pre, line, c ++ (trimEnd last ++ ['\n']) :: ['\n'] :: (pendingHeading ++ ['\n']) ::
        ['\n'] :: bodyLines plines, ?_, hpre, hline, hclosed, .inr ?_⟩
      · rw [gap_append_cons]
        simp
      · cases c with
        | nil =>
          obtain ⟨rfl, -⟩ := List.cons_eq_cons.mp hc
          exact ⟨_, _, rfl, by rw [hlastMark, hnext]⟩
        | cons raw c =>
          obtain ⟨rfl, -⟩ := List.cons_eq_cons.mp hc
          exact ⟨next, _, rfl, hnext⟩

/-- So does one that is written behind it. -/
theorem settled_pending_behind (hlines : ∀ l ∈ lines, sectionMark.isPrefixOf l = false)
    (hpline : trimLineEnd pline = pendingHeading)
    (hc : ['\n'] :: bodyLines lines ++ gap after = c ++ pline :: prest) :
    Settled (pre ++ line :: c ++ closeLine pline :: ['\n'] :: (bodyLines plines ++
      gap (prest.dropWhile fun raw => !sectionMark.isPrefixOf raw))) monthsHeading lines := by
  have hpmark : sectionMark.isPrefixOf pline = true := heading_section (by decide) hpline
  have hquiet : ∀ raw ∈ ['\n'] :: bodyLines lines, sectionMark.isPrefixOf raw = false := by
    rintro raw (_ | ⟨_, hraw⟩)
    · rfl
    · exact bodyLines_quiet hlines raw hraw
  obtain ⟨d, rfl, hd⟩ : ∃ d, c = (['\n'] :: bodyLines lines) ++ d ∧ gap after = d ++ pline :: prest := by
    rcases List.append_eq_append_iff.mp hc with ⟨d, rfl, hd⟩ | ⟨d, hquiet', hd⟩
    · exact ⟨d, rfl, hd⟩
    · cases d with
      | nil => exact ⟨[], by simpa using hquiet'.symm, by simpa using hd.symm⟩
      | cons raw d =>
        obtain ⟨rfl, -⟩ := List.cons_eq_cons.mp hd
        have hraw := hquiet pline (hquiet' ▸ by simp)
        rw [hpmark] at hraw
        exact absurd hraw (by decide)
  rcases hafter with rfl | ⟨next, more, rfl, hnext⟩
  · exact absurd hd (by simp [gap])
  · rw [gap, if_neg (cons_ne_nil _ _)] at hd
    cases d with
    | nil =>
      obtain ⟨rfl, -⟩ := List.cons_eq_cons.mp hd
      exact absurd hpmark (by decide)
    | cons raw d =>
      obtain ⟨rfl, hmore⟩ := List.cons_eq_cons.mp hd
      refine ⟨pre, line, d ++ closeLine pline :: ['\n'] :: (bodyLines plines ++
        gap (prest.dropWhile fun raw => !sectionMark.isPrefixOf raw)), ?_, hpre, hline, hclosed, .inr ?_⟩
      · rw [gap_append_cons]
        simp
      · cases d with
        | nil => exact ⟨_, _, rfl, by rw [sectionMark_closeLine, hpmark]⟩
        | cons raw d =>
          obtain ⟨rfl, -⟩ := List.cons_eq_cons.mp hmore
          exact ⟨next, _, rfl, hnext⟩

/-- And one that is written before it. -/
theorem settled_pending_before (hplines : ∀ l ∈ plines, sectionMark.isPrefixOf l = false)
    (hpline : trimLineEnd pline = pendingHeading) (heq : pre = q ++ pline :: c) :
    Settled (q ++ closeLine pline :: ['\n'] :: (bodyLines plines ++
      gap ((c ++ line :: ['\n'] :: (bodyLines lines ++ gap after)).dropWhile fun raw =>
        !sectionMark.isPrefixOf raw))) monthsHeading lines := by
  have hdrop : (c ++ line :: ['\n'] :: (bodyLines lines ++ gap after)).dropWhile
      (fun raw => !sectionMark.isPrefixOf raw) =
      c.dropWhile (fun raw => !sectionMark.isPrefixOf raw) ++
        line :: ['\n'] :: (bodyLines lines ++ gap after) := by
    rw [List.dropWhile_append]
    split
    next hempty =>
      rw [List.isEmpty_iff.mp hempty,
        dropWhile_cons_of_neg (by simp [heading_section (by decide) hline])]
      rfl
    next => rfl
  refine ⟨q ++ closeLine pline :: ['\n'] :: (bodyLines plines ++
    ['\n'] :: c.dropWhile (fun raw => !sectionMark.isPrefixOf raw)), line, after, ?_, ?_, hline,
    hclosed, hafter⟩
  · rw [hdrop, gap_append_cons]
    simp
  · subst heq
    intro raw hraw
    simp only [mem_append, mem_cons] at hraw
    rcases hraw with hraw | rfl | rfl | hraw | rfl | hraw
    · exact hpre raw (mem_append_left _ hraw)
    · rw [trimLineEnd_closeLine, hpline]
      decide
    · decide
    · intro hmonths
      have hquiet := bodyLines_quiet hplines raw hraw
      rw [heading_section (by decide) hmonths] at hquiet
      exact absurd hquiet (by decide)
    · decide
    · exact hpre raw (mem_append_right _ (mem_cons_of_mem _
        ((dropWhile_sublist _).subset hraw)))

end

theorem settled_pending {line : Text} {after plines : List Text}
    (hsplit : splitInclusive text = pre ++ line :: ['\n'] :: (bodyLines lines ++ gap after))
    (hpre : ∀ raw ∈ pre, trimLineEnd raw ≠ monthsHeading) (hline : trimLineEnd line = monthsHeading)
    (hclosed : closeLine line = line)
    (hafter : after = [] ∨ ∃ next more, after = next :: more ∧ sectionMark.isPrefixOf next = true)
    (hlines : ∀ l ∈ lines, sectionMark.isPrefixOf l = false ∧ blank l = false ∧ trimEnd l = l)
    (hplines : ∀ l ∈ plines, '\n' ∉ l ∧ sectionMark.isPrefixOf l = false)
    (hend : (∀ raw ∈ splitInclusive text, trimLineEnd raw ≠ pendingHeading) →
      CleanEnd text ∧ (after = [] → lines ≠ [])) :
    Settled (splitInclusive (replaceSection text pendingHeading (joinLines plines))) monthsHeading lines := by
  have hnewlines : ∀ l ∈ plines, '\n' ∉ l := fun l hl => (hplines l hl).1
  rcases heading_cases pendingHeading (splitInclusive text) with hnone | ⟨q, pline, prest, hsplit', hq, hpline⟩
  · obtain ⟨hclean, hlisted⟩ := hend hnone
    exact settled_pending_missing hpre hline hclosed hafter hsplit hlines hnewlines hnone hclean hlisted
  · rw [replaceSection_found hsplit' hq hpline hnewlines]
    rw [hsplit] at hsplit'
    rcases List.append_eq_append_iff.mp hsplit' with ⟨c, rfl, hc⟩ | ⟨c, heq, hc⟩
    · cases c with
      | nil =>
        obtain ⟨rfl, -⟩ := List.cons_eq_cons.mp hc
        exact absurd (hline.symm.trans hpline) (by decide)
      | cons raw c =>
        obtain ⟨rfl, hrest⟩ := List.cons_eq_cons.mp hc
        exact settled_pending_behind hpre hline hclosed hafter (fun l hl => (hlines l hl).1) hpline hrest
    · cases c with
      | nil =>
        obtain ⟨rfl, -⟩ := List.cons_eq_cons.mp hc
        exact absurd (hline.symm.trans hpline) (by decide)
      | cons raw c =>
        obtain ⟨rfl, rfl⟩ := List.cons_eq_cons.mp hc
        exact settled_pending_before hpre hline hclosed hafter (fun l hl => (hplines l hl).2) hpline heq

end NilsCli.Devlog
