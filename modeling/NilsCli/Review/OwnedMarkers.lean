import NilsCli.Review.AnchorLines
import NilsCli.Review.Markers
import NilsCli.Review.Path

/-!
# What markers leave of a text

A marker is a line of its own above the text, and taking the markers out of the marked text reads the
text by lines once more.
-/

namespace NilsCli.Review

open Lib List

variable {State Receipt : Type} {lines init : List (List Char)} {line last text body id : List Char}

/-! ## Trimming -/

theorem trimEnd_append_blank (text : List Char) {blank : List Char}
    (h : blank.all isWhitespace = true) : trimEnd (text ++ blank) = trimEnd text := by
  induction blank using reverseRecOn with
  | nil => rw [append_nil]
  | append_singleton blank c ih =>
    rw [all_append, Bool.and_eq_true] at h
    have hc : isWhitespace c = true := by simpa using h.2
    rw [← append_assoc, trimEnd, rdropWhile_concat_pos _ _ _ hc]
    exact ih h.1

theorem trimEnd_append_of_ne_nil (text : List Char) {tail : List Char} (h : trimEnd tail ≠ []) :
    trimEnd (text ++ tail) = text ++ trimEnd tail := by
  induction tail using reverseRecOn with
  | nil => exact absurd rfl h
  | append_singleton tail c ih =>
    unfold trimEnd at h ih ⊢
    rw [← append_assoc]
    by_cases hc : isWhitespace c = true
    · rw [rdropWhile_concat_pos _ _ _ hc] at h ⊢
      rw [rdropWhile_concat_pos _ _ _ hc]
      exact ih h
    · rw [rdropWhile_concat_neg _ _ _ hc, rdropWhile_concat_neg _ _ _ hc,
        append_assoc]

theorem trimEnd_trimEnd (text : List Char) : trimEnd (trimEnd text) = trimEnd text :=
  rdropWhile_idempotent _ _

theorem trimEnd_stripCr (line : List Char) : trimEnd (stripCr line) = trimEnd line := by
  unfold stripCr
  by_cases h : line.getLast? = some '\r'
  · obtain ⟨init, rfl⟩ := getLast?_eq_some_iff.mp h
    rw [if_pos h, dropLast_concat]
    exact (trimEnd_append_blank init (by decide)).symm
  · rw [if_neg h]

@[simp]
theorem trimmed_stripCr (line : List Char) : trimmed (stripCr line) = trimmed line := by
  rw [trimmed, trimEnd_stripCr, trimmed]

@[simp]
theorem trimmed_trimEnd (line : List Char) : trimmed (trimEnd line) = trimmed line := by
  rw [trimmed, trimEnd_trimEnd, trimmed]

@[simp]
theorem ownedMarker_stripCr (line : List Char) : ownedMarker (stripCr line) = ownedMarker line := by
  simp [ownedMarker]

@[simp]
theorem ownedMarker_trimEnd (line : List Char) : ownedMarker (trimEnd line) = ownedMarker line := by
  simp [ownedMarker]

@[simp]
theorem bindingLine_stripCr (line : List Char) : bindingLine (stripCr line) = bindingLine line := by
  simp [bindingLine]

@[simp]
theorem bindingLine_trimEnd (line : List Char) : bindingLine (trimEnd line) = bindingLine line := by
  simp [bindingLine]

/-! ## Lines -/

theorem joined_concat (lines : List (List Char)) (last : List Char) :
    joined (lines ++ [last]) = terminated '\n' lines ++ last := by
  induction lines with
  | nil => simp [joined, terminated]
  | cons line lines ih =>
    have hcons : joined (line :: (lines ++ [last])) = line ++ '\n' :: joined (lines ++ [last]) := by
      cases lines <;> simp [joined, intercalate]
    rw [cons_append, hcons, ih]
    simp [terminated]

/-- The text up to a line feed is read on its own. -/
theorem textLines_append (text rest : List Char) :
    textLines (text ++ '\n' :: rest) = (text.splitOn '\n').map stripCr ++ textLines rest := by
  have hsplit : (text ++ '\n' :: rest).splitOn '\n' = text.splitOn '\n' ++ rest.splitOn '\n' :=
    splitOn_append_cons_self _ _
  have hne : rest.splitOn '\n' ≠ [] := splitOn_ne_nil _ _
  unfold textLines
  dsimp only
  rw [hsplit, dropLast_append_of_ne_nil hne, map_append, getLast?_append_of_ne_nil _ hne,
    append_assoc]

theorem textLines_single (h : '\n' ∉ line) (hne : line ≠ []) : textLines line = [line] := by
  unfold textLines
  dsimp only
  rw [splitOn_eq_singleton h]
  simp [hne]

theorem mem_of_mem_stripCr {c : Char} (h : c ∈ stripCr line) : c ∈ line := by
  unfold stripCr at h
  split at h
  · exact dropLast_subset _ h
  · exact h

theorem textLines_terminated (hinit : ∀ line ∈ init, '\n' ∉ line) (hlast : '\n' ∉ last) :
    textLines (terminated '\n' init ++ last) =
      init.map stripCr ++ if last = [] then [] else [last] := by
  unfold textLines
  dsimp only
  rw [splitOn_terminated_append hinit hlast, dropLast_concat, getLast?_concat]
  by_cases hempty : last = []
  · simp [hempty]
  · simp [hempty]

theorem not_mem_of_mem_textLines (h : line ∈ textLines text) : '\n' ∉ line := by
  obtain ⟨init, last, rfl, hinit, hlast⟩ := exists_terminated_append '\n' text
  rw [textLines_terminated hinit hlast, mem_append, mem_map] at h
  rcases h with ⟨line, hline, rfl⟩ | h
  · exact fun hmem => hinit line hline (mem_of_mem_stripCr hmem)
  · by_cases hempty : last = []
    · simp [hempty] at h
    · simp only [hempty, if_false, mem_singleton] at h
      exact h ▸ hlast

theorem stripCr_eq_self_iff : stripCr line = line ↔ line.getLast? ≠ some '\r' := by
  unfold stripCr
  by_cases h : line.getLast? = some '\r'
  · obtain ⟨init, rfl⟩ := getLast?_eq_some_iff.mp h
    rw [if_pos h, dropLast_concat]
    simp
  · rw [if_neg h]
    exact iff_of_true rfl h

/-- A line of white space only. -/
def blankLine (line : List Char) : Bool := line.all isWhitespace

theorem trimEnd_joined (lines : List (List Char)) :
    lines.rdropWhile blankLine = [] ∧ trimEnd (joined lines) = [] ∨
      ∃ init last, lines.rdropWhile blankLine = init ++ [last] ∧ trimEnd last ≠ [] ∧
        trimEnd (joined lines) = terminated '\n' init ++ trimEnd last := by
  induction lines using reverseRecOn with
  | nil => exact .inl ⟨rfl, rfl⟩
  | append_singleton lines line ih =>
    by_cases hblank : blankLine line = true
    · have htrim : trimEnd (joined (lines ++ [line])) = trimEnd (joined lines) := by
        rw [joined_concat, trimEnd_append_blank _ hblank]
        rcases eq_nil_or_concat lines with rfl | ⟨before, last, rfl⟩
        · rfl
        · rw [concat_eq_append, terminated_append, terminated_singleton, joined_concat,
            ← append_assoc]
          exact trimEnd_append_blank _ (by decide)
      rw [htrim, rdropWhile_concat_pos _ _ _ hblank]
      exact ih
    · have hne : trimEnd line ≠ [] := fun hnil =>
        hblank (List.all_eq_true.mpr (List.rdropWhile_eq_nil_iff.mp hnil))
      refine .inr ⟨lines, line, rdropWhile_concat_neg _ _ _ hblank, hne, ?_⟩
      rw [joined_concat, trimEnd_append_of_ne_nil _ hne]

/-! ## Reading a text again -/

/-- No line between the text's own lines still ends in a carriage return when it is read. -/
def SettledLines (body : List Char) : Prop :=
  ∀ line ∈ ((unownedLines body).rdropWhile blankLine).dropLast, line.getLast? ≠ some '\r'

theorem terminated_inj {rs rs' : List (List Char)} (hrs : ∀ r ∈ rs, '\n' ∉ r)
    (hrs' : ∀ r ∈ rs', '\n' ∉ r) (h : terminated '\n' rs = terminated '\n' rs') : rs = rs' := by
  have hsplit := congrArg (splitOn '\n') h
  rw [splitOn_terminated hrs, splitOn_terminated hrs'] at hsplit
  exact append_cancel_right hsplit

/-- A stripped text that is stripped again. -/
theorem strip_strip_iff (body : List Char) :
    stripOwnedMarkers (stripOwnedMarkers body) = stripOwnedMarkers body ↔ SettledLines body := by
  unfold SettledLines
  rcases trimEnd_joined (unownedLines body) with ⟨hkept, hstrip⟩ | ⟨init, last, hkept, hne, hstrip⟩
  · have hempty : stripOwnedMarkers body = [] := hstrip
    rw [hkept, hempty]
    exact iff_of_true rfl (by simp)
  · have hmem : ∀ line ∈ init ++ [last], '\n' ∉ line ∧ ownedMarker line = false := by
      intro line hline
      rw [← hkept] at hline
      have hline' := (List.rdropWhile_prefix _ _).subset hline
      obtain ⟨htext, hunowned⟩ := List.mem_filter.mp hline'
      exact ⟨not_mem_of_mem_textLines htext, by simpa using hunowned⟩
    have hinit : ∀ line ∈ init, '\n' ∉ line := fun line hline =>
      (hmem line (mem_append_left _ hline)).1
    have hlast := hmem last (mem_append_right _ (mem_singleton_self _))
    have hlast' : '\n' ∉ trimEnd last := fun h => hlast.1 ((List.rdropWhile_prefix _ _).subset h)
    have hstripCr : ∀ line ∈ init.map stripCr, '\n' ∉ line := by
      intro line hline
      obtain ⟨before, hbefore, rfl⟩ := List.mem_map.mp hline
      exact fun h => hinit before hbefore (mem_of_mem_stripCr h)
    have hagain : unownedLines (terminated '\n' init ++ trimEnd last) =
        init.map stripCr ++ [trimEnd last] := by
      rw [unownedLines, textLines_terminated hinit hlast', if_neg hne]
      refine List.filter_eq_self.mpr fun line hline => ?_
      rcases List.mem_append.mp hline with hline | hline
      · obtain ⟨before, hbefore, rfl⟩ := List.mem_map.mp hline
        simp [(hmem before (mem_append_left _ hbefore)).2]
      · rw [List.mem_singleton.mp hline]
        simp [hlast.2]
    rw [hkept, dropLast_concat]
    have hstrip' : stripOwnedMarkers body = terminated '\n' init ++ trimEnd last := hstrip
    rw [hstrip', stripOwnedMarkers, hagain, joined_concat,
      trimEnd_append_of_ne_nil _ (by rwa [trimEnd_trimEnd]), trimEnd_trimEnd,
      append_left_inj]
    constructor
    · intro h line hline
      have hmap := terminated_inj hstripCr hinit h
      rw [← map_id init, map_map] at hmap
      exact stripCr_eq_self_iff.mp (List.map_inj_left.mp hmap line hline)
    · intro h
      have hmap : init.map stripCr = init.map fun line => line :=
        map_congr_left fun line hline => stripCr_eq_self_iff.mpr (h line hline)
      rw [hmap, map_id']

/-! ## Markers as lines -/

theorem isPrefixOf_append (pre rest : List Char) : pre.isPrefixOf (pre ++ rest) = true :=
  List.isPrefixOf_iff_prefix.mpr (prefix_append pre rest)

/-- A text is no prefix of one that begins in another way. -/
theorem isPrefixOf_append_of_ne {pre other : List Char}
    (h : (pre.isPrefixOf other || other.isPrefixOf pre) = false) (rest : List Char) :
    pre.isPrefixOf (other ++ rest) = false := by
  by_contra hprefix
  have hpre : pre <+: other ++ rest := List.isPrefixOf_iff_prefix.mp (by simpa using hprefix)
  rw [Bool.or_eq_false_iff] at h
  rcases prefix_or_prefix_of_prefix hpre (prefix_append other rest) with hle | hle
  · exact Bool.false_ne_true (h.1.symm.trans (List.isPrefixOf_iff_prefix.mpr hle))
  · exact Bool.false_ne_true (h.2.symm.trans (List.isPrefixOf_iff_prefix.mpr hle))

theorem isPrefixOf?_append (pre rest : List Char) : pre.isPrefixOf? (pre ++ rest) = some rest := by
  induction pre with
  | nil => cases rest <;> rfl
  | cons c pre ih => simp [isPrefixOf?, ih]

theorem isSuffixOf?_append (text suffix : List Char) :
    suffix.isSuffixOf? (text ++ suffix) = some text := by
  rw [isSuffixOf?, reverse_append, isPrefixOf?_append]
  simp

/-- What a marker is as a line. -/
structure MarkerLine (line : List Char) : Prop where
  single : '\n' ∉ line
  trimmed_eq : trimmed line = line
  ne_nil : line ≠ []
  trimEnd_eq : trimEnd line = line

theorem MarkerLine.stripCr_eq (h : MarkerLine line) : stripCr line = line := by
  refine stripCr_eq_self_iff.mpr fun hlast => ?_
  obtain ⟨init, rfl⟩ := getLast?_eq_some_iff.mp hlast
  have hlength := congrArg List.length h.trimEnd_eq
  rw [trimEnd_append_blank init (by decide), length_append, length_singleton] at hlength
  have hle := (List.rdropWhile_prefix (p := isWhitespace) init).length_le
  unfold trimEnd at hlength
  omega

theorem MarkerLine.marker {c : Char} {pre : List Char} (hc : isWhitespace c = false)
    (hpre : '\n' ∉ c :: pre) {middle : List Char} (hmiddle : '\n' ∉ middle) :
    MarkerLine (c :: pre ++ middle ++ markerClose) := by
  have hclose : trimEnd markerClose = markerClose := by decide
  have htrim : trimEnd (c :: pre ++ middle ++ markerClose) = c :: pre ++ middle ++ markerClose := by
    rw [trimEnd_append_of_ne_nil _ (by rw [hclose]; decide), hclose]
  have hsingle : '\n' ∉ markerClose := by decide
  refine ⟨by simp only [mem_append, not_or]; exact ⟨⟨hpre, hmiddle⟩, hsingle⟩, ?_, by simp, htrim⟩
  rw [trimmed, htrim, cons_append, cons_append, dropWhile_cons_of_neg (by simp [hc])]

/-- A text under a line that ends in no carriage return. -/
theorem textLines_under (h : MarkerLine line) (text : List Char) :
    textLines (line ++ '\n' :: text) = line :: textLines text := by
  rw [textLines_append, splitOn_eq_singleton h.single, map_singleton, h.stripCr_eq]
  rfl

theorem strip_under (h : MarkerLine line) (howned : ownedMarker line = true) (text : List Char) :
    stripOwnedMarkers (line ++ '\n' :: text) = stripOwnedMarkers text := by
  rw [stripOwnedMarkers, unownedLines, textLines_under h, filter_cons_of_neg (by simp [howned])]
  rfl

theorem newline_not_mem (h : ∀ c ∈ text, isWhitespace c = false) : '\n' ∉ text := fun hmem =>
  absurd (h '\n' hmem) (by decide)

theorem reviewRunMarker_line (hid : ∀ c ∈ id, isWhitespace c = false) :
    MarkerLine (reviewRunMarker id) :=
  .marker (c := '<') (by decide) (by decide) (newline_not_mem hid)

theorem findingMarker_line {digest : List Char} (hid : ∀ c ∈ id, isWhitespace c = false)
    (hdigest : ∀ c ∈ digest, isWhitespace c = false) : MarkerLine (findingMarker id digest) := by
  have hlabel : '\n' ∉ digestLabel := by decide
  have hmiddle : '\n' ∉ id ++ digestLabel ++ digest := by
    simp only [mem_append, not_or]
    exact ⟨⟨newline_not_mem hid, hlabel⟩, newline_not_mem hdigest⟩
  have hshape : findingMarker id digest =
      '<' :: findingMarkerPrefix.tail ++ (id ++ digestLabel ++ digest) ++ markerClose := by
    simp only [findingMarker, append_assoc]
    rfl
  rw [hshape]
  exact .marker (by decide) (by decide) hmiddle

theorem publicationBinding_line {digest : String}
    (hdigest : ∀ c ∈ digest.toList, isWhitespace c = false) :
    MarkerLine (publicationBinding digest) :=
  .marker (c := '<') (by decide) (by decide) (newline_not_mem hdigest)

theorem ownedMarker_reviewRun (hid : ∀ c ∈ id, isWhitespace c = false) :
    ownedMarker (reviewRunMarker id) = true := by
  have hprefix : reviewRunMarkerPrefix.isPrefixOf (reviewRunMarker id) = true := by
    rw [reviewRunMarker, append_assoc]
    exact isPrefixOf_append _ _
  rw [ownedMarker, (reviewRunMarker_line hid).trimmed_eq, hprefix]
  rfl

theorem ownedMarker_finding {digest : List Char} (hid : ∀ c ∈ id, isWhitespace c = false)
    (hdigest : ∀ c ∈ digest, isWhitespace c = false) :
    ownedMarker (findingMarker id digest) = true := by
  have hprefix : findingMarkerPrefix.isPrefixOf (findingMarker id digest) = true := by
    simp only [findingMarker, append_assoc]
    exact isPrefixOf_append _ _
  rw [ownedMarker, (findingMarker_line hid hdigest).trimmed_eq, hprefix, Bool.or_true]
  rfl

theorem bindingLine_reviewRun (hid : ∀ c ∈ id, isWhitespace c = false) :
    bindingLine (reviewRunMarker id) = false := by
  rw [bindingLine, (reviewRunMarker_line hid).trimmed_eq, reviewRunMarker, append_assoc]
  exact isPrefixOf_append_of_ne (by decide) _

theorem ownedMarker_binding {digest : String} (hdigest : ∀ c ∈ digest.toList, isWhitespace c = false) :
    ownedMarker (publicationBinding digest) = false := by
  rw [ownedMarker, (publicationBinding_line hdigest).trimmed_eq, publicationBinding,
    append_assoc, isPrefixOf_append_of_ne (by decide), isPrefixOf_append_of_ne (by decide),
    isPrefixOf_append_of_ne (by decide), isPrefixOf_append_of_ne (by decide)]
  rfl

/-! ## Reading the markers -/

theorem ne_nil_of_parseReviewRunId (h : parseReviewRunId body = some id) : id ≠ [] := by
  obtain ⟨line, -, hline⟩ := List.exists_of_findSome?_eq_some h
  simp only [runIdOf, Option.bind_eq_bind, Option.bind_eq_some_iff] at hline
  obtain ⟨_, -, value, -, hvalue⟩ := hline
  split at hvalue
  next hcond =>
    cases hvalue
    exact hcond.1
  next => cases hvalue

section

variable (hid : ∀ c ∈ id, isWhitespace c = false)

include hid

theorem runIdOf_marker (hne : id ≠ []) :
    runIdOf (reviewRunMarker id) = some id := by
  have hcond : id ≠ [] ∧ ¬ id.any isWhitespace = true := ⟨hne, by simpa using hid⟩
  unfold runIdOf
  rw [(reviewRunMarker_line hid).trimmed_eq, reviewRunMarker, append_assoc, isPrefixOf?_append]
  simp only [Option.bind_eq_bind, Option.bind_some, isSuffixOf?_append, if_pos hcond]

theorem parseReviewRunId_marked (hne : id ≠ [])
    (body : List Char) : parseReviewRunId (markedReviewBody body id) = some id := by
  have hline := reviewRunMarker_line hid
  have hrest : ∃ rest, textLines (markedReviewBody body id) = reviewRunMarker id :: rest := by
    unfold markedReviewBody
    split
    · exact ⟨[], textLines_single hline.single hline.ne_nil⟩
    · exact ⟨_, textLines_under hline body⟩
  obtain ⟨rest, hrest⟩ := hrest
  rw [parseReviewRunId, hrest, List.findSome?_cons, runIdOf_marker hid hne]

theorem findingOf_marker {digest : List Char} (hne : id ≠ [])
    (hdigest : ∀ c ∈ digest, isWhitespace c = false) (hdigestNe : digest ≠ []) :
    findingOf (findingMarker id digest) = some (id, digest) := by
  have hspace : ' ' ∉ id := fun hmem => absurd (hid ' ' hmem) (by decide)
  have hsplit : splitOnce digestLabel (id ++ digestLabel ++ digest) = some (id, digest) :=
    splitOnce_append hspace digest
  have hshape : findingMarker id digest =
      findingMarkerPrefix ++ (id ++ digestLabel ++ digest ++ markerClose) := by
    simp only [findingMarker, append_assoc]
  have hcond : ¬ (id = [] ∨ digest = []) := not_or.mpr ⟨hne, hdigestNe⟩
  unfold findingOf
  rw [(findingMarker_line hid hdigest).trimmed_eq, hshape, isPrefixOf?_append]
  simp only [Option.bind_eq_bind, Option.bind_some, isSuffixOf?_append, hsplit, if_neg hcond]

theorem parseFindingMarker_under {digest : List Char}
    (hne : id ≠ []) (hdigest : ∀ c ∈ digest, isWhitespace c = false) (hdigestNe : digest ≠ [])
    (text : List Char) :
    parseFindingMarker (findingMarker id digest ++ '\n' :: text) = some (id, digest) := by
  rw [parseFindingMarker, textLines_under (findingMarker_line hid hdigest), List.findSome?_cons,
    findingOf_marker hid hne hdigest hdigestNe]

theorem strip_markedReviewBody (body : List Char) :
    stripOwnedMarkers (markedReviewBody body id) = stripOwnedMarkers body := by
  have hline := reviewRunMarker_line hid
  unfold markedReviewBody
  split
  next hempty =>
    have hnone : unownedLines (reviewRunMarker id) = [] := by
      rw [unownedLines, textLines_single hline.single hline.ne_nil]
      simp [ownedMarker_reviewRun hid]
    rw [stripOwnedMarkers, hnone, hempty]
    rfl
  next => exact strip_under hline (ownedMarker_reviewRun hid) body

end

variable {host : Host State Receipt} {chain : ReviewStateChain State Receipt} {digest : String}

theorem textLines_bindNativeReport (hlatest : latestHandoffDigest chain = some digest)
    (hdigest : ∀ c ∈ digest.toList, isWhitespace c = false) (body : List Char) :
    ∃ parts, textLines (bindNativeReport chain body) = parts ++ [publicationBinding digest] ∧
      ∀ part ∈ parts, bindingLine part = false := by
  have hline := publicationBinding_line hdigest
  have hunbound : ∀ line ∈ (textLines body).filter fun line => !bindingLine line,
      '\n' ∉ line ∧ bindingLine line = false := by
    intro line hmem
    obtain ⟨htext, hline⟩ := List.mem_filter.mp hmem
    exact ⟨not_mem_of_mem_textLines htext, by simpa using hline⟩
  rw [bindNativeReport, hlatest]
  dsimp only
  generalize (textLines body).filter (fun line => !bindingLine line) = lines at hunbound
  have hparts : ∀ part ∈ (trimEnd (joined lines)).splitOn '\n', bindingLine part = false := by
    rcases trimEnd_joined lines with ⟨-, htrim⟩ | ⟨init, last, hkept, -, htrim⟩
    · rw [htrim]
      intro part hpart
      rw [List.mem_singleton.mp hpart]
      decide
    · have hmem : ∀ line ∈ init ++ [last], '\n' ∉ line ∧ bindingLine line = false := by
        intro line hline
        rw [← hkept] at hline
        exact hunbound line ((List.rdropWhile_prefix _ _).subset hline)
      have hlast := hmem last (mem_append_right _ (mem_singleton_self _))
      have hfeed : '\n' ∉ trimEnd last := fun h => hlast.1 ((List.rdropWhile_prefix _ _).subset h)
      rw [htrim, splitOn_terminated_append
        (fun line hline => (hmem line (mem_append_left _ hline)).1) hfeed]
      intro part hpart
      rcases List.mem_append.mp hpart with hpart | hpart
      · exact (hmem part (mem_append_left _ hpart)).2
      · rw [List.mem_singleton.mp hpart, bindingLine_trimEnd]
        exact hlast.2
  refine ⟨((trimEnd (joined lines)).splitOn '\n').map stripCr ++ [[]], ?_, ?_⟩
  · have hempty : textLines ('\n' :: publicationBinding digest) = [[], publicationBinding digest] := by
      have happend := textLines_append [] (publicationBinding digest)
      rw [textLines_single hline.single hline.ne_nil] at happend
      exact happend
    rw [textLines_append, hempty, append_assoc]
    rfl
  · intro part hpart
    rcases List.mem_append.mp hpart with hpart | hpart
    · obtain ⟨before, hbefore, rfl⟩ := List.mem_map.mp hpart
      rw [bindingLine_stripCr]
      exact hparts before hbefore
    · rw [List.mem_singleton.mp hpart]
      decide

theorem publicationMatchesInterval_marked (hlatest : latestHandoffDigest chain = some digest)
    (hdigest : ∀ c ∈ digest.toList, isWhitespace c = false)
    (hid : ∀ c ∈ id, isWhitespace c = false) (body : List Char) :
    publicationMatchesInterval chain
      (markedReviewBody (stripOwnedMarkers (bindNativeReport chain body)) id) = true := by
  have hline := publicationBinding_line hdigest
  have hreview := reviewRunMarker_line hid
  obtain ⟨parts, hbound, hparts⟩ := textLines_bindNativeReport hlatest hdigest body
  have hsingle : ∀ part ∈ parts.filter (fun line => !ownedMarker line), '\n' ∉ part := by
    intro part hpart
    have hmem : part ∈ textLines (bindNativeReport chain body) := by
      rw [hbound]
      exact mem_append_left _ (mem_of_mem_filter hpart)
    exact not_mem_of_mem_textLines hmem
  have hstrip : stripOwnedMarkers (bindNativeReport chain body) =
      terminated '\n' (parts.filter fun line => !ownedMarker line) ++ publicationBinding digest := by
    have hkept : [publicationBinding digest].filter (fun line => !ownedMarker line) =
        [publicationBinding digest] := by
      simp [ownedMarker_binding hdigest]
    rw [stripOwnedMarkers, unownedLines, hbound, filter_append, hkept, joined_concat,
      trimEnd_append_of_ne_nil _ (by rw [hline.trimEnd_eq]; exact hline.ne_nil), hline.trimEnd_eq]
  have hlines : textLines (markedReviewBody (stripOwnedMarkers (bindNativeReport chain body)) id) =
      (reviewRunMarker id :: (parts.filter fun line => !ownedMarker line).map stripCr) ++
        [publicationBinding digest] := by
    have hne : stripOwnedMarkers (bindNativeReport chain body) ≠ [] := by
      rw [hstrip]
      exact append_ne_nil_of_right_ne_nil _ hline.ne_nil
    rw [markedReviewBody, if_neg hne, textLines_under hreview, hstrip,
      textLines_terminated hsingle hline.single, if_neg hline.ne_nil]
    rfl
  have hnone : (reviewRunMarker id :: (parts.filter fun line => !ownedMarker line).map stripCr).filter
      bindingLine = [] := by
    refine List.filter_eq_nil_iff.mpr fun line hmem => ?_
    rcases List.mem_cons.mp hmem with rfl | hmem
    · simp [bindingLine_reviewRun hid]
    · obtain ⟨part, hpart, rfl⟩ := List.mem_map.mp hmem
      simp [hparts part (mem_of_mem_filter hpart)]
  have hbinding : bindingLine (publicationBinding digest) = true := by
    rw [bindingLine, hline.trimmed_eq, publicationBinding, append_assoc]
    exact isPrefixOf_append _ _
  have hmarkers : ((textLines (markedReviewBody (stripOwnedMarkers (bindNativeReport chain body))
      id)).map trimmed).filter publicationBindingPrefix.isPrefixOf = [publicationBinding digest] := by
    rw [filter_map]
    show List.map trimmed (List.filter bindingLine _) = _
    rw [hlines, filter_append, hnone, nil_append, filter_cons_of_pos hbinding,
      filter_nil, map_singleton, hline.trimmed_eq]
  rw [publicationMatchesInterval, hmarkers, hlatest]
  simp

/-! ## Digests -/

theorem hexDigit_not_whitespace {c : Char} (h : isAsciiHexDigit c = true) : isWhitespace c = false := by
  simp only [isAsciiHexDigit, isAsciiDigit, charIn, decide_eq_true_eq] at h
  have hbounds : '0'.toNat = 48 ∧ '9'.toNat = 57 ∧ 'a'.toNat = 97 ∧ 'f'.toNat = 102 ∧
      'A'.toNat = 65 ∧ 'F'.toNat = 70 := by decide
  simp only [isWhitespace, decide_eq_false_iff_not]
  omega

theorem digestValid_chars (h : digestValid digest = true) :
    digest.toList ≠ [] ∧ ∀ c ∈ digest.toList, isWhitespace c = false := by
  unfold digestValid stripPrefix? at h
  split at h
  next v hv =>
    split at hv
    next hprefix =>
      cases hv
      obtain ⟨rest, hrest⟩ := List.isPrefixOf_iff_prefix.mp hprefix
      rw [← hrest, drop_left, Bool.and_eq_true, all_eq_true] at h
      rw [← hrest]
      refine ⟨append_ne_nil_of_left_ne_nil (by decide) _, fun c hc => ?_⟩
      rcases List.mem_append.mp hc with hc | hc
      · have hall : "sha256:".toList.all (fun c => !isWhitespace c) = true := by decide
        simpa using List.all_eq_true.mp hall c hc
      · exact hexDigit_not_whitespace (h.2 c hc)
    next => cases hv
  next => cases h

variable [DecidableEq State] [DecidableEq Receipt]

theorem digest_of_parseChain {repository : String} {pr : Nat} {comments : List String}
    (h : parseChain host repository pr comments = .ok chain)
    (hlatest : latestHandoffDigest chain = some digest) : ∃ text, digest = host.sha256Digest text := by
  obtain ⟨record, hrecord, rfl⟩ := Option.map_eq_some_iff.mp hlatest
  have hmem : record ∈ chain.records := List.mem_reverse.mp (List.mem_of_find?_eq_some hrecord)
  obtain ⟨records, -, ⟨-, rfl⟩ | ⟨byDigest, root, path, ignored, hindex, hroot, hwalk, hcount, rfl⟩⟩ :=
    parseChain_walked h
  · cases hmem
  · have hlineage := walk_lineage hindex hroot hwalk hcount
    exact ⟨_, (hlineage.digest record (hlineage.sub record hmem)).symm⟩

structure OwnedMarkersKept (host : Host State Receipt) (chain : ReviewStateChain State Receipt)
    (index : Nat) (spec : PreparedReviewThreadSpec) (id : List Char) : Prop where
  review : stripOwnedMarkers (markedReviewBody (stripOwnedMarkers spec.body) id) =
    stripOwnedMarkers spec.body
  thread : stripOwnedMarkers
    (markedReviewThreadSpec spec id (reviewManifestItem host index spec)).body =
      stripOwnedMarkers spec.body
  runId : parseReviewRunId (markedReviewBody (stripOwnedMarkers spec.body) id) = some id
  finding : parseFindingMarker
    (markedReviewThreadSpec spec id (reviewManifestItem host index spec)).body =
      some (id, (semanticDigest host spec.body).toList)
  report : publicationMatchesInterval chain
    (markedReviewBody (stripOwnedMarkers (bindNativeReport chain spec.body)) id) = true
  /-- The digest of the copy that is read back is that in the manifest. -/
  digest : semanticDigest host
    (markedReviewThreadSpec spec id (reviewManifestItem host index spec)).body =
      (reviewManifestItem host index spec).bodyDigest

/-- Owned markers do not change the content of a review exactly where the run has an id and no line
that is read of the text, but the last, still ends in a carriage return. -/
theorem owned_markers_kept {repository : String} {pr : Nat} {comments : List String}
    (hparse : parseChain host repository pr comments = .ok chain)
    (hhandoff : (latestHandoffDigest chain).isSome)
    (hdigest : ∀ text, digestValid (host.sha256Digest text) = true)
    (hid : ∀ c ∈ id, isWhitespace c = false) (index : Nat) (spec : PreparedReviewThreadSpec) :
    OwnedMarkersKept host chain index spec id ↔ id ≠ [] ∧ SettledLines spec.body := by
  obtain ⟨bodyNe, bodyDigest⟩ := digestValid_chars (hdigest (.ofList (stripOwnedMarkers spec.body)))
  have hthread : stripOwnedMarkers
      (markedReviewThreadSpec spec id (reviewManifestItem host index spec)).body =
        stripOwnedMarkers (stripOwnedMarkers spec.body) :=
    strip_under (findingMarker_line hid bodyDigest) (ownedMarker_finding hid bodyDigest) _
  constructor
  · intro h
    refine ⟨ne_nil_of_parseReviewRunId h.runId, (strip_strip_iff _).mp ?_⟩
    rw [← hthread, h.thread]
  · rintro ⟨hne, hsettled⟩
    have hstrip := (strip_strip_iff _).mpr hsettled
    obtain ⟨latest, hlatest⟩ := Option.isSome_iff_exists.mp hhandoff
    obtain ⟨text, rfl⟩ := digest_of_parseChain hparse hlatest
    refine ⟨?_, hthread.trans hstrip, parseReviewRunId_marked hid hne _,
      parseFindingMarker_under hid hne bodyDigest bodyNe _,
      publicationMatchesInterval_marked hlatest (digestValid_chars (hdigest text)).2 hid _, ?_⟩
    · rw [strip_markedReviewBody hid, hstrip]
    · rw [semanticDigest, hthread, hstrip]
      rfl

/-! ## A line with two carriage returns -/

def hexText (c : Char) : String := "sha256:" ++ .ofList (List.replicate 64 c)

def reportHandoff : ReviewHandoff :=
  { approvalPolicy := .sourcePass, coordinatorDigest := hexText 'c', reviewerDigest := hexText 'd'
    reviewAuthor := "octo", baseSha := "aaaaaaaaaaaaaaaaaaaaaaaaaaaaaaaaaaaaaaaa"
    assignedHead := "bbbbbbbbbbbbbbbbbbbbbbbbbbbbbbbbbbbbbbbb", returnedReason := none
    assignmentGeneration := 1, surrendered := false, coordinatorTransfer := none
    baseRef := "main" }

def reportRecord : ReviewStateRecord Empty Empty :=
  { schema := reviewStateSchema, repository := "o/r", pr := 1, expectedHead := "h"
    generation := 0, previousDigest := none, payload := .reviewHandoff reportHandoff
    assignmentGeneration := some 1, recordDigest := hexText 'e' }

def reportHost : Host Empty Empty where
  sha256Digest _ := hexText 'e'
  preimageText _ := ""
  parseStateMarker _ := .ok (some reportRecord)
  marker _ := .ok ""
  renderStateCommentBody _ _ := .ok ""
  validTimestamp _ := true
  validRole _ := true
  headSha := nofun
  attemptedHeadSha := nofun
  validateReviewLoopState := nofun
  validateCorrection _ _ := .ok ()
  validateSupersession _ _ := .ok ()
  validateAcceptance _ _ := .ok ()

def reportChain : ReviewStateChain Empty Empty := ⟨[reportRecord], some (hexText 'e'), []⟩

theorem parseChain_report : parseChain reportHost "o/r" 1 ["m"] = .ok reportChain := by
  decide

theorem digestValid_report (text : String) : digestValid (reportHost.sha256Digest text) = true :=
  show digestValid (hexText 'e') = true by decide

/-- A thread with this text. -/
def threadSpec (body : List Char) : PreparedReviewThreadSpec where
  path := "a"
  body := body
  line := some 1
  side := .right
  startLine := none
  startSide := none
  subjectType := .line

theorem owned_markers_kept_report :
    OwnedMarkersKept reportHost reportChain 0 (threadSpec ['a', '\r', '\n', 'b']) ['r'] ↔
      ['r'] ≠ [] ∧ SettledLines ['a', '\r', '\n', 'b'] :=
  owned_markers_kept parseChain_report (by decide) digestValid_report
    (List.forall_mem_singleton.mpr rfl) 0
    (threadSpec ['a', '\r', '\n', 'b'])

theorem owned_markers_lost : ¬ ∀ {State Receipt : Type} [DecidableEq State] [DecidableEq Receipt]
    (host : Host State Receipt) (repository : String) (pr : Nat) (comments : List String)
    (chain : ReviewStateChain State Receipt) (index : Nat) (spec : PreparedReviewThreadSpec)
    (id : List Char), parseChain host repository pr comments = .ok chain →
    (latestHandoffDigest chain).isSome → (∀ text, digestValid (host.sha256Digest text) = true) →
    (∀ c ∈ id, isWhitespace c = false) → id ≠ [] → OwnedMarkersKept host chain index spec id := by
  intro hall
  have hkept := hall reportHost "o/r" 1 ["m"] reportChain 0 (threadSpec ['a', '\r', '\r', '\n', 'b'])
    ['r'] parseChain_report (by decide) digestValid_report (List.forall_mem_singleton.mpr rfl)
    (by decide)
  have hlost : stripOwnedMarkers (markedReviewBody
      (stripOwnedMarkers ['a', '\r', '\r', '\n', 'b']) ['r']) ≠
        stripOwnedMarkers ['a', '\r', '\r', '\n', 'b'] := by decide
  exact hlost hkept.review

end NilsCli.Review
