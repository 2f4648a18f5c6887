import NilsCli.Devlog.Fold

/-!
# Reading by offsets

`blocks` and `Document::parse` index the line mask and cut the text at byte offsets. Written
that way they read the same (`blocksIndexed_eq`); what is left of the panics is a bare heading.
-/

namespace NilsCli.Devlog

open Lib List

/-- `mask[i]`. -/
def maskAt (mask : List Bool) (i : Nat) : Except Fault Bool :=
  match mask[i]? with
  | some structural => .ok structural
  | none => .error .panic

/-- `&contents[start..stop]`. -/
def slice (contents : Text) (start stop : Nat) : Except Fault Text :=
  match cutBytes contents stop with
  | none => .error .panic
  | some (front, _) =>
    match cutBytes front start with
    | none => .error .panic
    | some (_, piece) => .ok piece

/-! ## Reading -/

/-- The first loop of `blocks`. -/
def headingOffsets (mask : List Bool) : Nat → Nat → List Text → Except Fault (List Nat)
  | _, _, [] => .ok []
  | i, offset, line :: lines => do
    let structural ← maskAt mask i
    let rest ← headingOffsets mask (i + 1) (offset + byteLen line) lines
    .ok (if structural && sectionMark.isPrefixOf line then offset :: rest else rest)

/-- The second loop of `blocks`. -/
def readBlocks (contents : Text) : List Nat → Except Fault (List Block)
  | [] => .ok []
  | start :: offsets => do
    let piece ← slice contents start (offsets.headD (byteLen contents))
    -- `text.lines().next().unwrap()` comes before the prefix is removed
    let block ← if linesOf (trimEnd piece ++ ['\n']) = [] then .error .panic
      else parseBlock (trimEnd piece ++ ['\n'])
    let rest ← readBlocks contents offsets
    .ok (block :: rest)

def blocksIndexed (contents : Text) : Except Fault (List Block) :=
  match firstConflictMarker contents with
  | some line => .error (.conflictMarkers line)
  | none =>
    if hasUnterminatedFence (linesOf contents) then
      .error (.invalid "unterminated fenced code block".toList)
    else do
      let offsets ← headingOffsets (structuralLineMask (linesOf contents)) 0 0
        (splitInclusive contents)
      readBlocks contents offsets

/-- The loop of `Document::parse`: where the first heading starts. -/
def firstHeading (mask : List Bool) (length : Nat) : Nat → Nat → List Text → Except Fault Nat
  | _, _, [] => .ok length
  | i, offset, line :: lines => do
    let structural ← maskAt mask i
    if structural && sectionMark.isPrefixOf line then .ok offset
    else firstHeading mask length (i + 1) (offset + byteLen line) lines

def Document.parseIndexed (contents : Text) : Except Fault Document :=
  match headingMonth contents with
  | none => .error (.invalid "expected a month heading".toList)
  | some month => do
    let entries ← blocksIndexed contents
    let first ← firstHeading (structuralLineMask (linesOf contents)) (byteLen contents) 0 0
      (splitInclusive contents)
    let preamble ← slice contents 0 first
    entries.foldlM Document.add ⟨month, trimEnd preamble ++ ['\n'], .empty⟩

/-! ## The offsets are those of the pieces -/

variable {contents front piece text : Text} {mask : List Bool} {lines : List Text}

theorem mapM_eq_error {ε α β : Type} {f : α → Except ε β} {xs : List α} {e : ε} :
    xs.mapM f = .error e ↔ ∃ before x after, xs = before ++ x :: after ∧
      (∀ y ∈ before, ∃ b, f y = .ok b) ∧ f x = .error e := by
  induction xs with
  | nil => simp [Pure.pure, Except.pure]
  | cons x xs ih =>
    rw [mapM_cons]
    cases hx : f x with
    | error e' =>
      rw [show (do let b ← Except.error e'; let bs ← xs.mapM f; pure (b :: bs)) =
        (.error e' : Except ε (List β)) from rfl]
      constructor
      · intro h
        exact ⟨[], x, xs, rfl, by simp, hx.trans (by cases h; rfl)⟩
      · rintro ⟨before, y, after, heq, hbefore, hy⟩
        cases before with
        | nil =>
          obtain ⟨rfl, -⟩ := List.cons_eq_cons.mp heq
          cases hx.symm.trans hy
          rfl
        | cons z before =>
          obtain ⟨rfl, -⟩ := List.cons_eq_cons.mp heq
          obtain ⟨b, hb⟩ := hbefore x mem_cons_self
          rw [hx] at hb
          cases hb
    | ok b =>
      have hrest : (do let bs ← xs.mapM f; pure (b :: bs) : Except ε (List β)) = .error e ↔
          xs.mapM f = .error e := by
        cases xs.mapM f <;> simp [Bind.bind, Except.bind, Pure.pure, Except.pure]
      rw [ok_bind, hrest, ih]
      constructor
      · rintro ⟨before, y, after, rfl, hbefore, hy⟩
        refine ⟨x :: before, y, after, rfl, ?_, hy⟩
        rintro z (_ | ⟨_, hz⟩)
        · exact ⟨b, hx⟩
        · exact hbefore z hz
      · rintro ⟨before, y, after, heq, hbefore, hy⟩
        cases before with
        | nil =>
          obtain ⟨rfl, -⟩ := List.cons_eq_cons.mp heq
          rw [hx] at hy
          cases hy
        | cons z before =>
          obtain ⟨-, rfl⟩ := List.cons_eq_cons.mp heq
          exact ⟨before, y, after, rfl, fun w hw => hbefore w (mem_cons_of_mem _ hw), hy⟩

theorem slice_append (front piece rest : Text) :
    slice (front ++ (piece ++ rest)) (byteLen front)
      (byteLen front + byteLen piece) = .ok piece := by
  rw [slice, ← byteLen_append, ← append_assoc, cutBytes_append]
  dsimp only
  rw [cutBytes_append]

/-- Where the pieces start that follow `offset` bytes. -/
def starts : Nat → List (List Text) → List Nat
  | _, [] => []
  | offset, piece :: pieces => offset :: starts (offset + byteLen piece.flatten) pieces

theorem headingOffsets_eq (before : List Bool) (hlen : mask.length = lines.length) (offset : Nat) :
    headingOffsets (before ++ mask) before.length offset lines =
      .ok (starts (offset + byteLen (pieces (mask.zip lines)).1.flatten)
        (pieces (mask.zip lines)).2) := by
  induction lines generalizing mask before offset with
  | nil =>
    rw [List.length_eq_zero_iff.mp hlen]
    rfl
  | cons line lines ih =>
    cases mask with
    | nil => exact absurd hlen (by simp)
    | cons structural mask =>
      have hrest := ih (before ++ [structural]) (Nat.succ.inj hlen) (offset + byteLen line)
      rw [append_assoc, singleton_append, length_append,
        length_singleton] at hrest
      rw [headingOffsets, maskAt, List.getElem?_append_right (Nat.le_refl _), Nat.sub_self, hrest,
        zip_cons_cons, pieces]
      by_cases hheading : (structural && sectionMark.isPrefixOf line) = true
      · simp [Bind.bind, Except.bind, hheading, starts, byteLen, byteLen_append, Nat.add_assoc]
      · simp [Bind.bind, Except.bind, hheading, byteLen_append, Nat.add_assoc]

theorem firstHeading_eq (before : List Bool) (length : Nat) (hlen : mask.length = lines.length)
    (offset : Nat) (hlength : length = offset + byteLen lines.flatten) :
    firstHeading (before ++ mask) length before.length offset lines =
      .ok (offset + byteLen (pieces (mask.zip lines)).1.flatten) := by
  induction lines generalizing mask before offset with
  | nil =>
    rw [List.length_eq_zero_iff.mp hlen, hlength]
    rfl
  | cons line lines ih =>
    cases mask with
    | nil => exact absurd hlen (by simp)
    | cons structural mask =>
      have hrest := ih (before ++ [structural]) (Nat.succ.inj hlen) (offset + byteLen line)
        (by rw [hlength, flatten_cons, byteLen_append, Nat.add_assoc])
      rw [append_assoc, singleton_append, length_append,
        length_singleton] at hrest
      rw [firstHeading, maskAt, List.getElem?_append_right (Nat.le_refl _), Nat.sub_self, hrest,
        zip_cons_cons, pieces]
      by_cases hheading : (structural && sectionMark.isPrefixOf line) = true
      · simp [Bind.bind, Except.bind, hheading, byteLen]
      · simp [Bind.bind, Except.bind, hheading, byteLen_append, Nat.add_assoc]

theorem flatten_pieces (rows : List (Bool × Text)) :
    (pieces rows).1.flatten ++ ((pieces rows).2.map flatten).flatten =
      (rows.map (·.2)).flatten := by
  induction rows with
  | nil => rfl
  | cons row rows ih =>
    rw [pieces]
    by_cases hheading : (row.1 && sectionMark.isPrefixOf row.2) = true
    · simp [hheading, ← ih]
    · simp [hheading, ← ih]

theorem readBlocks_starts (front : Text) (parts : List (List Text)) :
    readBlocks (front ++ (parts.map flatten).flatten) (starts (byteLen front) parts) =
      parts.mapM fun piece => parseBlock (pieceText piece) := by
  induction parts generalizing front with
  | nil => rfl
  | cons part parts ih =>
    have hstop : (starts (byteLen front + byteLen part.flatten) parts).headD
        (byteLen (front ++ (part.flatten ++ (parts.map flatten).flatten))) =
        byteLen front + byteLen part.flatten := by
      cases parts with
      | nil => simp [starts, byteLen_append]
      | cons => rfl
    have hlines : linesOf (trimEnd part.flatten ++ ['\n']) ≠ [] := by
      intro hnil
      have hflat := flatten_splitInclusive (trimEnd part.flatten ++ ['\n'])
      rw [List.map_eq_nil_iff.mp hnil] at hflat
      simp at hflat
    have hrest := ih (front ++ part.flatten)
    rw [byteLen_append, append_assoc] at hrest
    rw [map_cons, flatten_cons, starts, readBlocks, hstop, slice_append,
      hrest, mapM_cons]
    simp only [Bind.bind, Except.bind, if_neg hlines]
    rfl

theorem mask_length (contents : Text) :
    (structuralLineMask (linesOf contents)).length = (splitInclusive contents).length := by
  rw [structuralLineMask_eq, Fence.length_mask, linesOf, length_map]

theorem contents_pieces (contents : Text) :
    (piecesOf contents).1.flatten ++
      ((piecesOf contents).2.map flatten).flatten = contents := by
  rw [piecesOf, flatten_pieces, map_snd_zip (mask_length contents).ge, flatten_splitInclusive]

theorem blocksIndexed_eq (contents : Text) : blocksIndexed contents = blocks contents := by
  have hoffsets := headingOffsets_eq [] (mask_length contents) 0
  rw [nil_append, length_nil, Nat.zero_add] at hoffsets
  have hread := readBlocks_starts (piecesOf contents).1.flatten (piecesOf contents).2
  rw [contents_pieces] at hread
  unfold blocksIndexed blocks
  rw [hoffsets]
  simp only [Bind.bind, Except.bind]
  rw [← hread]
  rfl

theorem parseIndexed_eq (contents : Text) : Document.parseIndexed contents =
    Document.parse contents := by
  have hfirst := firstHeading_eq [] (byteLen contents) (mask_length contents) 0
    (by rw [flatten_splitInclusive, Nat.zero_add])
  rw [nil_append, length_nil, Nat.zero_add] at hfirst
  have hslice :=
    slice_append [] (piecesOf contents).1.flatten ((piecesOf contents).2.map flatten).flatten
  rw [nil_append, contents_pieces] at hslice
  unfold Document.parseIndexed Document.parse
  cases headingMonth contents with
  | none => rfl
  | some month =>
    dsimp only
    have hbind : ∀ entries : List Block, (do
        let first ← firstHeading (structuralLineMask (linesOf contents)) (byteLen contents) 0 0
          (splitInclusive contents)
        let preamble ← slice contents 0 first
        entries.foldlM Document.add ⟨month, trimEnd preamble ++ ['\n'], .empty⟩) =
        entries.foldlM Document.add ⟨month, pieceText (piecesOf contents).1, .empty⟩ := by
      intro entries
      rw [hfirst, ok_bind]
      rw [show byteLen [] = 0 from rfl, Nat.zero_add] at hslice
      exact congrArg (· >>= _) hslice
    rw [blocksIndexed_eq]
    exact congrArg _ (funext hbind)

/-! ## Bare headings -/

/-- A heading line with nothing but blanks behind its mark. -/
def bareHeading (line : Text) : Bool := sectionMark.isPrefixOf line && blank (line.drop 3)

/-- The heading of a block, and its marker if it has one, are well formed. -/
def WellHeaded (text : Text) : Prop :=
  ∃ heading date title day, trimEnd ((linesOf text).headD []) = sectionMark ++ heading ∧
    splitOnce " - ".toList heading = some (date, title) ∧ parseDate date = some day ∧
    ∀ id, markerId text = some id → ((day.text ++ ['-']).isPrefixOf? id).any validSlug = true

/-- The text can be cut into blocks, and a bare heading follows well-formed ones. -/
def BareReached (contents : Text) : Prop :=
  firstConflictMarker contents = none ∧ hasUnterminatedFence (linesOf contents) = false ∧
    ∃ before line rest after, (piecesOf contents).2 = before ++ (line :: rest) :: after ∧
      (∀ piece ∈ before, WellHeaded (pieceText piece)) ∧ bareHeading line = true

theorem isPrefixOf?_sectionMark (heading : Text) :
    sectionMark.isPrefixOf? (sectionMark ++ heading) = some heading := by
  simp [sectionMark, isPrefixOf?]

theorem parseBlock_ok_iff : (∃ entry, parseBlock text = .ok entry) ↔ WellHeaded text := by
  unfold parseBlock WellHeaded
  cases hprefix : sectionMark.isPrefixOf? (trimEnd ((linesOf text).headD [])) with
  | none =>
    constructor
    · rintro ⟨_, h⟩
      cases h
    · rintro ⟨heading, _, _, _, heq, _⟩
      rw [heq, isPrefixOf?_sectionMark] at hprefix
      cases hprefix
  | some heading =>
    have heq := isPrefixOf?_eq_some hprefix
    have hunique : ∀ other, trimEnd ((linesOf text).headD []) = sectionMark ++ other →
      other = heading :=
      fun other h => append_cancel_left (h.symm.trans heq)
    dsimp only
    cases hsplit : splitOnce " - ".toList heading with
    | none =>
      constructor
      · rintro ⟨_, h⟩
        cases h
      · rintro ⟨other, date, title, day, hother, hcut, _⟩
        rw [hunique other hother, hsplit] at hcut
        cases hcut
    | some parts =>
      obtain ⟨date, title⟩ := parts
      dsimp only
      cases hdate : parseDate date with
      | none =>
        constructor
        · rintro ⟨_, h⟩
          cases h
        · rintro ⟨other, date', title', day, hother, hcut, hday, _⟩
          rw [hunique other hother, hsplit] at hcut
          cases hcut
          rw [hdate] at hday
          cases hday
      | some day =>
        have hother : ∀ P : EntryDate → Prop, (∃ other date' title' day',
            trimEnd ((linesOf text).headD []) = sectionMark ++ other ∧ splitOnce " - ".toList other = some (date', title') ∧
            parseDate date' = some day' ∧ P day') ↔ P day := by
          intro P
          constructor
          · rintro ⟨other, date', title', day', hother, hcut, hday, h⟩
            rw [hunique other hother, hsplit] at hcut
            cases hcut
            rw [hdate] at hday
            cases hday
            exact h
          · exact fun h => ⟨heading, date, title, day, heq, hsplit, hdate, h⟩
        rw [hother]
        dsimp only
        cases hmarker : markerId text with
        | none => simp
        | some id =>
          dsimp only
          simp only [Option.some.injEq, forall_eq']
          cases (day.text ++ ['-']).isPrefixOf? id with
          | none => simp
          | some slug => cases hslug : validSlug slug <;> simp [Option.filter, hslug]

theorem parseBlock_panics_iff :
    parseBlock text = .error .panic ↔
      sectionMark.isPrefixOf (trimEnd ((linesOf text).headD [])) = false := by
  constructor
  · intro h
    unfold parseBlock at h
    split at h
    next hprefix =>
      by_contra hstarts
      rw [Bool.not_eq_false, isPrefixOf_iff_prefix] at hstarts
      obtain ⟨heading, heq⟩ := hstarts
      rw [← heq, isPrefixOf?_sectionMark] at hprefix
      cases hprefix
    next =>
      split at h
      next => cases h
      next =>
        split at h
        next => cases h
        next =>
          split at h
          next => split at h <;> cases h
          next => cases h
  · intro h
    unfold parseBlock
    split
    next => rfl
    next heading hprefix =>
      rw [isPrefixOf?_eq_some hprefix, ← Bool.not_eq_true, isPrefixOf_iff_prefix] at h
      exact absurd (prefix_append _ _) h

theorem bare_trimEnd {line : Text} (h : sectionMark.isPrefixOf line = true) :
    sectionMark.isPrefixOf (trimEnd line) = false ↔ bareHeading line = true := by
  obtain ⟨rest, rfl⟩ := List.isPrefixOf_iff_prefix.mp h
  have hdrop : (sectionMark ++ rest).drop 3 = rest := rfl
  rw [bareHeading, h, Bool.true_and, hdrop]
  cases hblank : blank rest with
  | true =>
    rw [trimEnd_append_blank _ hblank]
    decide
  | false =>
    rw [trimEnd_append_of_not_blank _ hblank]
    simp [List.isPrefixOf_iff_prefix]

theorem piece_of_blocks (hmarkers : firstConflictMarker contents = none)
    (hfences : hasUnterminatedFence (linesOf contents) = false) {piece : List Text}
    (hpiece : piece ∈ (piecesOf contents).2) :
    ∃ before after, splitInclusive contents = before ++ piece ++ after ∧
      fence.IsBlock isHeading piece ∧
      fence.after none piece = none ∧ fence.Quiet isConflictMarker none piece := by
  have hclean := (firstConflictMarker_eq_none _).mp hmarkers
  have hclosed := (unterminated_eq_false _).mp hfences
  rw [piecesOf_eq] at hpiece
  have hflat := @Fence.cut_flatten _ _ fence isHeading none (splitInclusive contents)
  have hheadClosed := Fence.closed_head (p := isHeading) hclosed
  have hcutsClosed := Fence.closed_blocks (p := isHeading) hclosed
  rw [← hflat, Fence.quiet_append, hheadClosed] at hclean
  obtain ⟨before, after, hcuts⟩ := List.append_of_mem hpiece
  refine ⟨(fence.cut isHeading none (splitInclusive contents)).1 ++ before.flatten,
    after.flatten, ?_,
    Fence.cut_blocks piece hpiece, hcutsClosed piece hpiece,
    Fence.quiet_flatten hcutsClosed hclean.2 piece hpiece⟩
  conv_lhs => rw [← hflat, hcuts]
  simp

/-- A block panics just when its heading is bare. -/
theorem piece_panics_iff (hmarkers : firstConflictMarker contents = none)
    (hfences : hasUnterminatedFence (linesOf contents) = false) {line : Text} {rest : List Text}
    (hpiece : line :: rest ∈ (piecesOf contents).2) :
    parseBlock (pieceText (line :: rest)) = .error .panic ↔ bareHeading line = true := by
  obtain ⟨before, after, hsplit, hblock, hclosed, hclean⟩ := piece_of_blocks hmarkers hfences hpiece
  obtain ⟨x, xs, heq, -, hx, -⟩ := hblock.shape
  obtain ⟨rfl, rfl⟩ := List.cons_eq_cons.mp heq
  obtain ⟨init, last, blanks, heq', -, -, hlines, -⟩ := piece_lines hsplit
    ⟨line, mem_cons_self, not_blank_of_section hx⟩ hclosed hclean
  have hfirst : trimEnd ((linesOf (pieceText (line :: rest))).headD []) = trimEnd line := by
    rw [linesOf, hlines]
    cases init with
    | nil =>
      obtain ⟨rfl, -⟩ := List.cons_eq_cons.mp heq'
      rw [nil_append, map_singleton, headD_cons, trimEnd_lineOf, trimEnd_newline,
        trimEnd_trimEnd]
    | cons y init =>
      obtain ⟨rfl, -⟩ := List.cons_eq_cons.mp heq'
      rw [cons_append, map_cons, headD_cons, trimEnd_lineOf]
  rw [parseBlock_panics_iff, hfirst]
  exact bare_trimEnd hx

theorem blocks_panics_iff (contents : Text) : blocks contents = .error .panic ↔
    BareReached contents := by
  unfold blocks BareReached
  cases hmarkers : firstConflictMarker contents with
  | some line => simp
  | none =>
    cases hfences : hasUnterminatedFence (linesOf contents) with
    | true => simp
    | false =>
      simp only [Bool.false_eq_true, if_false, true_and]
      rw [mapM_eq_error]
      constructor
      · rintro ⟨before, piece, after, heq, hbefore, hpanic⟩
        have hpiece : piece ∈ (piecesOf contents).2 := heq ▸ by simp
        obtain ⟨_, _, _, hblock, -⟩ := piece_of_blocks hmarkers hfences hpiece
        obtain ⟨line, rest, rfl, -⟩ := hblock.shape
        exact ⟨before, line, rest, after, heq, fun p hp => parseBlock_ok_iff.mp (hbefore p hp),
          (piece_panics_iff hmarkers hfences hpiece).mp hpanic⟩
      · rintro ⟨before, line, rest, after, heq, hbefore, hbare⟩
        have hpiece : line :: rest ∈ (piecesOf contents).2 := heq ▸ by simp
        exact ⟨before, _, after, heq, fun p hp => parseBlock_ok_iff.mpr (hbefore p hp),
          (piece_panics_iff hmarkers hfences hpiece).mpr hbare⟩

/-- The name of a fragment is a date and a slug. -/
def NamedFragment (name : Text) : Prop :=
  ∃ id date, ".md".toList.isSuffixOf? name = some id ∧ parseDate (id.take 10) = some date ∧
    (['-'].isPrefixOf? (id.drop 10)).any validSlug = true

theorem add_not_panic (doc : Document) (entry : Block) : doc.add entry ≠ .error .panic := by
  unfold Document.add
  split
  · simp
  · split
    · split <;> simp
    · simp

theorem foldlM_add_not_panic (doc : Document) (entries : List Block) :
    entries.foldlM Document.add doc ≠ .error .panic := by
  induction entries generalizing doc with
  | nil => simp [Pure.pure, Except.pure]
  | cons entry entries ih =>
    rw [foldlM_cons]
    cases hadd : doc.add entry with
    | error fault =>
      intro h
      cases h
      exact add_not_panic doc entry hadd
    | ok doc' => exact ih doc'

theorem parse_panics_iff (contents : Text) : Document.parse contents = .error .panic ↔
    (headingMonth contents).isSome ∧ BareReached contents := by
  rw [← blocks_panics_iff, Document.parse]
  cases headingMonth contents with
  | none => simp
  | some month =>
    cases hblocks : blocks contents with
    | error fault => simp [Bind.bind, Except.bind]
    | ok entries =>
      simp only [Option.isSome_some, true_and, reduceCtorEq, iff_false]
      exact foldlM_add_not_panic _ entries

theorem load_panics_iff (name text : Text) :
    (∃ place, load (name, text) = .error (.fault place .panic)) ↔ NamedFragment name ∧
      BareReached text := by
  rw [← blocks_panics_iff]
  unfold load NamedFragment
  dsimp only
  cases hid : ".md".toList.isSuffixOf? name with
  | none => simp
  | some id =>
    cases hdate : parseDate (id.take 10) with
    | none => simp [hdate]
    | some date =>
      cases hslug : ['-'].isPrefixOf? (id.drop 10) with
      | none => simp [hdate, hslug]
      | some slug =>
        by_cases hvalid : validSlug slug = true
        · simp only [hdate, hslug, dif_pos hvalid, Option.some.injEq]
          cases hblocks : blocks text with
          | error fault => simp [hdate, hslug, hvalid]
          | ok entries =>
            simp only [reduceCtorEq, and_false, iff_false]
            rintro ⟨place, h⟩
            rcases entries with _ | ⟨entry, _ | ⟨_, _⟩⟩
            · cases h
            · dsimp only at h
              repeat' split at h
              all_goals cases h
            · cases h
        · simp [hvalid, hdate, hslug]

/-- Every index is in range and every slice is cut between characters; the heading prefix is missing just
where a bare heading is reached. -/
theorem reading_panics_iff (contents : Text) :
    blocksIndexed contents = blocks contents ∧ Document.parseIndexed contents =
      Document.parse contents ∧
      (Document.parse contents ≠ .error .panic ↔
        ¬ ((headingMonth contents).isSome ∧ BareReached contents)) ∧
      ∀ name, (¬ ∃ place, load (name, contents) = .error (.fault place .panic)) ↔
        ¬ (NamedFragment name ∧ BareReached contents) :=
  ⟨blocksIndexed_eq contents, parseIndexed_eq contents, not_congr (parse_panics_iff contents),
    fun name => not_congr (load_panics_iff name contents)⟩

theorem bare_heading_panics :
    Document.parse "# Development log - 2026-01\n\n## \n".toList = .error .panic := by
  have hmonth : (headingMonth "# Development log - 2026-01\n\n## \n".toList).isSome =
    true := by decide
  have hblocks : blocks "# Development log - 2026-01\n\n## \n".toList =
    .error .panic := by decide +kernel
  exact (parse_panics_iff _).mpr ⟨hmonth, (blocks_panics_iff _).mp hblocks⟩

end NilsCli.Devlog
