import Mathlib.Data.Char
import Mathlib.Data.List.Lex
import NilsCli.Lib.SortedMap
import NilsCli.Devlog.Sections

/-!
# Month documents

A month file is read as a preamble and entry blocks, keyed by their identities; its pieces are those
of the general cut of a fenced list.
-/

namespace NilsCli.Devlog

open Lib List

/-! ## Blocks -/

/-- Why a text is not accepted. -/
inductive Fault where
  | conflictMarkers (line : Nat)
  | invalid (detail : Text)
  | panic
  deriving DecidableEq

/-- An entry block. -/
structure Block where
  date : EntryDate
  slug : Text
  identity : Text
  text : Text
  deriving DecidableEq

def idMark : Text := "<!-- devlog-id: ".toList

def validSlug (slug : Text) : Bool :=
  slug ≠ [] ∧ slug.length ≤ 180 ∧ slug.all fun c => isAsciiLower c || isAsciiDigit c || c = '-'

def pieces : List (Bool × Text) → List Text × List (List Text)
  | [] => ([], [])
  | row :: rows =>
    let rest := pieces rows
    if row.1 && sectionMark.isPrefixOf row.2 then ([], (row.2 :: rest.1) :: rest.2)
    else (row.2 :: rest.1, rest.2)

def piecesOf (contents : Text) : List Text × List (List Text) :=
  pieces ((structuralLineMask (linesOf contents)).zip (splitInclusive contents))

def pieceText (piece : List Text) : Text := trimEnd piece.flatten ++ ['\n']

def markerId (text : Text) : Option Text :=
  ((linesOf text)[1]?.bind (idMark.isPrefixOf? ·)).bind (" -->".toList.isSuffixOf? ·)

def parseBlock (text : Text) : Except Fault Block :=
  match sectionMark.isPrefixOf? (trimEnd ((linesOf text).headD [])) with
  | none => .error .panic
  | some heading =>
    match splitOnce " - ".toList heading with
    | none => .error (.invalid "malformed entry heading".toList)
    | some (date, title) =>
      match parseDate date with
      | none => .error (.invalid "invalid entry date".toList)
      | some date =>
        match markerId text with
        | some id =>
          match ((date.text ++ ['-']).isPrefixOf? id).filter validSlug with
          | none => .error (.invalid "invalid devlog identity".toList)
          | some slug => .ok ⟨date, slug, id, text⟩
        | none => .ok ⟨date, title, "heading:".toList ++ date.text ++ ':' :: title, text⟩

def blocks (contents : Text) : Except Fault (List Block) :=
  match firstConflictMarker contents with
  | some line => .error (.conflictMarkers line)
  | none =>
    if hasUnterminatedFence (linesOf contents) then
      .error (.invalid "unterminated fenced code block".toList)
    else (piecesOf contents).2.mapM fun piece => parseBlock (pieceText piece)

/-! ## Documents -/

structure Document where
  month : Month
  preamble : Text
  entries : SortedMap Text Block

def Document.empty (month : Month) : Document := ⟨month, month.heading ++ ['\n'], .empty⟩

def Document.add (doc : Document) (entry : Block) : Except Fault Document :=
  if entry.date.month ≠ doc.month then .error (.invalid "entry date does not belong to month".toList)
  else
    match doc.entries.find? entry.identity with
    | some existing =>
      if existing ≠ entry then
        .error (.invalid "different contents for the same entry identity".toList)
      else .error (.invalid "duplicate entry identity".toList)
    | none => .ok { doc with entries := doc.entries.insert entry.identity entry }

/-- The month that the first line of a file names. -/
def headingMonth (contents : Text) : Option Month :=
  ("# Development log - ".toList.isPrefixOf? ((linesOf contents).headD [])).bind parseMonth

def Document.parse (contents : Text) : Except Fault Document :=
  match headingMonth contents with
  | none => .error (.invalid "expected a month heading".toList)
  | some month => do
    let entries ← blocks contents
    entries.foldlM Document.add ⟨month, pieceText (piecesOf contents).1, .empty⟩

/-- Newest first, then by slug and by identity. -/
def Block.le (a b : Block) : Bool :=
  b.date < a.date ∨ a.date = b.date ∧
    (a.slug < b.slug ∨ a.slug = b.slug ∧ a.identity ≤ b.identity)

/-- The entries in the order of the file. -/
def Document.ordered (doc : Document) : List Block := sortBy Block.le doc.entries.values

def Document.render (doc : Document) : Text :=
  trimEnd doc.preamble ++ ['\n'] ++ doc.ordered.flatMap fun entry => '\n' :: entry.text

variable {text contents raw line : Text} {raws pre rest init blanks : List Text} {q : Text → Bool}
  {state : Option Text}

/-- Whether a line looks like an entry heading. -/
def isHeading (line : Text) : Bool := sectionMark.isPrefixOf line

/-! ## Pieces -/

theorem next_lineOf (state : Option Text) (raw : Text) :
    fence.next state (lineOf raw) = fence.next state raw := by
  have hdelim : fence.delim (lineOf raw) = fence.delim raw := fenceDelimiter_lineOf raw
  cases state with
  | none => exact hdelim
  | some opened => simp only [Fence.next, hdelim]

theorem mask_map_lineOf (state : Option Text) (raws : List Text) :
    fence.mask state (raws.map lineOf) = fence.mask state raws := by
  induction raws generalizing state with
  | nil => rfl
  | cons raw raws ih =>
    have hdelim : fence.delim (lineOf raw) = fence.delim raw := fenceDelimiter_lineOf raw
    rw [map_cons, Fence.mask, Fence.mask, next_lineOf, ih, Fence.visible, hdelim, Fence.visible]

theorem after_map_lineOf (state : Option Text) (raws : List Text) :
    fence.after state (raws.map lineOf) = fence.after state raws := by
  induction raws generalizing state with
  | nil => rfl
  | cons raw raws ih => rw [map_cons, Fence.after_cons, Fence.after_cons, next_lineOf, ih]

theorem pieces_eq (state : Option Text) (raws : List Text) :
    pieces ((fence.mask state raws).zip raws) = fence.cut isHeading state raws := by
  induction raws generalizing state with
  | nil => rfl
  | cons raw raws ih =>
    rw [Fence.mask, zip_cons_cons, pieces, ih, Fence.cut]
    rfl

theorem piecesOf_eq (contents : Text) :
    piecesOf contents = fence.cut isHeading none (splitInclusive contents) := by
  rw [piecesOf, linesOf, structuralLineMask_eq, mask_map_lineOf, pieces_eq]

theorem findIdx_mask_eq_none (state : Option Text) (raws : List Text) :
    ((fence.mask state raws).zip raws).findIdx? (fun row => row.1 && q row.2) = none ↔
      fence.Quiet q state raws := by
  induction raws generalizing state with
  | nil => exact iff_of_true rfl Fence.quiet_nil
  | cons raw raws ih =>
    rw [Fence.mask, zip_cons_cons, findIdx?_cons, Fence.quiet_cons, ← ih]
    cases fence.visible state raw && q raw <;> simp

theorem conflictMarker_append {tail : Text} (h : ∀ c ∈ tail, c = '\n' ∨ c = '\r') (line : Text) :
    isConflictMarker (line ++ tail) = isConflictMarker line := by
  have hdisjoint : ∀ marker ∈ conflictMarkers, ∀ c ∈ tail, c ∉ marker := by
    intro marker hmarker c hc
    simp only [conflictMarkers, mem_cons, not_mem_nil, or_false] at hmarker
    rcases h c hc with rfl | rfl
    · rcases hmarker with rfl | rfl | rfl <;> decide
    · rcases hmarker with rfl | rfl | rfl <;> decide
  unfold isConflictMarker
  rw [Bool.eq_iff_iff, any_eq_true, any_eq_true]
  refine exists_congr fun marker => and_congr_right fun hmarker => ?_
  rw [isPrefixOf_append_of_disjoint (hdisjoint marker hmarker)]

theorem conflictMarker_lineOf (raw : Text) : isConflictMarker (lineOf raw) = isConflictMarker raw := by
  obtain ⟨tail, htail, heq⟩ := lineOf_lineEnd raw
  conv_rhs => rw [heq]
  rw [conflictMarker_append htail]

theorem zip_map_lineOf (mask : List Bool) (raws : List Text) :
    (mask.zip (raws.map lineOf)).findIdx? (fun row => row.1 && isConflictMarker row.2) =
      (mask.zip raws).findIdx? fun row => row.1 && isConflictMarker row.2 := by
  induction raws generalizing mask with
  | nil => rw [map_nil]
  | cons raw raws ih =>
    cases mask with
    | nil => rfl
    | cons visible mask =>
      rw [map_cons, zip_cons_cons, zip_cons_cons, findIdx?_cons, findIdx?_cons,
        ih, conflictMarker_lineOf]

theorem firstConflictMarker_eq_none (contents : Text) : firstConflictMarker contents = none ↔
    fence.Quiet isConflictMarker none (splitInclusive contents) := by
  rw [firstConflictMarker, ← findIdx_mask_eq_none, Option.map_eq_none_iff, structuralLineMask_eq, linesOf,
    mask_map_lineOf, zip_map_lineOf]

theorem unterminated_eq_false (contents : Text) : hasUnterminatedFence (linesOf contents) = false ↔
    fence.after none (splitInclusive contents) = none := by
  rw [hasUnterminatedFence_iff, linesOf, after_map_lineOf]

/-! ## Trimmed pieces -/

theorem delim_trimEnd (raw : Text) : fence.delim (trimEnd raw ++ ['\n']) = fence.delim raw := by
  change fenceDelimiter _ = fenceDelimiter _
  rw [fenceDelimiter_append_blank (by decide), fenceDelimiter_trimEnd]

theorem next_trimEnd (state : Option Text) (raw : Text) :
    fence.next state (trimEnd raw ++ ['\n']) = fence.next state raw := by
  unfold Fence.next
  simp only [delim_trimEnd]

theorem next_blank (h : blank raw = true) (state : Option Text) : fence.next state raw = state := by
  have hdelim : fence.delim raw = none := fenceDelimiter_blank h
  cases state with
  | none => exact hdelim
  | some opened => simp [Fence.next, hdelim]

theorem after_blanks (h : ∀ raw ∈ blanks, blank raw = true) (state : Option Text) :
    fence.after state blanks = state := by
  induction blanks with
  | nil => rfl
  | cons raw blanks ih =>
    obtain ⟨hraw, hblanks⟩ := List.forall_mem_cons.mp h
    rw [Fence.after_cons, next_blank hraw, ih hblanks]

theorem after_trimmed (last : Text) (h : ∀ raw ∈ blanks, blank raw = true) :
    fence.after state (init ++ [trimEnd last ++ ['\n']]) =
      fence.after state (init ++ last :: blanks) := by
  rw [Fence.after_append, Fence.after_append, Fence.after_cons, Fence.after_cons, next_trimEnd,
    Fence.after_nil, after_blanks h]

theorem quiet_trimmed {last : Text} (hq : q (trimEnd last ++ ['\n']) = true → q last = true)
    (h : fence.Quiet q state (init ++ last :: blanks)) :
    fence.Quiet q state (init ++ [trimEnd last ++ ['\n']]) := by
  rw [Fence.quiet_append, Fence.quiet_cons] at h ⊢
  refine ⟨h.1, ?_, Fence.quiet_nil⟩
  have hvisible : fence.visible (fence.after state init) (trimEnd last ++ ['\n']) =
      fence.visible (fence.after state init) last := by
    unfold Fence.visible
    rw [delim_trimEnd]
  rw [hvisible]
  by_contra hcut
  rw [Bool.not_eq_false, Bool.and_eq_true] at hcut
  have hlast := h.2.1
  rw [hcut.1, hq hcut.2] at hlast
  exact absurd hlast (by decide)

theorem isPrefixOf_of_trimEnd {pattern : Text} (hnewline : '\n' ∉ pattern)
    (h : pattern.isPrefixOf (trimEnd line ++ ['\n']) = true) : pattern.isPrefixOf line = true := by
  rw [isPrefixOf_append_of_disjoint (by simpa using hnewline), isPrefixOf_iff_prefix] at h
  obtain ⟨tail, -, heq⟩ := trimEnd_append line
  rw [heq, isPrefixOf_iff_prefix]
  exact h.trans (prefix_append _ _)

theorem heading_of_trimEnd (h : isHeading (trimEnd line ++ ['\n']) = true) : isHeading line = true :=
  isPrefixOf_of_trimEnd (by decide) h

theorem conflict_of_trimEnd (h : isConflictMarker (trimEnd line ++ ['\n']) = true) :
    isConflictMarker line = true := by
  rw [isConflictMarker, any_eq_true] at h ⊢
  obtain ⟨marker, hmarker, hstarts⟩ := h
  refine ⟨marker, hmarker, isPrefixOf_of_trimEnd ?_ hstarts⟩
  simp only [conflictMarkers, mem_cons, not_mem_nil, or_false] at hmarker
  rcases hmarker with rfl | rfl | rfl <;> decide

structure PieceLines (raws : List Text) : Prop where
  whole : ∀ raw ∈ raws, Whole raw
  closed : fence.after none raws = none
  clean : fence.Quiet isConflictMarker none raws
  trimmed : pieceText raws = raws.flatten

/-- The lines of a piece after it has been trimmed. -/
theorem pieceText_lines {piece : List Text} (hwhole : ∀ raw ∈ piece, Whole (trimEnd raw ++ ['\n']))
    (hinit : ∀ init last rest, piece = init ++ last :: rest → ∀ raw ∈ init, Whole raw)
    (hne : ∃ raw ∈ piece, blank raw = false) (hclosed : fence.after none piece = none)
    (hclean : fence.Quiet isConflictMarker none piece) :
    ∃ init last blanks, piece = init ++ last :: blanks ∧ blank last = false ∧
      (∀ raw ∈ blanks, blank raw = true) ∧
      splitInclusive (pieceText piece) = init ++ [trimEnd last ++ ['\n']] ∧
      PieceLines (init ++ [trimEnd last ++ ['\n']]) := by
  rcases trimEnd_lines piece with ⟨hblank, -⟩ | ⟨init, last, blanks, rfl, hlast, hblanks, htrim⟩
  · obtain ⟨raw, hraw, hne⟩ := hne
    rw [hblank raw hraw] at hne
    exact absurd hne (by decide)
  · have hlines : ∀ raw ∈ init ++ [trimEnd last ++ ['\n']], Whole raw := by
      intro raw hraw
      rcases List.mem_append.mp hraw with hraw | hraw
      · exact hinit init last blanks rfl raw hraw
      · rw [List.mem_singleton.mp hraw]
        exact hwhole last (mem_append_right _ mem_cons_self)
    have htext : pieceText (init ++ last :: blanks) = (init ++ [trimEnd last ++ ['\n']]).flatten := by
      rw [pieceText, htrim]
      simp
    refine ⟨init, last, blanks, rfl, hlast, hblanks, ?_, hlines, ?_, ?_, ?_⟩
    · rw [htext, splitInclusive_flatten hlines]
    · rw [after_trimmed last hblanks, hclosed]
    · exact quiet_trimmed conflict_of_trimEnd hclean
    · have hflat : (init ++ [trimEnd last ++ ['\n']]).flatten = init.flatten ++ trimEnd last ++ ['\n'] := by
        simp
      have hnot : blank (trimEnd last) = false := by
        by_contra hblank
        have hnil := trimEnd_eq_nil_iff.mpr (Bool.not_eq_false _ ▸ hblank)
        rw [trimEnd_trimEnd] at hnil
        exact trimEnd_ne_nil_of_not_blank hlast hnil
      rw [pieceText, hflat, trimEnd_newline, trimEnd_append_of_not_blank _ hnot, trimEnd_trimEnd]

theorem cut_glued {parts : List (List Text)} (hquiet : fence.Quiet isHeading none pre)
    (hclosed : fence.after none pre = none)
    (hparts : ∀ part ∈ parts, fence.IsBlock isHeading part ∧ fence.after none part = none) :
    ∃ gap cuts, fence.cut isHeading none (pre ++ parts.flatMap fun part => ['\n'] :: part) =
        (pre ++ gap, cuts) ∧ (∀ raw ∈ gap, blank raw = true) ∧
      cuts.map pieceText = parts.map pieceText := by
  induction parts generalizing pre with
  | nil =>
    refine ⟨[], [], ?_, fun _ h => absurd h not_mem_nil, rfl⟩
    rw [flatMap_nil, append_nil]
    exact hquiet
  | cons part parts ih =>
    obtain ⟨⟨hblock, hend⟩, hrest⟩ := List.forall_mem_cons.mp hparts
    obtain ⟨x, xs, rfl, hdelim, hx, hxs⟩ := hblock.shape
    have hnext : fence.next none x = none := hdelim
    have hxsEnd : fence.after none xs = none := by
      rw [Fence.after_cons, hnext] at hend
      exact hend
    obtain ⟨gap, cuts, hcut, hgap, hcuts⟩ := ih hxs hxsEnd hrest
    have hpre : fence.Quiet isHeading none (pre ++ [['\n']]) := by
      rw [Fence.quiet_append, hclosed]
      exact ⟨hquiet, rfl⟩
    have hpreEnd : fence.after none (pre ++ [['\n']]) = none := by
      rw [Fence.after_append, hclosed]
      rfl
    have hsplit : pre ++ ((x :: xs) :: parts).flatMap (fun part => ['\n'] :: part) =
        (pre ++ [['\n']]) ++ x :: (xs ++ parts.flatMap fun part => ['\n'] :: part) := by
      simp
    have hvisible : (fence.visible none x && isHeading x) = true := by
      rw [hx, Bool.and_true, Fence.visible, hdelim]
      rfl
    refine ⟨[['\n']], (x :: (xs ++ gap)) :: cuts, ?_, ?_, ?_⟩
    · rw [hsplit, Fence.cut_quiet_append hpre, hpreEnd, Fence.cut, hnext, hcut]
      simp only [hvisible, if_true, append_nil]
    · intro raw hraw
      rw [List.mem_singleton.mp hraw]
      rfl
    · rw [map_cons, map_cons, hcuts]
      congr 1
      rw [pieceText, pieceText, ← cons_append, flatten_append,
        trimEnd_append_blank _ (blank_flatten hgap)]

theorem quiet_glued {parts : List (List Text)} (hnewline : q ['\n'] = false)
    (hquiet : fence.Quiet q none pre) (hclosed : fence.after none pre = none)
    (hparts : ∀ part ∈ parts, fence.Quiet q none part ∧ fence.after none part = none) :
    fence.Quiet q none (pre ++ parts.flatMap fun part => ['\n'] :: part) ∧
      fence.after none (pre ++ parts.flatMap fun part => ['\n'] :: part) = none := by
  induction parts generalizing pre with
  | nil =>
    rw [flatMap_nil, append_nil]
    exact ⟨hquiet, hclosed⟩
  | cons part parts ih =>
    obtain ⟨⟨hpart, hend⟩, hparts⟩ := List.forall_mem_cons.mp hparts
    have hsplit : pre ++ (part :: parts).flatMap (fun part => ['\n'] :: part) =
        (pre ++ ['\n'] :: part) ++ parts.flatMap fun part => ['\n'] :: part := by
      simp
    have hblank : fence.next none ['\n'] = none := rfl
    rw [hsplit]
    refine ih ?_ ?_ hparts
    · rw [Fence.quiet_append, hclosed, Fence.quiet_cons, hblank]
      exact ⟨hquiet, by rw [hnewline, Bool.and_false], hpart⟩
    · rw [Fence.after_append, hclosed, Fence.after_cons, hblank, hend]

end NilsCli.Devlog
