import NilsCli.Review.Anchors

/-!
# What the parsers of a patch see

Both parsers read lines, of which a carriage return at the end may be lost.
-/

namespace NilsCli.Review

open Lib List

variable {read : List Char} {start : Nat} {count : Option Nat}

variable {c : Char} {hunks : List Hunk} {hunk : Hunk} {rows : List DiffRow}

variable (row : DiffRow) (anchors : List (ReviewThreadDiffSide × Nat))

/-! ## Lines -/

theorem stripCr_cons (h : c ≠ '\r') (text : List Char) :
    ∃ text', stripCr (c :: text) = c :: text' := by
  unfold stripCr
  cases text with
  | nil => exact ⟨[], if_neg (by simpa using h)⟩
  | cons d text =>
    by_cases hlast : (c :: d :: text).getLast? = some '\r'
    · rw [if_pos hlast]
      exact ⟨(d :: text).dropLast, rfl⟩
    · rw [if_neg hlast]
      exact ⟨d :: text, rfl⟩

theorem stripCr_append {line : List Char} (h : line.getLast? ≠ some '\r') (rest : List Char) :
    ∃ rest', stripCr (line ++ rest) = line ++ rest' := by
  unfold stripCr
  rcases eq_nil_or_concat rest with rfl | ⟨init, c, rfl⟩
  · rw [append_nil, if_neg h]
    exact ⟨[], (append_nil _).symm⟩
  · by_cases hlast : (line ++ init.concat c).getLast? = some '\r'
    · rw [if_pos hlast, concat_eq_append, ← append_assoc, dropLast_concat]
      exact ⟨init, rfl⟩
    · rw [if_neg hlast]
      exact ⟨_, rfl⟩

theorem textLines_joinLines {lines : List (List Char)} (ended : Bool)
    (h : ∀ line ∈ lines, '\n' ∉ line ∧ line ≠ []) :
    Forall₂ (fun line read => read = line ∨ read = stripCr line) lines
      (textLines (joinLines lines ended)) := by
  have hfeed : ∀ line ∈ lines, '\n' ∉ line := fun line hline => (h line hline).1
  unfold textLines joinLines
  cases ended with
  | true =>
    rw [if_pos rfl, splitOn_terminated hfeed]
    show Forall₂ _ lines ((lines ++ [[]]).dropLast.map stripCr ++
      ((lines ++ [[]]).getLast?.filter (· ≠ [])).toList)
    rw [dropLast_concat, getLast?_concat]
    show Forall₂ _ lines (lines.map stripCr ++ [])
    rw [append_nil, forall₂_map_right_iff]
    exact List.forall₂_same.mpr fun _ _ => .inr rfl
  | false =>
    rw [if_neg Bool.false_ne_true]
    rcases eq_nil_or_concat lines with rfl | ⟨init, last, rfl⟩
    · exact .nil
    · rw [concat_eq_append] at h hfeed ⊢
      rw [splitOn_intercalate '\n' hfeed (by simp)]
      show Forall₂ _ (init ++ [last]) ((init ++ [last]).dropLast.map stripCr ++
        ((init ++ [last]).getLast?.filter (· ≠ [])).toList)
      rw [dropLast_concat, getLast?_concat]
      have hlast : last ≠ [] := (h last (by simp)).2
      have hfilter : (some last).filter (· ≠ []) = some last := if_pos (decide_eq_true hlast)
      rw [hfilter]
      refine rel_append ?_ (.cons (.inl rfl) .nil)
      rw [forall₂_map_right_iff]
      exact List.forall₂_same.mpr fun _ _ => .inr rfl

def Hunk.HeaderReads (hunk : Hunk) (line : List Char) : Prop := ∃ rest, line = hunk.ranges ++ rest

/-- A line that begins with the sign of the row. -/
def DiffRow.Reads (line : List Char) : Prop := ∃ text, line = row.sign :: text

inductive ReadsAs : List Hunk → List (List Char) → Prop
  | nil : ReadsAs [] []
  | cons {hunk : Hunk} {hunks : List Hunk} {header : List Char} {rows lines : List (List Char)} :
      hunk.HeaderReads header → List.Forall₂ DiffRow.Reads hunk.rows rows → ReadsAs hunks lines →
      ReadsAs (hunk :: hunks) (header :: rows ++ lines)

theorem sign_ne_cr : row.sign ≠ '\r' := by
  cases row <;> simp [DiffRow.sign]

theorem ranges_getLast (hunk : Hunk) : hunk.ranges.getLast? ≠ some '\r' := by
  rw [Hunk.ranges, getLast?_append]
  simp

theorem Hunk.reads_header (hunk : Hunk) {rest : List Char}
    (h : read = hunk.ranges ++ rest ∨ read = stripCr (hunk.ranges ++ rest)) :
    hunk.HeaderReads read := by
  rcases h with rfl | rfl
  · exact ⟨rest, rfl⟩
  · exact stripCr_append (ranges_getLast hunk) rest

theorem DiffRow.reads_line (h : read = row.line ∨ read = stripCr row.line) : row.Reads read := by
  rcases h with rfl | rfl
  · exact ⟨row.text, rfl⟩
  · exact stripCr_cons (sign_ne_cr row) row.text

theorem reads_lines {lines : List (List Char)}
    (h : Forall₂ (fun line read => read = line ∨ read = stripCr line)
      (hunks.flatMap (·.lines)) lines) : ReadsAs hunks lines := by
  induction hunks generalizing lines with
  | nil =>
    cases h
    exact .nil
  | cons hunk hunks ih =>
    rw [flatMap_cons, Hunk.lines, cons_append] at h
    cases h with
    | @cons _ header _ lines hheader h =>
      obtain ⟨rows, rest, hrows, hrest, rfl⟩ :
          ∃ rows rest, Forall₂ (fun line read => read = line ∨ read = stripCr line)
            (hunk.rows.map (·.line)) rows ∧
            Forall₂ (fun line read => read = line ∨ read = stripCr line)
              (hunks.flatMap (·.lines)) rest ∧ lines = rows ++ rest :=
        ⟨_, _, (forall₂_take_append _ _ _ h.flip).flip,
          (forall₂_drop_append _ _ _ h.flip).flip, (take_append_drop _ _).symm⟩
      rw [forall₂_map_left_iff] at hrows
      exact .cons (hunk.reads_header hheader) (hrows.imp fun row _ => row.reads_line) (ih hrest)

theorem digit_ne_feed (h : isAsciiDigit c) : c ≠ '\n' := by
  rintro rfl
  exact absurd h (by decide)

theorem mem_span (h : c ∈ span start count) :
    isAsciiDigit c ∨ c = ',' := by
  unfold span at h
  rcases List.mem_append.mp h with h | h
  · exact .inl (isAsciiDigit_of_mem_toDigits h)
  · cases count with
    | none => cases h
    | some count =>
      rcases List.mem_cons.mp h with rfl | h
      · exact .inr rfl
      · exact .inl (isAsciiDigit_of_mem_toDigits h)

theorem Hunk.OnLines.lines (h : hunk.OnLines) :
    ∀ line ∈ hunk.lines, '\n' ∉ line ∧ line ≠ [] := by
  have hspan : ∀ start count, '\n' ∉ span start count := fun start count hmem => by
    rcases mem_span hmem with hdigit | hcomma
    · exact digit_ne_feed hdigit rfl
    · exact absurd hcomma (by decide)
  intro line hline
  rcases List.mem_cons.mp hline with rfl | hline
  · refine ⟨?_, by simp [ranges]⟩
    simp [ranges, hspan, h.1]
  · obtain ⟨row, hrow, rfl⟩ := List.mem_map.mp hline
    refine ⟨?_, cons_ne_nil _ _⟩
    unfold DiffRow.line
    rw [mem_cons, not_or]
    refine ⟨?_, h.2 row hrow⟩
    cases row <;> simp [DiffRow.sign]

/-- The text of hunks reads as these hunks. -/
theorem reads_text (h : ∀ hunk ∈ hunks, hunk.OnLines) (ended : Bool) :
    ReadsAs hunks (textLines (patchText hunks ended)) := by
  refine reads_lines (textLines_joinLines ended fun line hline => ?_)
  obtain ⟨hunk, hhunk, hline⟩ := List.mem_flatMap.mp hline
  exact (h hunk hhunk).lines line hline

/-! ## Headers -/

theorem digit_not_whitespace (h : isAsciiDigit c ∨ c = ',') : isWhitespace c = false := by
  rcases h with h | rfl
  · simp only [isAsciiDigit, charIn, decide_eq_true_eq] at h
    have h0 : '0'.toNat = 48 := rfl
    have h9 : '9'.toNat = 57 := rfl
    simp only [isWhitespace, decide_eq_false_iff_not]
    omega
  · decide

theorem parseU32_toDigits {n : Nat} (h : n ≤ u32Max) : parseU32 (Nat.toDigits 10 n) = some n := by
  have hplus : ∀ rest, Nat.toDigits 10 n ≠ '+' :: rest := by
    intro rest hrest
    exact absurd (isAsciiDigit_of_mem_toDigits (n := n) (c := '+') (by simp [hrest])) (by decide)
  have hall : (Nat.toDigits 10 n).all isAsciiDigit :=
    List.all_eq_true.mpr fun c hc => isAsciiDigit_of_mem_toDigits hc
  have hvalue := Nat.ofDigitChars_ten_toDigits (n := n)
  rw [Nat.ofDigitChars_eq_foldl] at hvalue
  unfold parseU32
  split
  next rest hrest => exact absurd hrest (hplus rest)
  next => simp only [Nat.toDigits_ne_nil, hall, not_true, or_self, if_false, hvalue, if_pos h]

theorem takeWhile_span (start : Nat) (count : Option Nat) :
    (span start count).takeWhile (· ≠ ',') = Nat.toDigits 10 start := by
  have hdigits : ∀ c ∈ Nat.toDigits 10 start, decide (c ≠ ',') = true := by
    intro c hc
    refine decide_eq_true ?_
    rintro rfl
    exact absurd (isAsciiDigit_of_mem_toDigits hc) (by decide)
  unfold span
  rw [takeWhile_append_of_pos hdigits]
  cases count with
  | none => exact append_nil _
  | some count => simp

theorem parseHunkStart_span (h : start ≤ u32Max) :
    parseHunkStart (span start count) = some start := by
  rw [parseHunkStart, takeWhile_span, parseU32_toDigits h]

theorem splitWhitespace_append {word : List Char} (hne : word ≠ [])
    (h : ∀ c ∈ word, isWhitespace c = false) (rest : List Char) :
    splitWhitespace (word ++ ' ' :: rest) = word :: splitWhitespace rest := by
  unfold splitWhitespace
  rw [splitOnP_append_cons_of_forall_mem h ' ' (by decide), filter_cons,
    if_pos (decide_eq_true hne)]

theorem parseHunkHeader_ranges (hold : hunk.oldStart ≤ u32Max)
    (hnew : hunk.newStart ≤ u32Max) (rest : List Char) :
    parseHunkHeader (hunk.ranges ++ rest) = some (hunk.oldStart, hunk.newStart) := by
  have hshape : hunk.ranges ++ rest = ['@', '@'] ++ ' ' :: (('-' :: span hunk.oldStart
      hunk.oldCount) ++ ' ' :: (('+' :: span hunk.newStart hunk.newCount) ++
      ' ' :: (['@', '@'] ++ rest))) := by
    simp [Hunk.ranges]
  have hword : ∀ {c : Char} {start : Nat} {count : Option Nat}, isWhitespace c = false →
      ∀ d ∈ c :: span start count, isWhitespace d = false := by
    intro c start count hc d hd
    rcases List.mem_cons.mp hd with rfl | hd
    · exact hc
    · exact digit_not_whitespace (mem_span hd)
  unfold parseHunkHeader
  have hat : ∀ d ∈ ['@', '@'], isWhitespace d = false := by
    simp only [mem_cons, not_mem_nil, or_false, or_self, forall_eq]
    rfl
  rw [hshape, splitWhitespace_append (by simp) hat,
    splitWhitespace_append (by simp) (hword (by decide)),
    splitWhitespace_append (by simp) (hword (by decide))]
  simp [parseHunkStart_span, hold, hnew]

theorem splitOnce_append {pattern before : List Char} (h : c ∉ before) (after : List Char) :
    splitOnce (c :: pattern) (before ++ (c :: pattern) ++ after) = some (before, after) := by
  induction before with
  | nil =>
    have hprefix : (c :: pattern).isPrefixOf (c :: (pattern ++ after)) = true :=
      List.isPrefixOf_iff_prefix.mpr (prefix_append (c :: pattern) after)
    rw [nil_append, cons_append, splitOnce, if_pos hprefix]
    simp
  | cons d before ih =>
    rw [mem_cons, not_or] at h
    have hprefix : ¬ (c :: pattern).isPrefixOf (d :: (before ++ (c :: pattern) ++ after)) = true :=
      fun hprefix => h.1 (List.cons_prefix_cons.mp (List.isPrefixOf_iff_prefix.mp hprefix)).1
    rw [cons_append, cons_append, splitOnce, if_neg hprefix, ih h.2]
    rfl

theorem parseDiffHunkStarts_ranges (hold : hunk.oldStart ≤ u32Max)
    (hnew : hunk.newStart ≤ u32Max) (rest : List Char) :
    parseDiffHunkStarts (hunk.ranges ++ rest) = some (hunk.oldStart, hunk.newStart) := by
  have hspace : ∀ start count, ' ' ∉ span start count := fun start count hmem => by
    have := digit_not_whitespace (mem_span hmem)
    exact absurd this (by decide)
  have hshape : hunk.ranges ++ rest = '@' :: '@' :: ' ' :: '-' :: (span hunk.oldStart
      hunk.oldCount ++ [' ', '+'] ++ (span hunk.newStart hunk.newCount ++ [' ', '@', '@'] ++
      rest)) := by
    simp [Hunk.ranges]
  rw [hshape]
  simp only [parseDiffHunkStarts]
  rw [splitOnce_append (hspace _ _)]
  simp only [Option.bind_eq_bind, Option.bind_some]
  rw [splitOnce_append (hspace _ _)]
  simp only [Option.bind_some, takeWhile_span, parseU32_toDigits hold, parseU32_toDigits hnew]
  rfl

theorem isHeader_ranges (hunk : Hunk) (rest : List Char) : isHeader (hunk.ranges ++ rest) = true := by
  simp [isHeader, Hunk.ranges]

theorem isHeader_row (text : List Char) : isHeader (row.sign :: text) = false := by
  cases row <;> rfl

/-! ## The scan of a patch -/

/-- The positions of these anchors, in order. -/
def ofAnchors : CommentableHunk :=
  anchors.zipIdx.foldl (fun hunk anchor => hunk.insert anchor.1 anchor.2) .empty

theorem ofAnchors_concat (anchor : ReviewThreadDiffSide × Nat) :
    ofAnchors (anchors ++ [anchor]) = (ofAnchors anchors).insert anchor anchors.length := by
  simp [ofAnchors, zipIdx_append]

theorem CommentableHunk.position_insert (hunk : CommentableHunk)
    (anchor : ReviewThreadDiffSide × Nat) (position : Nat) (side : ReviewThreadDiffSide)
    (line : Nat) : (hunk.insert anchor position).position side line =
      if (side, line) = anchor then some position else hunk.position side line := by
  obtain ⟨side', line'⟩ := anchor
  by_cases hline : line = line'
  · subst hline
    cases side <;> cases side' <;> simp [insert, CommentableHunk.position]
  · cases side <;> cases side' <;>
      simp [insert, CommentableHunk.position, hline, AList.lookup_insert_ne hline]

theorem position_ofAnchors {anchors : List (ReviewThreadDiffSide × Nat)} (h : anchors.Nodup)
    (side : ReviewThreadDiffSide) (line i : Nat) :
    (ofAnchors anchors).position side line = some i ↔ anchors[i]? = some (side, line) := by
  induction anchors using reverseRecOn with
  | nil => cases side <;> simp [ofAnchors, CommentableHunk.empty, CommentableHunk.position]
  | append_singleton anchors anchor ih =>
    obtain ⟨hnodup, -, hdisjoint⟩ := List.nodup_append.mp h
    rw [ofAnchors_concat, CommentableHunk.position_insert]
    by_cases heq : (side, line) = anchor
    · rw [if_pos heq, heq]
      constructor
      · rintro ⟨⟩
        rw [List.getElem?_append_right (Nat.le_refl _), Nat.sub_self]
        rfl
      · intro hi
        rcases Nat.lt_trichotomy i anchors.length with hlt | rfl | hgt
        · rw [List.getElem?_append_left hlt] at hi
          exact absurd rfl (hdisjoint anchor (mem_of_getElem? hi) anchor (by simp))
        · rfl
        · rw [List.getElem?_eq_none (by simp; omega)] at hi
          cases hi
    · rw [if_neg heq, ih hnodup]
      rcases Nat.lt_or_ge i anchors.length with hlt | hge
      · rw [List.getElem?_append_left hlt]
      · rw [List.getElem?_eq_none hge, List.getElem?_append_right hge]
        constructor
        · rintro ⟨⟩
        · intro hi
          have hmem := List.mem_singleton.mp (mem_of_getElem? hi)
          exact absurd hmem heq

theorem scan_rows {lines : List (List Char)}
    (h : Forall₂ DiffRow.Reads rows lines) (old new : Nat) (hold : old + oldRows rows ≤ u32Max)
    (hnew : new + newRows rows ≤ u32Max) (hunks : List CommentableHunk)
    (before : List (ReviewThreadDiffSide × Nat)) :
    ∃ old' new' position,
      lines.foldl scanLine ⟨hunks, some (ofAnchors before), some old, some new, before.length⟩ =
        ⟨hunks, some (ofAnchors (before ++ rowAnchors old new rows)), old', new', position⟩ := by
  induction h generalizing old new before with
  | nil => exact ⟨_, _, _, by rw [rowAnchors, append_nil]; rfl⟩
  | @cons row line rows lines hread hrows ih =>
    obtain ⟨text, rfl⟩ := hread
    have hhead : ¬ isHeader (row.sign :: text) = true := by simp [isHeader_row]
    rw [foldl_cons, scanLine, if_neg hhead]
    cases row with
    | context text' =>
      have holdRows : oldRows (.context text' :: rows) = oldRows rows + 1 := by simp [oldRows]
      have hnewRows : newRows (.context text' :: rows) = newRows rows + 1 := by simp [newRows]
      have hold' : checkedSucc32 old = some (old + 1) := if_pos (by omega)
      have hnew' : checkedSucc32 new = some (new + 1) := if_pos (by omega)
      have hrest := ih (old + 1) (new + 1) (by omega) (by omega)
        (before ++ [(.right, new)])
      rw [ofAnchors_concat, length_append, append_assoc] at hrest
      simpa [DiffRow.sign, hold', hnew', rowAnchors] using hrest
    | deleted text' =>
      have holdRows : oldRows (.deleted text' :: rows) = oldRows rows + 1 := by simp [oldRows]
      have hnewRows : newRows (.deleted text' :: rows) = newRows rows := by simp [newRows]
      have hold' : checkedSucc32 old = some (old + 1) := if_pos (by omega)
      have hrest := ih (old + 1) new (by omega) (by omega)
        (before ++ [(.left, old)])
      rw [ofAnchors_concat, length_append, append_assoc] at hrest
      simpa [DiffRow.sign, hold', rowAnchors] using hrest
    | added text' =>
      have holdRows : oldRows (.added text' :: rows) = oldRows rows := by simp [oldRows]
      have hnewRows : newRows (.added text' :: rows) = newRows rows + 1 := by simp [newRows]
      have hnew' : checkedSucc32 new = some (new + 1) := if_pos (by omega)
      have hrest := ih old (new + 1) (by omega) (by omega)
        (before ++ [(.right, new)])
      rw [ofAnchors_concat, length_append, append_assoc] at hrest
      simpa [DiffRow.sign, hnew', rowAnchors] using hrest
    | noNewline text' =>
      have holdRows : oldRows (.noNewline text' :: rows) = oldRows rows := by simp [oldRows]
      have hnewRows : newRows (.noNewline text' :: rows) = newRows rows := by simp [newRows]
      have hrest := ih old new (by omega) (by omega) before
      simpa [DiffRow.sign, rowAnchors] using hrest

theorem Hunk.Numbered.starts (h : hunk.Numbered) :
    hunk.oldStart ≤ u32Max ∧ hunk.newStart ≤ u32Max := by
  have hmax : u32Max = 2 ^ 32 - 1 := rfl
  obtain ⟨hold, hnew⟩ := h
  omega

/-- The scan of hunks gives the positions of their anchors. -/
theorem scan_hunks {lines : List (List Char)} (h : ReadsAs hunks lines)
    (hnumbered : ∀ hunk ∈ hunks, hunk.Numbered) (scan : HunkScan) :
    (lines.foldl scanLine scan).hunks ++ (lines.foldl scanLine scan).current.toList =
      scan.hunks ++ scan.current.toList ++ hunks.map fun hunk => ofAnchors hunk.anchors := by
  induction h generalizing scan with
  | nil => simp
  | @cons hunk hunks header rows lines hheader hrows hlines ih =>
    obtain ⟨rest, rfl⟩ := hheader
    have hn := hnumbered hunk mem_cons_self
    have hstart : scanLine scan (hunk.ranges ++ rest) = ⟨scan.hunks ++ scan.current.toList,
        some (ofAnchors []), some hunk.oldStart, some hunk.newStart, 0⟩ := by
      rw [scanLine, if_pos (isHeader_ranges hunk rest),
        parseHunkHeader_ranges hn.starts.1 hn.starts.2]
      rfl
    have hmax : u32Max = 2 ^ 32 - 1 := rfl
    obtain ⟨old, new, position, hscan⟩ := scan_rows hrows hunk.oldStart
      hunk.newStart (by have := hn.1; omega) (by have := hn.2; omega)
      (scan.hunks ++ scan.current.toList) []
    rw [cons_append, foldl_cons, hstart, foldl_append]
    rw [length_nil] at hscan
    rw [hscan, ih fun hunk hhunk => hnumbered hunk (mem_cons_of_mem _ hhunk)]
    simp [Hunk.anchors]

/-! ## The candidates of a side -/

/-- The sides of these anchors at a line. -/
def sidesAt (line : Nat) : List ReviewThreadDiffSide :=
  (anchors.filter (·.2 = line)).map (·.1)

theorem infer_rows {lines : List (List Char)}
    (h : Forall₂ DiffRow.Reads rows lines) (old new : Nat) (hold : old + oldRows rows ≤ u32Max)
    (hnew : new + newRows rows ≤ u32Max) (line : Nat) (candidates : List ReviewThreadDiffSide) :
    ∃ numbers, lines.foldlM (inferRow line) ⟨some (old, new), candidates⟩ =
      some ⟨numbers, candidates ++ sidesAt (rowAnchors old new rows) line⟩ := by
  induction h generalizing old new candidates with
  | nil => exact ⟨_, by rw [rowAnchors, sidesAt, filter_nil, map_nil, append_nil]; rfl⟩
  | @cons row read rows lines hread hrows ih =>
    obtain ⟨text, rfl⟩ := hread
    have hhead : ¬ isHeader (row.sign :: text) = true := by simp [isHeader_row]
    have hcandidate : ∀ (side : ReviewThreadDiffSide) (number : Nat) (anchors),
        (if number = line then candidates ++ [side] else candidates) ++ sidesAt anchors line =
          candidates ++ sidesAt ((side, number) :: anchors) line := by
      intro side number anchors
      by_cases heq : number = line
      · rw [if_pos heq]
        simp [sidesAt, heq]
      · rw [if_neg heq]
        simp [sidesAt, heq]
    rw [foldlM_cons, inferRow, if_neg hhead]
    cases row with
    | context text' =>
      have holdRows : oldRows (.context text' :: rows) = oldRows rows + 1 := by simp [oldRows]
      have hnewRows : newRows (.context text' :: rows) = newRows rows + 1 := by simp [newRows]
      have hold' : u32Succ old = old + 1 := if_pos (by omega)
      have hnew' : u32Succ new = new + 1 := if_pos (by omega)
      have hrest := ih (old + 1) (new + 1) (by omega) (by omega)
        (if new = line then candidates ++ [.right] else candidates)
      rw [hcandidate] at hrest
      simpa [DiffRow.sign, hold', hnew', rowAnchors] using hrest
    | deleted text' =>
      have holdRows : oldRows (.deleted text' :: rows) = oldRows rows + 1 := by simp [oldRows]
      have hnewRows : newRows (.deleted text' :: rows) = newRows rows := by simp [newRows]
      have hold' : u32Succ old = old + 1 := if_pos (by omega)
      have hrest := ih (old + 1) new (by omega) (by omega)
        (if old = line then candidates ++ [.left] else candidates)
      rw [hcandidate] at hrest
      simpa [DiffRow.sign, hold', rowAnchors] using hrest
    | added text' =>
      have holdRows : oldRows (.added text' :: rows) = oldRows rows := by simp [oldRows]
      have hnewRows : newRows (.added text' :: rows) = newRows rows + 1 := by simp [newRows]
      have hnew' : u32Succ new = new + 1 := if_pos (by omega)
      have hrest := ih old (new + 1) (by omega) (by omega)
        (if new = line then candidates ++ [.right] else candidates)
      rw [hcandidate] at hrest
      simpa [DiffRow.sign, hnew', rowAnchors] using hrest
    | noNewline text' =>
      have holdRows : oldRows (.noNewline text' :: rows) = oldRows rows := by simp [oldRows]
      have hnewRows : newRows (.noNewline text' :: rows) = newRows rows := by simp [newRows]
      have hrest := ih old new (by omega) (by omega) candidates
      simpa [DiffRow.sign, rowAnchors] using hrest

theorem infer_hunk (honlines : hunk.OnLines) (hnumbered : hunk.Numbered)
    (ended : Bool) (line : Nat) :
    inferSideFromDiffHunk (patchText [hunk] ended) line =
      (sidesAt hunk.anchors line).head?.bind fun side =>
        if (sidesAt hunk.anchors line).all (· = side) then some side else none := by
  have hreads := @reads_text [hunk] (by simpa using honlines) ended
  unfold inferSideFromDiffHunk
  generalize textLines (patchText [hunk] ended) = lines at hreads
  cases hreads with
  | @cons _ _ header rows _ hheader hrows hnil =>
    cases hnil
    obtain ⟨rest, rfl⟩ := hheader
    have hmax : u32Max = 2 ^ 32 - 1 := rfl
    obtain ⟨numbers, hscan⟩ := infer_rows hrows hunk.oldStart hunk.newStart
      (by have := hnumbered.1; omega) (by have := hnumbered.2; omega) line []
    have hstart : inferRow line ⟨none, []⟩ (hunk.ranges ++ rest) =
        some ⟨some (hunk.oldStart, hunk.newStart), []⟩ := by
      rw [inferRow, if_pos (isHeader_ranges hunk rest),
        parseDiffHunkStarts_ranges hnumbered.starts.1 hnumbered.starts.2]
      rfl
    rw [append_nil, foldlM_cons, hstart]
    simp only [Option.bind_eq_bind, Option.bind_some, hscan, nil_append]
    rfl

theorem le_of_mem_rowAnchors {old new : Nat}
    {anchor : ReviewThreadDiffSide × Nat} (h : anchor ∈ rowAnchors old new rows) :
    (anchor.1 = .left → old ≤ anchor.2) ∧ (anchor.1 = .right → new ≤ anchor.2) := by
  induction rows generalizing old new with
  | nil => cases h
  | cons row rows ih =>
    cases row with
    | context text =>
      rcases List.mem_cons.mp h with rfl | h
      · exact ⟨nofun, fun _ => Nat.le_refl _⟩
      · have := ih h
        exact ⟨fun hside => Nat.le_of_succ_le (this.1 hside),
          fun hside => Nat.le_of_succ_le (this.2 hside)⟩
    | deleted text =>
      rcases List.mem_cons.mp h with rfl | h
      · exact ⟨fun _ => Nat.le_refl _, nofun⟩
      · have := ih h
        exact ⟨fun hside => Nat.le_of_succ_le (this.1 hside), this.2⟩
    | added text =>
      rcases List.mem_cons.mp h with rfl | h
      · exact ⟨nofun, fun _ => Nat.le_refl _⟩
      · have := ih h
        exact ⟨this.1, fun hside => Nat.le_of_succ_le (this.2 hside)⟩
    | noNewline text => exact ih h

theorem rowAnchors_nodup (old new : Nat) (rows : List DiffRow) :
    (rowAnchors old new rows).Nodup := by
  induction rows generalizing old new with
  | nil => exact .nil
  | cons row rows ih =>
    cases row with
    | context text =>
      refine List.nodup_cons.mpr ⟨fun h => ?_, ih _ _⟩
      exact Nat.not_succ_le_self _ ((le_of_mem_rowAnchors h).2 rfl)
    | deleted text =>
      refine List.nodup_cons.mpr ⟨fun h => ?_, ih _ _⟩
      exact Nat.not_succ_le_self _ ((le_of_mem_rowAnchors h).1 rfl)
    | added text =>
      refine List.nodup_cons.mpr ⟨fun h => ?_, ih _ _⟩
      exact Nat.not_succ_le_self _ ((le_of_mem_rowAnchors h).2 rfl)
    | noNewline text => exact ih _ _

/-! ## Results -/

theorem commentableHunksBySide_patchText (honlines : ∀ hunk ∈ hunks, hunk.OnLines)
    (hnumbered : ∀ hunk ∈ hunks, hunk.Numbered) (ended : Bool) :
    commentableHunksBySide (patchText hunks ended) = hunks.map fun hunk => ofAnchors hunk.anchors :=
  scan_hunks (reads_text honlines ended) hnumbered ⟨[], none, none, none, 0⟩

theorem isSome_position_ofAnchors {anchors : List (ReviewThreadDiffSide × Nat)} (h : anchors.Nodup)
    (side : ReviewThreadDiffSide) (line : Nat) :
    ((ofAnchors anchors).position side line).isSome ↔ (side, line) ∈ anchors := by
  rw [Option.isSome_iff_exists, mem_iff_getElem?]
  exact exists_congr fun i => position_ofAnchors h side line i

theorem isSome_findCommentableLine (hunks : List CommentableHunk) (side : ReviewThreadDiffSide)
    (line : Nat) : (findCommentableLine hunks side line).isSome ↔
      ∃ hunk ∈ hunks, (hunk.position side line).isSome := by
  rw [findCommentableLine, isSome_findSome?, any_eq_true]
  constructor
  · rintro ⟨⟨hunk, i⟩, hmem, h⟩
    exact ⟨hunk, fst_mem_of_mem_zipIdx hmem, by simpa using h⟩
  · rintro ⟨hunk, hmem, h⟩
    obtain ⟨i, hi⟩ := mem_iff_getElem?.mp hmem
    exact ⟨(hunk, i), List.mk_mem_zipIdx_iff_getElem?.mpr hi, by simpa using h⟩

theorem Hunk.OnLines.upTo (h : hunk.OnLines) (n : Nat) : (hunk.upTo n).OnLines :=
  ⟨h.1, fun row hrow => h.2 row (mem_of_mem_take hrow)⟩

theorem Hunk.Numbered.upTo (h : hunk.Numbered) (n : Nat) : (hunk.upTo n).Numbered := by
  have hold : oldRows (hunk.rows.take n) ≤ oldRows hunk.rows := (take_sublist n hunk.rows).countP_le
  have hnew : newRows (hunk.rows.take n) ≤ newRows hunk.rows := (take_sublist n hunk.rows).countP_le
  obtain ⟨hold', hnew'⟩ := h
  exact ⟨show hunk.oldStart + oldRows (hunk.rows.take n) < _ by omega,
    show hunk.newStart + newRows (hunk.rows.take n) < _ by omega⟩

/-- The lines of a patch that take a thread are the anchors of its rows, a range takes one where its
rows stand in order in one hunk, and the part of a hunk up to the row of an anchor gives no other
side for it. -/
theorem anchors_exact {hunks : List Hunk} (honlines : ∀ hunk ∈ hunks, hunk.OnLines)
    (hnumbered : ∀ hunk ∈ hunks, hunk.Numbered) (ended : Bool) :
    (∀ side line,
      (findCommentableLine (commentableHunksBySide (patchText hunks ended)) side line).isSome ↔
        ∃ hunk ∈ hunks, (side, line) ∈ hunk.anchors) ∧
    (∀ startSide startLine endSide endLine,
      rangeIsCommentableInSingleHunk (commentableHunksBySide (patchText hunks ended)) startSide
          startLine endSide endLine ↔
        ∃ hunk ∈ hunks, ∃ i j : Nat, i ≤ j ∧ hunk.anchors[i]? = some (startSide, startLine) ∧
          hunk.anchors[j]? = some (endSide, endLine)) ∧
    ∀ hunk ∈ hunks, ∀ n ended side line, (side, line) ∈ (hunk.upTo n).anchors →
      inferSideFromDiffHunk (patchText [hunk.upTo n] ended) line = none ∨
        inferSideFromDiffHunk (patchText [hunk.upTo n] ended) line = some side := by
  have hnodup : ∀ hunk : Hunk, hunk.anchors.Nodup := fun hunk => rowAnchors_nodup _ _ _
  rw [commentableHunksBySide_patchText honlines hnumbered ended]
  refine ⟨fun side line => ?_, fun startSide startLine endSide endLine => ?_, ?_⟩
  · rw [isSome_findCommentableLine]
    simp only [List.mem_map, exists_exists_and_eq_and]
    exact exists_congr fun hunk => and_congr_right fun _ =>
      isSome_position_ofAnchors (hnodup hunk) side line
  · rw [rangeIsCommentableInSingleHunk, List.any_map, List.any_eq_true]
    refine exists_congr fun hunk => and_congr_right fun _ => ?_
    simp only [Function.comp_apply, ← position_ofAnchors (hnodup hunk)]
    cases (ofAnchors hunk.anchors).position startSide startLine <;>
      cases (ofAnchors hunk.anchors).position endSide endLine <;> simp
  · intro hunk hhunk n ended side line hmem
    rw [infer_hunk ((honlines hunk hhunk).upTo n) ((hnumbered hunk hhunk).upTo n)]
    have hside : side ∈ sidesAt (hunk.upTo n).anchors line :=
      List.mem_map.mpr ⟨_, List.mem_filter.mpr ⟨hmem, by simp⟩, rfl⟩
    cases hhead : (sidesAt (hunk.upTo n).anchors line).head? with
    | none => exact .inl rfl
    | some first =>
      rw [Option.bind_some]
      by_cases hall : (sidesAt (hunk.upTo n).anchors line).all (· = first) = true
      · have hfirst : side = first := of_decide_eq_true (List.all_eq_true.mp hall side hside)
        rw [if_pos hall, hfirst]
        exact .inr rfl
      · rw [if_neg hall]
        exact .inl rfl

/-- A line of context, one deleted and two added. -/
def sampleHunk : Hunk where
  oldStart := 7
  oldCount := some 2
  newStart := 7
  newCount := some 3
  rest := [' ', 'f', 'n']
  rows := [.context ['a'], .deleted ['b'], .added ['c', '\r'], .added [], .noNewline [' ', 'N']]

theorem anchors_exact_sample :
    (findCommentableLine (commentableHunksBySide (patchText [sampleHunk] false)) .right 9).isSome ∧
      (.right, 9) ∈ sampleHunk.anchors := by
  have hexact := @anchors_exact [sampleHunk]
    (by simp [sampleHunk, Hunk.OnLines, DiffRow.text])
    (by simp [sampleHunk, Hunk.Numbered, oldRows, newRows]) false
  have hmem : (.right, 9) ∈ sampleHunk.anchors := by decide
  exact ⟨(hexact.1 .right 9).mpr ⟨sampleHunk, List.mem_singleton_self _, hmem⟩, hmem⟩

/-- The numbers of the rows on either side. -/
def rowNumbers : Nat → Nat → List DiffRow → List Nat
  | _, _, [] => []
  | old, new, .context _ :: rows => old :: new :: rowNumbers (old + 1) (new + 1) rows
  | old, new, .deleted _ :: rows => old :: rowNumbers (old + 1) new rows
  | old, new, .added _ :: rows => new :: rowNumbers old (new + 1) rows
  | old, new, .noNewline _ :: rows => rowNumbers old new rows

def lastLineHunk : Hunk where
  oldStart := 2 ^ 32 - 1
  oldCount := none
  newStart := 5
  newCount := none
  rest := []
  rows := [.deleted [], .added []]

/-- After a row with the greatest number the scan of a hunk ends. -/
theorem anchors_lost : ¬ ∀ hunks : List Hunk, (∀ hunk ∈ hunks, hunk.OnLines ∧
      ∀ n ∈ rowNumbers hunk.oldStart hunk.newStart hunk.rows, n < 2 ^ 32) → ∀ ended side line,
    (findCommentableLine (commentableHunksBySide (patchText hunks ended)) side line).isSome ↔
      ∃ hunk ∈ hunks, (side, line) ∈ hunk.anchors := by
  intro hall
  have h := hall [lastLineHunk] (by
    intro hunk hhunk
    obtain rfl := List.mem_singleton.mp hhunk
    exact ⟨by simp [lastLineHunk, Hunk.OnLines, DiffRow.text], by decide⟩) false .right 5
  have hlost : (findCommentableLine (commentableHunksBySide (patchText [lastLineHunk] false))
      .right 5).isSome = false := by decide +kernel
  rw [hlost] at h
  exact Bool.false_ne_true (h.mpr ⟨lastLineHunk, List.mem_singleton_self _, by decide⟩)

end NilsCli.Review
