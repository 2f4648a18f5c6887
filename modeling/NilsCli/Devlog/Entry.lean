import NilsCli.Review.Anchors
import NilsCli.ReadOnly.Commands
import NilsCli.Devlog.Fold

/-!
# Writing an entry

An entry is rendered as a heading and its sections, each bullet wrapped at a column.
-/

namespace NilsCli.Devlog

open Lib List

variable (row : Text × List Text) (text : Text)

/-! ## Autolinks -/

/-- `backtick_run`, at the start of a text. -/
def backtickRun : Nat := (text.takeWhile (· = '\x60')).length

def codeSpanEnd (run : Nat) : Text → Option Nat
  | [] => none
  | c :: cs =>
    if c = '\x60' then
      let closing := backtickRun (c :: cs)
      if closing = run then some closing
      else (codeSpanEnd run (cs.drop (closing - 1))).map (· + closing)
    else (codeSpanEnd run cs).map (· + 1)
termination_by text => text.length
decreasing_by all_goals simp only [List.length_drop, List.length_cons]; omega

def sentencePunctuation : Text := ['.', ',', ';', ':', '!', '?', ']']

def trimUrl (url : Text) : Text :=
  let kept := url.rdropWhile sentencePunctuation.contains
  if kept.getLast? = some ')' ∧ kept.count '(' < kept.count ')' then trimUrl kept.dropLast else kept
termination_by url.length
decreasing_by
  rename_i h
  have hle : (url.rdropWhile sentencePunctuation.contains).length ≤ url.length :=
    (List.rdropWhile_prefix _ _).length_le
  have hpos : 0 < (url.rdropWhile sentencePunctuation.contains).length := by
    refine List.length_pos_of_ne_nil fun hnil => ?_
    have hlast := h.1
    change (url.rdropWhile _).getLast? = _ at hlast
    rw [hnil] at hlast
    cases hlast
  rw [List.length_dropLast]
  omega

/-- `bare_url_end`: the length of the URL that a text starts with. -/
def bareUrlEnd (before text : Text) : Option Nat :=
  match ["https://".toList, "http://".toList].find? (·.isPrefixOf text) with
  | none => none
  | some scheme =>
    if before.head? = some '<' ∨ before.head? = some '[' ∨ "(]".toList.isPrefixOf before then none
    else
      let tail := (text.drop scheme.length).takeWhile fun c =>
        !ReadOnly.isAsciiWhitespace c && c ≠ '<' && c ≠ '>' && c ≠ '\x60'
      let url := trimUrl (scheme ++ tail)
      if scheme.length < url.length then some url.length else none

def autolinkFrom (before : Text) : Text → Text
  | [] => []
  | c :: cs =>
    if c = '\x60' then
      let run := backtickRun (c :: cs)
      let span := run + ((codeSpanEnd run ((c :: cs).drop run)).getD 0)
      c :: cs.take (span - 1) ++ autolinkFrom ((c :: cs.take (span - 1)).reverse ++ before) (cs.drop (span - 1))
    else if c = 'h' then
      match bareUrlEnd before (c :: cs) with
      | some url =>
        '<' :: (c :: cs.take (url - 1) ++
          '>' :: autolinkFrom ((c :: cs.take (url - 1)).reverse ++ before) (cs.drop (url - 1)))
      | none => c :: autolinkFrom (c :: before) cs
    else c :: autolinkFrom (c :: before) cs
termination_by text => text.length
decreasing_by all_goals simp only [List.length_drop, List.length_cons]; omega

def autolink : Text := autolinkFrom [] text

/-! ## Bullets -/

def wrapColumn : Nat := 79

/-- The loop of `render_bullet`: the lines of a bullet, from the line that is being filled. -/
def wrapWords (current : Text) (hasWord : Bool) : List Text → List Text
  | [] => [current]
  | word :: words =>
    if hasWord && decide (current.length + 1 + word.length > wrapColumn) then
      current :: wrapWords ("  ".toList ++ word) true words
    else wrapWords (current ++ (if hasWord then [' '] else []) ++ word) true words

/-- The words that start a line of their own, behind so many characters of the line before. -/
def leadingWords : Nat → Bool → List Text → List Text
  | _, _, [] => []
  | column, hasWord, word :: words =>
    if hasWord && decide (column + 1 + word.length > wrapColumn) then
      word :: leadingWords (2 + word.length) true words
    else leadingWords (column + (if hasWord then 1 else 0) + word.length) true words

def bulletLines : List Text :=
  wrapWords "- ".toList false (Review.splitWhitespace (autolink text))

def renderBullet : Text := joinLines (bulletLines text)

/-! ## Entries -/

structure Entry where
  title : Text
  result : List Text
  why : List Text
  evidence : List Text
  links : List Text
  followUps : List Text

/-- The sections of an entry, with their bullets. -/
def Entry.sections (entry : Entry) : List (Text × List Text) :=
  sectionLabels.zip [entry.result, entry.why, entry.evidence, entry.links, entry.followUps]

/-- The sections that are rendered. -/
def Entry.rendered (entry : Entry) : List (Text × List Text) :=
  entry.sections.filter fun row => !(row.2.isEmpty && !requiredSections.contains row.1)

/-- The bullets of a section that is rendered. -/
def shownBullets (bullets : List Text) : List Text := if bullets = [] then ["TODO".toList] else bullets

def renderSection : Text :=
  '\n' :: ("### ".toList ++ row.1 ++ "\n\n".toList ++
    (shownBullets row.2).flatMap fun bullet => renderBullet bullet ++ ['\n'])

def Entry.headingLine (entry : Entry) (date : EntryDate) : Text :=
  "## ".toList ++ date.text ++ " - ".toList ++ trimmed entry.title

def Entry.render (entry : Entry) (date : EntryDate) : Text :=
  entry.headingLine date ++ '\n' :: entry.rendered.flatMap renderSection

def fragmentRow (entry : Entry) (date : EntryDate) (slug : Text) : Text × Text :=
  let id := date.text ++ '-' :: slug
  let parts := (splitOnce ['\n'] (entry.render date)).getD ([], [])
  (id ++ ".md".toList, parts.1 ++ '\n' :: idMark ++ id ++ " -->\n".toList ++ parts.2)

structure Insertion where
  month : Month
  date : EntryDate
  createdMonthFile : Bool

/-- Why `insert` refuses. -/
inductive InsertFault where
  | conflictMarkers (line : Nat)
  | missingHeading (expected : Text)

def insert (existing : Option Text) (entry : Entry) (date : EntryDate) :
    Except InsertFault (Insertion × Text) :=
  let heading := date.month.heading
  let contents := existing.getD (heading ++ ['\n'])
  match firstConflictMarker contents with
  | some line => .error (.conflictMarkers line)
  | none =>
    let first := (linesOf contents).headD []
    if trimmed first ≠ heading then .error (.missingHeading heading)
    else
      let rest := (((splitOnce ['\n'] contents).map (·.2)).getD []).dropWhile (· = '\n')
      .ok (⟨date.month, date, existing.isNone⟩,
        first ++ "\n\n".toList ++ entry.render date ++ if rest = [] then [] else '\n' :: rest)

/-! ## Plain lines -/

variable {line current word : Text} {lines words : List Text} {entry : Entry} {date : EntryDate}

structure Plain (line : Text) : Prop where
  one : '\n' ∉ line
  ends : trimLineEnd line = line
  fence : fenceDelimiter line = none
  conflict : isConflictMarker line = false

theorem forall_of_all {p : Char → Prop} [DecidablePred p] {text : Text}
    (h : text.all (fun c => decide (p c)) = true) : ∀ c ∈ text, p c :=
  fun c hc => of_decide_eq_true (List.all_eq_true.mp h c hc)

theorem takeWhile_append_stop {c d : Char} (h : d ≠ c) (text tail : Text) :
    (text ++ d :: tail).takeWhile (· = c) = text.takeWhile (· = c) := by
  induction text with
  | nil => simp [h]
  | cons e text ih =>
    rw [cons_append, takeWhile_cons, takeWhile_cons, ih]

theorem fenceDelimiter_append_space (h : blank current = false) (tail : Text) :
    fenceDelimiter (current ++ ' ' :: tail) = fenceDelimiter current := by
  have hdrop : (current ++ ' ' :: tail).dropWhile isWhitespace =
      current.dropWhile isWhitespace ++ ' ' :: tail := by
    rw [List.dropWhile_append, if_neg]
    rw [List.isEmpty_iff, dropWhile_eq_nil_iff, ← all_eq_true, ← blank, h]
    exact Bool.false_ne_true
  unfold fenceDelimiter
  simp only [hdrop, takeWhile_append_stop (show (' ' : Char) ≠ '\x60' by decide),
    takeWhile_append_stop (show (' ' : Char) ≠ '~' by decide)]

theorem fenceDelimiter_indent (word : Text) : fenceDelimiter ("  ".toList ++ word) = fenceDelimiter word := by
  have hdrop : ("  ".toList ++ word).dropWhile isWhitespace = word.dropWhile isWhitespace :=
    dropWhile_append_of_pos (forall_of_all (by decide))
  unfold fenceDelimiter
  rw [hdrop]

theorem fenceDelimiter_cons {c : Char} (h : isWhitespace c = false ∧ c ≠ '\x60' ∧ c ≠ '~') (rest : Text) :
    fenceDelimiter (c :: rest) = none := by
  have hdrop : (c :: rest).dropWhile isWhitespace = c :: rest :=
    dropWhile_cons_of_neg (by simp [h.1])
  unfold fenceDelimiter
  simp only [hdrop]
  rw [takeWhile_cons_of_neg (by simp [h.2.1]), takeWhile_cons_of_neg (by simp [h.2.2])]
  rfl

theorem not_mem_of_splitOnP {p : Char → Bool} (text : Text) :
    ∀ part ∈ text.splitOnP p, ∀ c ∈ part, p c = false := by
  induction text with
  | nil => simp
  | cons d text ih =>
    intro part hpart c hc
    rw [splitOnP_cons_eq_if_modifyHead] at hpart
    split at hpart
    next =>
      rcases List.mem_cons.mp hpart with rfl | hpart
      · exact absurd hc not_mem_nil
      · exact ih part hpart c hc
    next hd =>
      cases hparts : text.splitOnP p with
      | nil => exact absurd hparts (splitOnP_ne_nil p text)
      | cons first parts =>
        rw [hparts] at hpart ih
        rcases List.mem_cons.mp hpart with rfl | hpart
        · rcases List.mem_cons.mp hc with rfl | hc
          · simpa using hd
          · exact ih first mem_cons_self c hc
        · exact ih part (mem_cons_of_mem _ hpart) c hc

theorem splitWhitespace_words {text : Text} (h : word ∈ Review.splitWhitespace text) :
    word ≠ [] ∧ ∀ c ∈ word, isWhitespace c = false := by
  rw [Review.splitWhitespace, mem_filter] at h
  exact ⟨by simpa using h.2, not_mem_of_splitOnP text word h.1⟩

structure Inner (line : Text) : Prop extends Plain line where
  noEntry : sectionMark.isPrefixOf line = false
  noSection : "### ".toList.isPrefixOf? line = none

/-- What a line of a bullet is while it is filled. -/
structure Filling (current : Text) : Prop where
  chars : ∀ c ∈ current, c = ' ' ∨ isWhitespace c = false
  starts : (∃ rest, current = "- ".toList ++ rest) ∨ ∃ rest, current = "  ".toList ++ rest

theorem trimLineEnd_eq_self (h : ∀ c ∈ line, c ≠ '\n' ∧ c ≠ '\r') : trimLineEnd line = line := by
  refine List.rdropWhile_eq_self_iff.mpr fun hne hend => ?_
  rcases of_decide_eq_true hend with heq | heq
  · exact (h _ (getLast_mem hne)).1 heq
  · exact (h _ (getLast_mem hne)).2 heq

theorem Filling.inner (h : Filling current) (hfence : fenceDelimiter current = none) : Inner current := by
  have hchars : ∀ c ∈ current, c ≠ '\n' ∧ c ≠ '\r' := by
    intro c hc
    rcases h.chars c hc with rfl | hshown
    · decide
    · constructor
      · rintro rfl
        exact absurd hshown (by decide)
      · rintro rfl
        exact absurd hshown (by decide)
  refine ⟨⟨fun hmem => (hchars _ hmem).1 rfl, trimLineEnd_eq_self hchars, hfence, ?_⟩, ?_, ?_⟩
  all_goals rcases h.starts with ⟨rest, rfl⟩ | ⟨rest, rfl⟩ <;> rfl

theorem wrapWords_filling {hasWord : Bool} (hcurrent : Filling current)
    (hwords : ∀ word ∈ words, ∀ c ∈ word, isWhitespace c = false) :
    ∀ line ∈ wrapWords current hasWord words, Filling line := by
  induction words generalizing current hasWord with
  | nil =>
    intro line hline
    exact List.mem_singleton.mp hline ▸ hcurrent
  | cons word words ih =>
    obtain ⟨hword, hwords⟩ := List.forall_mem_cons.mp hwords
    intro line hline
    rw [wrapWords] at hline
    split at hline
    · rcases List.mem_cons.mp hline with rfl | hline
      · exact hcurrent
      · refine ih ⟨fun c hc => ?_, .inr ⟨word, rfl⟩⟩ hwords line hline
        rcases List.mem_append.mp hc with hc | hc
        · exact .inl (by simpa using hc)
        · exact .inr (hword c hc)
    · refine ih ⟨fun c hc => ?_, ?_⟩ hwords line hline
      · rw [mem_append, mem_append] at hc
        rcases hc with (hc | hc) | hc
        · exact hcurrent.chars c hc
        · cases hasWord with
          | true => exact .inl (List.mem_singleton.mp hc)
          | false => exact absurd hc not_mem_nil
        · exact .inr (hword c hc)
      · rcases hcurrent.starts with ⟨rest, rfl⟩ | ⟨rest, rfl⟩
        · exact .inl ⟨_, by rw [append_assoc, append_assoc]⟩
        · exact .inr ⟨_, by rw [append_assoc, append_assoc]⟩

/-- A line of a bullet opens a fence exactly if the word does that starts it. -/
theorem wrapWords_fence {hasWord : Bool}
    (hshown : hasWord = true → blank current = false) (hstart : hasWord = false → current = "- ".toList)
    (hwords : ∀ word ∈ words, word ≠ [] ∧ ∀ c ∈ word, isWhitespace c = false) :
    (∀ line ∈ wrapWords current hasWord words, fenceDelimiter line = none) ↔
      fenceDelimiter current = none ∧
        ∀ word ∈ leadingWords current.length hasWord words, fenceDelimiter word = none := by
  induction words generalizing current hasWord with
  | nil => simp [wrapWords, leadingWords]
  | cons word words ih =>
    obtain ⟨⟨hne, hword⟩, hwords⟩ := List.forall_mem_cons.mp hwords
    have hnotBlank : ∀ before : Text, blank (before ++ word) = false := by
      intro before
      obtain ⟨c, cs, rfl⟩ := exists_cons_of_ne_nil hne
      simp [blank, hword c mem_cons_self]
    have hlength : ("  ".toList ++ word).length = 2 + word.length := length_append
    rw [wrapWords, leadingWords]
    split
    · rw [List.forall_mem_cons, List.forall_mem_cons,
        ih (fun _ => hnotBlank _) (fun h => absurd h (by decide)) hwords, fenceDelimiter_indent, hlength]
    · have hfilled : (current ++ (if hasWord then [' '] else []) ++ word).length =
          current.length + (if hasWord then 1 else 0) + word.length := by
        rw [length_append, length_append]
        split <;> rfl
      rw [ih (fun _ => hnotBlank _) (fun h => absurd h (by decide)) hwords, hfilled]
      refine and_congr_left fun _ => ?_
      cases hasWord with
      | true => rw [if_pos rfl, append_assoc, singleton_append, fenceDelimiter_append_space (hshown rfl)]
      | false =>
        rw [hstart rfl]
        exact iff_of_true (fenceDelimiter_cons (by decide) _) (by decide)

theorem wrapWords_ne_nil (current : Text) (hasWord : Bool) (words : List Text) :
    wrapWords current hasWord words ≠ [] := by
  induction words generalizing current hasWord with
  | nil => exact cons_ne_nil _ _
  | cons word words ih =>
    rw [wrapWords]
    split
    · exact cons_ne_nil _ _
    · exact ih _ _

/-- No word of the bullet that wrapping puts at the start of a line opens a fence. -/
def Fenceless (bullet : Text) : Prop :=
  ∀ word ∈ leadingWords 2 false (Review.splitWhitespace (autolink bullet)), fenceDelimiter word = none

theorem fenceless_iff {bullet : Text} :
    Fenceless bullet ↔ ∀ line ∈ bulletLines bullet, fenceDelimiter line = none :=
  ((wrapWords_fence (fun h => absurd h (by decide)) (fun _ => rfl) fun _ => splitWhitespace_words).trans
    (and_iff_right (by decide))).symm

theorem bulletLines_inner {bullet : Text} (h : Fenceless bullet) :
    ∀ line ∈ bulletLines bullet, Inner line := by
  intro line hline
  refine (wrapWords_filling ⟨forall_of_all (by decide), .inl ⟨[], rfl⟩⟩ ?_ line hline).inner (fenceless_iff.mp h line hline)
  exact fun word hword => (splitWhitespace_words hword).2

/-! ## The lines of an entry -/

/-- The text of lines. -/
def unlines (lines : List Text) : Text := (lines.map (· ++ ['\n'])).flatten

def sectionLines : List Text :=
  [] :: ("### ".toList ++ row.1) :: [] :: (shownBullets row.2).flatMap bulletLines

def Entry.allLines (entry : Entry) (date : EntryDate) : List Text :=
  entry.headingLine date :: entry.rendered.flatMap sectionLines

theorem unlines_append (a b : List Text) : unlines (a ++ b) = unlines a ++ unlines b := by
  rw [unlines, map_append, flatten_append, unlines, unlines]

theorem unlines_cons (line : Text) (lines : List Text) :
    unlines (line :: lines) = line ++ '\n' :: unlines lines := by
  rw [unlines, map_cons, flatten_cons, append_assoc, singleton_append, unlines]

theorem unlines_flatMap {α : Type} (f : α → List Text) (xs : List α) :
    unlines (xs.flatMap f) = xs.flatMap fun x => unlines (f x) := by
  induction xs with
  | nil => rfl
  | cons x xs ih => rw [flatMap_cons, flatMap_cons, unlines_append, ih]

theorem joinLines_newline (h : lines ≠ []) : joinLines lines ++ ['\n'] = unlines lines := by
  obtain ⟨first, rest, rfl⟩ := exists_cons_of_ne_nil h
  rw [joinLines_cons, unlines_cons, append_assoc]
  congr 1
  clear h
  induction rest with
  | nil => rfl
  | cons next rest ih =>
    rw [flatMap_cons, unlines_cons, ← ih]
    simp

theorem renderSection_eq : renderSection row = unlines (sectionLines row) := by
  have hbullets : (shownBullets row.2).flatMap (fun bullet => renderBullet bullet ++ ['\n']) =
      unlines ((shownBullets row.2).flatMap bulletLines) := by
    rw [unlines_flatMap]
    refine flatMap_congr fun bullet _ => ?_
    exact joinLines_newline (wrapWords_ne_nil _ _ _)
  rw [renderSection, hbullets, sectionLines, unlines_cons, unlines_cons, unlines_cons]
  simp

theorem Entry.render_eq (entry : Entry) (date : EntryDate) :
    entry.render date = unlines (entry.allLines date) := by
  have hsections : entry.rendered.flatMap renderSection = unlines (entry.rendered.flatMap sectionLines) := by
    rw [unlines_flatMap]
    exact flatMap_congr fun row _ => renderSection_eq row
  rw [Entry.render, hsections, Entry.allLines, unlines_cons]

end NilsCli.Devlog
