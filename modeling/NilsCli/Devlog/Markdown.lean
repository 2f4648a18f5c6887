import Mathlib.Data.List.DropRight
import NilsCli.Lib.Fence
import NilsCli.Lib.RawLines

/-!
# The structure of a log file

A month file is Markdown. What looks like a heading or a conflict marker counts only outside a fenced
block: `structuralLineMask` says which lines do.
-/

namespace NilsCli.Devlog

open Lib

abbrev Text := List Char

/-! ## Fences -/

/-- `fence_delimiter`: the run of backticks or tildes that opens or closes a fence. -/
def fenceDelimiter (line : Text) : Option Text :=
  let run (c : Char) := (line.dropWhile isWhitespace).takeWhile (· = c)
  if 3 ≤ (run '\x60').length then some (run '\x60')
  else if 3 ≤ (run '~').length then some (run '~')
  else none

def closesFence (opened line : Text) : Bool := (fenceDelimiter line).any fun run => opened.isPrefixOf run

def structuralLineMask : List Text → List Bool
  | [] => []
  | line :: rest =>
    match fenceDelimiter line with
    | none => true :: structuralLineMask rest
    | some opened =>
      match rest.findIdx? (closesFence opened) with
      | some ends => List.replicate (ends + 2) false ++ structuralLineMask (rest.drop (ends + 1))
      | none => List.replicate (rest.length + 1) false
termination_by lines => lines.length

/-- `unterminated_fence_line`, from a line on. -/
def unterminatedFrom (at_ : Nat) : List Text → Option Nat
  | [] => none
  | line :: rest =>
    match fenceDelimiter line with
    | none => unterminatedFrom (at_ + 1) rest
    | some opened =>
      match rest.findIdx? (closesFence opened) with
      | some ends => unterminatedFrom (at_ + ends + 2) (rest.drop (ends + 1))
      | none => some (at_ + 1)
termination_by lines => lines.length

/-- `unterminated_fence_line`: the first fence that is never closed, counted from one. -/
def unterminatedFenceLine (lines : List Text) : Option Nat := unterminatedFrom 0 lines

def hasUnterminatedFence (lines : List Text) : Bool := (unterminatedFenceLine lines).isSome

def conflictMarkers : List Text := ["<<<<<<<".toList, "|||||||".toList, ">>>>>>>".toList]

def isConflictMarker (line : Text) : Bool := conflictMarkers.any (·.isPrefixOf line)

/-- `first_conflict_marker`, counted from one. -/
def firstConflictMarker (contents : Text) : Option Nat :=
  let lines := linesOf contents
  ((structuralLineMask lines).zip lines).findIdx? (fun row => row.1 && isConflictMarker row.2)
    |>.map (· + 1)

/-- The fences of a log file. -/
def fence : Fence Text Text := ⟨fenceDelimiter, List.isPrefixOf⟩

theorem structuralLineMask_eq (lines : List Text) : structuralLineMask lines = fence.mask none lines := by
  fun_induction structuralLineMask lines with
  | case1 => rfl
  | case2 line rest hnone ih =>
    have hnext : fence.next none line = none := hnone
    have hvisible : fence.visible none line = true := by simp [Fence.visible, fence, hnone]
    rw [Fence.mask, hnext, hvisible, ih]
  | case3 line rest opened hopen ends hends ih =>
    have hnext : fence.next none line = some opened := hopen
    have hvisible : fence.visible none line = false := by simp [Fence.visible, fence, hopen]
    have hidx : rest.findIdx? (fun x => (fence.delim x).any (fence.closes opened)) = some ends := hends
    rw [Fence.mask, hnext, hvisible, Fence.mask_open, hidx, ih]
    rfl
  | case4 line rest opened hopen hends =>
    have hnext : fence.next none line = some opened := hopen
    have hvisible : fence.visible none line = false := by simp [Fence.visible, fence, hopen]
    have hidx : rest.findIdx? (fun x => (fence.delim x).any (fence.closes opened)) = none := hends
    rw [Fence.mask, hnext, hvisible, Fence.mask_open, hidx]
    rfl

theorem unterminatedFrom_isSome (at_ : Nat) (lines : List Text) :
    (unterminatedFrom at_ lines).isSome = (fence.after none lines).isSome := by
  fun_induction unterminatedFrom at_ lines with
  | case1 => rfl
  | case2 at_ line rest hnone ih =>
    have hnext : fence.next none line = none := hnone
    rw [Fence.after_cons, hnext, ih]
  | case3 at_ line rest opened hopen ends hends ih =>
    have hnext : fence.next none line = some opened := hopen
    have hidx : rest.findIdx? (fun x => (fence.delim x).any (fence.closes opened)) = some ends := hends
    rw [Fence.after_cons, hnext, Fence.after_open, hidx, ih]
  | case4 at_ line rest opened hopen hends =>
    have hnext : fence.next none line = some opened := hopen
    have hidx : rest.findIdx? (fun x => (fence.delim x).any (fence.closes opened)) = none := hends
    rw [Fence.after_cons, hnext, Fence.after_open, hidx]
    rfl

theorem hasUnterminatedFence_iff {lines : List Text} :
    hasUnterminatedFence lines = false ↔ fence.after none lines = none := by
  rw [hasUnterminatedFence, unterminatedFenceLine, unterminatedFrom_isSome,
    Option.isSome_eq_false_iff, Option.isNone_iff_eq_none]

end NilsCli.Devlog

/-!
## Trimming a text of lines

The writers of the log trim a text at its end before they go on with it. What this leaves of the lines
is said by `trimEnd_lines`: blank lines at the end go, and the last line that is not blank loses the
white space at its own end.
-/

namespace NilsCli.Devlog

open Lib

def trimEnd (text : Text) : Text := text.rdropWhile isWhitespace

/-- `str::trim`. -/
def trimmed (text : Text) : Text := trimEnd (text.dropWhile isWhitespace)

def blank (line : Text) : Bool := line.all isWhitespace

variable {text line raw : Text} {raws : List Text}

theorem trimEnd_eq_nil_iff : trimEnd text = [] ↔ blank text = true := by
  rw [trimEnd, List.rdropWhile_eq_nil_iff, blank, List.all_eq_true]

/-- What a text has beyond its trimmed end is blank. -/
theorem trimEnd_append (text : Text) : ∃ tail, blank tail = true ∧ text = trimEnd text ++ tail := by
  refine ⟨text.rtakeWhile isWhitespace, ?_, List.rdropWhile_append_rtakeWhile.symm⟩
  rw [blank, List.all_eq_true]
  exact fun c hc => List.mem_rtakeWhile_imp hc

theorem trimEnd_append_blank (text : Text) {tail : Text} (h : blank tail = true) :
    trimEnd (text ++ tail) = trimEnd text := by
  induction tail using List.reverseRecOn with
  | nil => rw [List.append_nil]
  | append_singleton tail c ih =>
    rw [blank, List.all_append, Bool.and_eq_true] at h
    have hc : isWhitespace c = true := by simpa using h.2
    rw [← List.append_assoc, trimEnd, List.rdropWhile_concat_pos _ _ _ hc]
    exact ih h.1

theorem trimEnd_append_of_not_blank (text : Text) {tail : Text} (h : blank tail = false) :
    trimEnd (text ++ tail) = text ++ trimEnd tail := by
  induction tail using List.reverseRecOn with
  | nil => exact absurd h (by decide)
  | append_singleton tail c ih =>
    rw [← List.append_assoc]
    by_cases hc : isWhitespace c = true
    · rw [blank, List.all_append, Bool.and_eq_false_iff] at h
      have htail : blank tail = false := h.resolve_right (by simp [hc])
      rw [trimEnd, List.rdropWhile_concat_pos _ _ _ hc, trimEnd, List.rdropWhile_concat_pos _ _ _ hc]
      exact ih htail
    · rw [trimEnd, List.rdropWhile_concat_neg _ _ _ hc, trimEnd, List.rdropWhile_concat_neg _ _ _ hc,
        List.append_assoc]

@[simp] theorem trimEnd_trimEnd (text : Text) : trimEnd (trimEnd text) = trimEnd text :=
  List.rdropWhile_idempotent _ _

@[simp] theorem trimEnd_newline (text : Text) : trimEnd (text ++ ['\n']) = trimEnd text :=
  trimEnd_append_blank text (by decide)

theorem mem_of_mem_trimEnd {c : Char} (h : c ∈ trimEnd text) : c ∈ text := by
  obtain ⟨tail, -, heq⟩ := trimEnd_append text
  rw [heq]
  exact List.mem_append_left _ h

theorem trimEnd_ne_nil_of_not_blank (h : blank text = false) : trimEnd text ≠ [] := by
  intro hnil
  rw [trimEnd_eq_nil_iff.mp hnil] at h
  cases h

/-! ## Lines -/

theorem blank_lineEnd {tail : Text} (h : ∀ c ∈ tail, c = '\n' ∨ c = '\r') : blank tail = true := by
  rw [blank, List.all_eq_true]
  intro c hc
  rcases h c hc with rfl | rfl <;> decide

theorem lineOf_lineEnd (raw : Text) :
    ∃ tail, (∀ c ∈ tail, c = '\n' ∨ c = '\r') ∧ raw = lineOf raw ++ tail := by
  unfold lineOf
  by_cases hn : raw.getLast? = some '\n'
  · obtain ⟨init, rfl⟩ := List.getLast?_eq_some_iff.mp hn
    rw [if_pos hn, List.dropLast_concat]
    by_cases hr : init.getLast? = some '\r'
    · obtain ⟨body, rfl⟩ := List.getLast?_eq_some_iff.mp hr
      rw [if_pos hr, List.dropLast_concat]
      exact ⟨['\r', '\n'], by simp, by simp⟩
    · rw [if_neg hr]
      exact ⟨['\n'], by simp, rfl⟩
  · rw [if_neg hn]
    exact ⟨[], by simp, by simp⟩

theorem lineOf_append (raw : Text) : ∃ tail, blank tail = true ∧ raw = lineOf raw ++ tail :=
  (lineOf_lineEnd raw).imp fun _ h => ⟨blank_lineEnd h.1, h.2⟩

@[simp] theorem trimEnd_lineOf (raw : Text) : trimEnd (lineOf raw) = trimEnd raw := by
  obtain ⟨tail, htail, heq⟩ := lineOf_append raw
  conv_rhs => rw [heq]
  rw [trimEnd_append_blank _ htail]

theorem takeWhile_eq_append_blank {c : Char} (hc : isWhitespace c = false) {tail : Text}
    (htail : blank tail = true) (text : Text) :
    (text ++ tail).takeWhile (· = c) = text.takeWhile (· = c) := by
  rw [List.takeWhile_append]
  split
  · have hnone : tail.takeWhile (· = c) = [] := by
      cases tail with
      | nil => rfl
      | cons d tail =>
        have hd : isWhitespace d = true := List.all_eq_true.mp htail d List.mem_cons_self
        have hne : d ≠ c := fun heq => by
          rw [heq, hc] at hd
          cases hd
        rw [List.takeWhile_cons_of_neg (by simpa using hne)]
    rw [hnone, List.append_nil]
    rename_i hlength
    exact ((List.takeWhile_prefix _).eq_of_length hlength).symm
  · rfl

theorem dropWhile_append_blank {tail : Text} (htail : blank tail = true) (text : Text) :
    (text ++ tail).dropWhile isWhitespace =
      if blank text then [] else text.dropWhile isWhitespace ++ tail := by
  rw [List.dropWhile_append]
  by_cases htext : blank text = true
  · have hnil : text.dropWhile isWhitespace = [] :=
      List.dropWhile_eq_nil_iff.mpr (List.all_eq_true.mp htext)
    have hnil' : tail.dropWhile isWhitespace = [] :=
      List.dropWhile_eq_nil_iff.mpr (List.all_eq_true.mp htail)
    rw [hnil, hnil', htext]
    rfl
  · have hne : text.dropWhile isWhitespace ≠ [] := fun hnil =>
      htext (List.all_eq_true.mpr (List.dropWhile_eq_nil_iff.mp hnil))
    rw [if_neg (by simpa using hne), if_neg htext]

theorem fenceDelimiter_append_blank {tail : Text} (htail : blank tail = true) (line : Text) :
    fenceDelimiter (line ++ tail) = fenceDelimiter line := by
  have hrun : ∀ c, isWhitespace c = false →
      ((line ++ tail).dropWhile isWhitespace).takeWhile (· = c) =
        (line.dropWhile isWhitespace).takeWhile (· = c) := by
    intro c hc
    rw [dropWhile_append_blank htail]
    by_cases hline : blank line = true
    · have hnil : line.dropWhile isWhitespace = [] :=
        List.dropWhile_eq_nil_iff.mpr (List.all_eq_true.mp hline)
      rw [if_pos hline, hnil]
    · rw [if_neg hline, takeWhile_eq_append_blank hc htail]
  unfold fenceDelimiter
  simp only [hrun '\x60' (by decide), hrun '~' (by decide)]

@[simp] theorem fenceDelimiter_trimEnd (line : Text) :
    fenceDelimiter (trimEnd line) = fenceDelimiter line := by
  obtain ⟨tail, htail, heq⟩ := trimEnd_append line
  conv_rhs => rw [heq]
  rw [fenceDelimiter_append_blank htail]

@[simp] theorem fenceDelimiter_lineOf (raw : Text) :
    fenceDelimiter (lineOf raw) = fenceDelimiter raw := by
  rw [← fenceDelimiter_trimEnd, trimEnd_lineOf, fenceDelimiter_trimEnd]

theorem fenceDelimiter_blank (h : blank line = true) : fenceDelimiter line = none := by
  rw [← List.nil_append line, fenceDelimiter_append_blank h]
  rfl

theorem blank_append {a b : Text} : blank (a ++ b) = (blank a && blank b) := List.all_append

theorem blank_flatten (h : ∀ raw ∈ raws, blank raw = true) : blank raws.flatten = true := by
  rw [blank, List.all_eq_true]
  intro c hc
  obtain ⟨raw, hraw, hc⟩ := List.mem_flatten.mp hc
  exact List.all_eq_true.mp (h raw hraw) c hc

theorem trimEnd_lines (raws : List Text) :
    (∀ raw ∈ raws, blank raw = true) ∧ trimEnd raws.flatten = [] ∨
      ∃ init last blanks, raws = init ++ last :: blanks ∧ blank last = false ∧
        (∀ raw ∈ blanks, blank raw = true) ∧ trimEnd raws.flatten = init.flatten ++ trimEnd last := by
  induction raws using List.reverseRecOn with
  | nil => exact .inl ⟨fun _ h => absurd h List.not_mem_nil, rfl⟩
  | append_singleton raws raw ih =>
    have hflatten : (raws ++ [raw]).flatten = raws.flatten ++ raw := by simp
    by_cases hraw : blank raw = true
    · rw [hflatten, trimEnd_append_blank _ hraw]
      rcases ih with ⟨hall, hnil⟩ | ⟨init, last, blanks, rfl, hlast, hblanks, htrim⟩
      · refine .inl ⟨fun raw' h => ?_, hnil⟩
        rcases List.mem_append.mp h with h | h
        · exact hall raw' h
        · rw [List.mem_singleton.mp h, hraw]
      · refine .inr ⟨init, last, blanks ++ [raw], by simp, hlast, fun raw' h => ?_, htrim⟩
        rcases List.mem_append.mp h with h | h
        · exact hblanks raw' h
        · rw [List.mem_singleton.mp h, hraw]
    · have hraw' : blank raw = false := by simpa using hraw
      refine .inr ⟨raws, raw, [], rfl, hraw', fun _ h => absurd h List.not_mem_nil, ?_⟩
      rw [hflatten, trimEnd_append_of_not_blank _ hraw']

/-- A trimmed line of a text, with a line feed, is whole. -/
theorem whole_trimEnd (h : raw ∈ splitInclusive text) : Whole (trimEnd raw ++ ['\n']) := by
  obtain ⟨raws, last, hsplit, hraws, hlast⟩ := splitInclusive_eq text
  rw [hsplit, List.mem_append] at h
  rcases h with h | h
  · obtain ⟨body, hbody, rfl⟩ := hraws raw h
    refine ⟨trimEnd body, fun hmem => hbody (mem_of_mem_trimEnd hmem), ?_⟩
    rw [trimEnd_newline]
  · rcases hlast with rfl | ⟨body, rfl, -, hbody⟩
    · exact absurd h List.not_mem_nil
    · rw [List.mem_singleton.mp h]
      exact ⟨trimEnd body, fun hmem => hbody (mem_of_mem_trimEnd hmem), rfl⟩

theorem whole_of_before {init rest : List Text} (h : splitInclusive text = init ++ rest)
    (hrest : rest ≠ []) : ∀ raw ∈ init, Whole raw := by
  obtain ⟨raws, last, hsplit, hraws, hlast⟩ := splitInclusive_eq text
  rw [hsplit] at h
  rcases hlast with rfl | ⟨body, rfl, -, -⟩
  · rw [List.append_nil] at h
    intro raw hraw
    exact hraws raw (h ▸ List.mem_append_left _ hraw)
  · have hdrop := congrArg List.dropLast h
    rw [List.dropLast_concat, List.dropLast_append_of_ne_nil hrest] at hdrop
    intro raw hraw
    exact hraws raw (hdrop ▸ List.mem_append_left _ hraw)

end NilsCli.Devlog
