import Mathlib.Data.List.Basic
import NilsCli.Lib.Text

/-!
# Lines with their ends

`splitInclusive` cuts a text after each line feed, so that the lines make up the text.
-/

namespace Lib

/-- `str::split_inclusive('\n')`. -/
def splitInclusive : List Char → List (List Char)
  | [] => []
  | c :: cs =>
    if c = '\n' then [c] :: splitInclusive cs
    else
      match splitInclusive cs with
      | [] => [[c]]
      | line :: lines => (c :: line) :: lines

/-- A line without its end, as `str::lines` gives it: a carriage return goes only with a line feed. -/
def lineOf (raw : List Char) : List Char :=
  if raw.getLast? = some '\n' then
    if raw.dropLast.getLast? = some '\r' then raw.dropLast.dropLast else raw.dropLast
  else raw

/-- `str::lines`. -/
def linesOf (text : List Char) : List (List Char) := (splitInclusive text).map lineOf

/-- A line that ends with its line feed. -/
def Whole (raw : List Char) : Prop := ∃ body, '\n' ∉ body ∧ raw = body ++ ['\n']

variable {text raw body : List Char} {raws : List (List Char)}

@[simp] theorem flatten_splitInclusive (text : List Char) : (splitInclusive text).flatten = text := by
  induction text with
  | nil => rfl
  | cons c cs ih =>
    rw [splitInclusive]
    by_cases hc : c = '\n'
    · simp [hc, ih]
    · rw [if_neg hc]
      cases hlines : splitInclusive cs with
      | nil =>
        rw [hlines] at ih
        simp [← ih]
      | cons line lines =>
        rw [hlines] at ih
        simp [← ih]

theorem splitInclusive_body (hbody : '\n' ∉ body) (text : List Char) :
    splitInclusive (body ++ '\n' :: text) = (body ++ ['\n']) :: splitInclusive text := by
  induction body with
  | nil => simp [splitInclusive]
  | cons c body ih =>
    rw [List.mem_cons, not_or] at hbody
    rw [List.cons_append, splitInclusive, if_neg (Ne.symm hbody.1), ih hbody.2]
    rfl

theorem splitInclusive_last (hbody : '\n' ∉ body) (hne : body ≠ []) : splitInclusive body = [body] := by
  induction body with
  | nil => exact absurd rfl hne
  | cons c body ih =>
    rw [List.mem_cons, not_or] at hbody
    rw [splitInclusive, if_neg (Ne.symm hbody.1)]
    cases body with
    | nil => rfl
    | cons d body => rw [ih hbody.2 (List.cons_ne_nil _ _)]

/-- Whole lines are cut where they were put together. -/
theorem splitInclusive_flatten_append (h : ∀ raw ∈ raws, Whole raw) (text : List Char) :
    splitInclusive (raws.flatten ++ text) = raws ++ splitInclusive text := by
  induction raws with
  | nil => rfl
  | cons raw raws ih =>
    rw [List.forall_mem_cons] at h
    obtain ⟨body, hbody, rfl⟩ := h.1
    rw [List.flatten_cons, List.append_assoc, List.append_assoc, List.singleton_append,
      splitInclusive_body hbody, ih h.2]
    rfl

theorem splitInclusive_flatten (h : ∀ raw ∈ raws, Whole raw) : splitInclusive raws.flatten = raws := by
  have hsplit := splitInclusive_flatten_append h []
  rwa [List.append_nil, splitInclusive, List.append_nil] at hsplit

/-- A text is some whole lines and a line without its end. -/
theorem exists_whole_append (text : List Char) :
    ∃ (raws : List (List Char)) (last : List Char), text = raws.flatten ++ last ∧
    (∀ raw ∈ raws, Whole raw) ∧ '\n' ∉ last := by
  induction text with
  | nil => exact ⟨[], [], rfl, fun _ h => absurd h List.not_mem_nil, List.not_mem_nil⟩
  | cons c cs ih =>
    obtain ⟨raws, last, rfl, hraws, hlast⟩ := ih
    by_cases hc : c = '\n'
    · refine ⟨[c] :: raws, last, rfl, List.forall_mem_cons.mpr ⟨⟨[], List.not_mem_nil, ?_⟩, hraws⟩, hlast⟩
      rw [hc]
      rfl
    · cases raws with
      | nil =>
        refine ⟨[], c :: last, rfl, hraws, ?_⟩
        rw [List.mem_cons, not_or]
        exact ⟨Ne.symm hc, hlast⟩
      | cons raw raws =>
        rw [List.forall_mem_cons] at hraws
        obtain ⟨body, hbody, rfl⟩ := hraws.1
        refine ⟨(c :: body ++ ['\n']) :: raws, last, rfl, List.forall_mem_cons.mpr ⟨?_, hraws.2⟩, hlast⟩
        refine ⟨c :: body, ?_, rfl⟩
        rw [List.mem_cons, not_or]
        exact ⟨Ne.symm hc, hbody⟩

theorem whole_of_ends (h : text.getLast? = some '\n') : ∀ raw ∈ splitInclusive text, Whole raw := by
  obtain ⟨raws, last, rfl, hraws, hlast⟩ := exists_whole_append text
  have hnil : last = [] := by
    by_contra hne
    rw [List.getLast?_append_of_ne_nil _ hne] at h
    exact hlast (List.mem_of_getLast? h)
  rw [hnil, List.append_nil, splitInclusive_flatten hraws]
  exact hraws

theorem splitInclusive_eq (text : List Char) :
    ∃ raws last : List (List Char), splitInclusive text = raws ++ last ∧
    (∀ raw ∈ raws, Whole raw) ∧ (last = [] ∨ ∃ body, last = [body] ∧ body ≠ [] ∧ '\n' ∉ body) := by
  obtain ⟨raws, last, rfl, hraws, hlast⟩ := exists_whole_append text
  rw [splitInclusive_flatten_append hraws]
  refine ⟨raws, splitInclusive last, rfl, hraws, ?_⟩
  by_cases hne : last = []
  · rw [hne]
    exact .inl rfl
  · exact .inr ⟨last, splitInclusive_last hlast hne, hne, hlast⟩

theorem ne_nil_of_mem_splitInclusive (h : raw ∈ splitInclusive text) : raw ≠ [] := by
  obtain ⟨raws, last, hsplit, hraws, hlast⟩ := splitInclusive_eq text
  rw [hsplit, List.mem_append] at h
  rcases h with h | h
  · obtain ⟨body, -, rfl⟩ := hraws raw h
    simp
  · rcases hlast with rfl | ⟨body, rfl, hne, -⟩
    · exact absurd h List.not_mem_nil
    · rw [List.mem_singleton.mp h]
      exact hne

/-! ## Byte offsets -/

/-- The text cut after `n` bytes, where a character ends there. -/
def cutBytes : List Char → Nat → Option (List Char × List Char)
  | text, 0 => some ([], text)
  | [], _ + 1 => none
  | c :: cs, n + 1 =>
    if c.utf8Size ≤ n + 1 then (cutBytes cs (n + 1 - c.utf8Size)).map fun parts => (c :: parts.1, parts.2)
    else none

def byteLen : List Char → Nat
  | [] => 0
  | c :: text => c.utf8Size + byteLen text

theorem cutBytes_append (front rest : List Char) : cutBytes (front ++ rest) (byteLen front) = some (front, rest) := by
  induction front with
  | nil => cases rest <;> rfl
  | cons c front ih =>
    obtain ⟨n, hn⟩ := Nat.exists_eq_add_of_lt c.utf8Size_pos
    have hlen : byteLen (c :: front) = n + byteLen front + 1 := by
      simp only [byteLen]
      omega
    rw [hlen, List.cons_append, cutBytes, if_pos (by omega),
      show n + byteLen front + 1 - c.utf8Size = byteLen front by omega, ih]
    rfl

theorem byteLen_append (a b : List Char) : byteLen (a ++ b) = byteLen a + byteLen b := by
  induction a with
  | nil => exact (Nat.zero_add _).symm
  | cons c a ih => rw [List.cons_append, byteLen, byteLen, ih, Nat.add_assoc]

theorem cutBytes_eq_some {text front rest : List Char} {n : Nat} (h : cutBytes text n = some (front, rest)) :
    text = front ++ rest ∧ byteLen front = n := by
  induction text generalizing n front with
  | nil =>
    cases n with
    | zero =>
      cases h
      exact ⟨rfl, rfl⟩
    | succ n => cases h
  | cons c cs ih =>
    cases n with
    | zero =>
      cases h
      exact ⟨rfl, rfl⟩
    | succ n =>
      rw [cutBytes] at h
      split at h
      next hle =>
        obtain ⟨⟨front', rest'⟩, hcut, heq⟩ := Option.map_eq_some_iff.mp h
        cases heq
        obtain ⟨rfl, hlen⟩ := ih hcut
        refine ⟨rfl, ?_⟩
        simp only [byteLen] at hlen ⊢
        omega
      next => cases h

/-- A cut in front of another one cuts the front part too. -/
theorem cutBytes_front {text front rest before after : List Char} {m n : Nat} (hle : m ≤ n)
    (hm : cutBytes text m = some (before, after)) (hn : cutBytes text n = some (front, rest)) :
    ∃ middle, front = before ++ middle ∧ cutBytes front m = some (before, middle) := by
  obtain ⟨hbefore, rfl⟩ := cutBytes_eq_some hm
  obtain ⟨hfront, rfl⟩ := cutBytes_eq_some hn
  rcases List.append_eq_append_iff.mp (hbefore.symm.trans hfront) with ⟨middle, rfl, -⟩ | ⟨middle, rfl, -⟩
  · exact ⟨middle, rfl, cutBytes_append _ _⟩
  · have hempty : middle = [] := by
      cases middle with
      | nil => rfl
      | cons c middle =>
        have hpos := c.utf8Size_pos
        rw [byteLen_append] at hle
        simp only [byteLen] at hle
        omega
    subst hempty
    exact ⟨[], by simp, by simpa using cutBytes_append front []⟩

end Lib
