import Mathlib.Order.Defs.LinearOrder
import Mathlib.Order.Basic
import Mathlib.Tactic.IntervalCases
import NilsCli.Devlog.Markdown

/-!
# Months and entry dates

A `Month` and an `EntryDate` are valid by construction, as the constructors of the source check them,
and each reads back from its text (`parseMonth_text`, `parseDate_text`).
-/

namespace NilsCli.Devlog

open Lib List

variable (n : Nat)

/-! ## Texts -/

def splitOnce (pattern : Text) : Text → Option (Text × Text)
  | [] => if pattern = [] then some ([], []) else none
  | c :: cs =>
    if pattern.isPrefixOf (c :: cs) then some ([], (c :: cs).drop pattern.length)
    else (splitOnce pattern cs).map fun parts => (c :: parts.1, parts.2)

/-- `str::rsplit_once`, at a character. -/
def rsplitOnce (c : Char) (text : Text) : Option (Text × Text) :=
  (splitOnce [c] text.reverse).map fun parts => (parts.2.reverse, parts.1.reverse)

/-- The value of decimal digits. -/
def numValue (digits : Text) : Nat := digits.foldl (fun n c => 10 * n + (c.toNat - 48)) 0

def digit : Char := .ofNat (48 + n % 10)

/-- A number with two digits at least. -/
def twoDigits : Text := [digit (n / 10), digit n]

/-- A number with four digits. -/
def fourDigits : Text := [digit (n / 1000), digit (n / 100), digit (n / 10), digit n]

theorem digit_cases : (digit n).toNat = 48 + n % 10 ∧ isAsciiDigit (digit n) = true ∧
    digit n ≠ '-' := by
  have h : ∀ k < 10, (Char.ofNat (48 + k)).toNat = 48 + k ∧
      isAsciiDigit (Char.ofNat (48 + k)) = true ∧ Char.ofNat (48 + k) ≠ '-' := by decide
  exact h (n % 10) (Nat.mod_lt _ (by decide))

theorem numValue_twoDigits {n : Nat} (h : n < 100) : numValue (twoDigits n) = n := by
  simp only [numValue, twoDigits, foldl_cons, foldl_nil, (digit_cases _).1]
  omega

theorem numValue_fourDigits {n : Nat} (h : n < 10000) : numValue (fourDigits n) = n := by
  simp only [numValue, fourDigits, foldl_cons, foldl_nil, (digit_cases _).1]
  omega

theorem splitOnce_cons_self {c : Char} {text rest : Text} (h : c ∉ text) :
    splitOnce [c] (text ++ c :: rest) = some (text, rest) := by
  induction text with
  | nil => simp [splitOnce]
  | cons d text ih =>
    rw [mem_cons, not_or] at h
    rw [cons_append, splitOnce, if_neg (by simp [h.1]), ih h.2]
    rfl

theorem rsplitOnce_cons_self {c : Char} {text rest : Text} (h : c ∉ rest) :
    rsplitOnce c (text ++ c :: rest) = some (text, rest) := by
  have hsplit : splitOnce [c] (rest.reverse ++ c :: text.reverse) =
      some (rest.reverse, text.reverse) := splitOnce_cons_self (by simpa using h)
  rw [rsplitOnce, reverse_append, reverse_cons, append_assoc, singleton_append,
    hsplit]
  simp

/-! ## Months -/

/-- A `YYYY-MM` month. -/
@[ext] structure Month where
  year : Nat
  month : Nat
  year_le : year ≤ 9999
  month_pos : 1 ≤ month
  month_le : month ≤ 12
  deriving DecidableEq

variable (m : Month)

/-- The number that months are ordered by. -/
def Month.key : Nat := m.year * 100 + m.month

theorem Month.key_injective : Function.Injective Month.key := by
  intro a b h
  have ha := a.month_le
  have hb := b.month_le
  unfold Month.key at h
  exact Month.ext (by omega) (by omega)

instance : LinearOrder Month := LinearOrder.lift' Month.key Month.key_injective

/-- `Display` of a month. -/
def Month.text : Text := fourDigits m.year ++ '-' :: twoDigits m.month

def Month.heading : Text := "# Development log - ".toList ++ m.text

/-- `Month::from_str`. -/
def parseMonth (value : Text) : Option Month :=
  (splitOnce ['-'] value).bind fun parts =>
    if parts.1.length = 4 ∧ parts.2.length = 2 ∧ parts.1.all isAsciiDigit ∧
        parts.2.all isAsciiDigit then
      if h : numValue parts.1 ≤ 9999 ∧ 1 ≤ numValue parts.2 ∧ numValue parts.2 ≤ 12 then
        some ⟨numValue parts.1, numValue parts.2, h.1, h.2.1, h.2.2⟩
      else none
    else none

theorem dash_not_mem_fourDigits : '-' ∉ fourDigits n := by
  simp only [fourDigits, mem_cons, not_mem_nil, or_false, not_or]
  exact ⟨(digit_cases _).2.2.symm, (digit_cases _).2.2.symm, (digit_cases _).2.2.symm,
    (digit_cases _).2.2.symm⟩

theorem dash_not_mem_twoDigits : '-' ∉ twoDigits n := by
  simp only [twoDigits, mem_cons, not_mem_nil, or_false, not_or]
  exact ⟨(digit_cases _).2.2.symm, (digit_cases _).2.2.symm⟩

theorem Month.text_chars {m : Month} {c : Char} (h : c ∈ m.text) : isAsciiDigit c = true ∨ c = '-' := by
  simp only [Month.text, fourDigits, twoDigits, mem_append, mem_cons, not_mem_nil,
    or_false] at h
  rcases h with (rfl | rfl | rfl | rfl) | rfl | rfl | rfl
  all_goals first | exact .inl (digit_cases _).2.1 | exact .inr rfl

theorem parseMonth_text : parseMonth m.text = some m := by
  have hyear := numValue_fourDigits (Nat.lt_succ_of_le m.year_le)
  have hmonth := numValue_twoDigits (n := m.month) (by have := m.month_le; omega)
  have hdigits : (fourDigits m.year).all isAsciiDigit = true ∧
      (twoDigits m.month).all isAsciiDigit = true := by
    simp [fourDigits, twoDigits, (digit_cases _).2.1]
  rw [parseMonth, Month.text, splitOnce_cons_self (dash_not_mem_fourDigits _), Option.bind_some]
  rw [if_pos ⟨rfl, rfl, hdigits.1, hdigits.2⟩]
  simp only [hyear, hmonth, m.year_le, m.month_pos, m.month_le, and_self, dif_pos]

/-- A month to evaluate definitions at. -/
def januaryMonth : Month := ⟨2024, 1, by decide, by decide, by decide⟩

/-! ## Dates -/

def isLeapYear (year : Nat) : Bool := (year % 4 = 0 ∧ year % 100 ≠ 0) ∨ year % 400 = 0

def daysInMonth : Nat :=
  if m.month ∈ [1, 3, 5, 7, 8, 10, 12] then 31
  else if m.month ∈ [4, 6, 9, 11] then 30
  else if isLeapYear m.year then 29 else 28

theorem daysInMonth_le : daysInMonth m ≤ 31 := by
  unfold daysInMonth
  split
  · exact Nat.le_refl _
  · split
    · decide
    · split <;> decide

/-- A `YYYY-MM-DD` entry date. -/
@[ext] structure EntryDate where
  month : Month
  day : Nat
  day_pos : 1 ≤ day
  day_le : day ≤ daysInMonth month
  deriving DecidableEq

/-- The number that dates are ordered by. -/
def EntryDate.key (d : EntryDate) : Nat := d.month.key * 100 + d.day

theorem EntryDate.key_injective : Function.Injective EntryDate.key := by
  intro a b h
  have ha := a.day_le.trans (daysInMonth_le _)
  have hb := b.day_le.trans (daysInMonth_le _)
  unfold EntryDate.key at h
  exact EntryDate.ext (Month.key_injective (by omega)) (by omega)

instance : LinearOrder EntryDate := LinearOrder.lift' EntryDate.key EntryDate.key_injective

/-- `Display` of a date. -/
def EntryDate.text (d : EntryDate) : Text := d.month.text ++ '-' :: twoDigits d.day

/-- `EntryDate::from_str`. -/
def parseDate (value : Text) : Option EntryDate :=
  (rsplitOnce '-' value).bind fun parts =>
    if parts.2.length = 2 ∧ parts.2.all isAsciiDigit then
      (parseMonth parts.1).bind fun month =>
        if h : 1 ≤ numValue parts.2 ∧ numValue parts.2 ≤ daysInMonth month then
          some ⟨month, numValue parts.2, h.1, h.2⟩
        else none
    else none

theorem EntryDate.text_chars {d : EntryDate} {c : Char} (h : c ∈ d.text) :
    isAsciiDigit c = true ∨ c = '-' := by
  rw [EntryDate.text, mem_append] at h
  rcases h with h | h
  · exact Month.text_chars h
  · simp only [twoDigits, mem_cons, not_mem_nil, or_false] at h
    rcases h with rfl | rfl | rfl
    · exact .inr rfl
    · exact .inl (digit_cases _).2.1
    · exact .inl (digit_cases _).2.1

theorem parseDate_text (d : EntryDate) : parseDate d.text = some d := by
  have hday := numValue_twoDigits (n := d.day) (by
    have := d.day_le.trans (daysInMonth_le _)
    omega)
  have hdigits : (twoDigits d.day).all isAsciiDigit = true := by
    simp [twoDigits, (digit_cases _).2.1]
  rw [parseDate, EntryDate.text, rsplitOnce_cons_self (dash_not_mem_twoDigits _), Option.bind_some]
  rw [if_pos ⟨rfl, hdigits⟩, parseMonth_text, Option.bind_some]
  simp only [hday, d.day_pos, d.day_le, and_self, dif_pos]

end NilsCli.Devlog
