import Mathlib.Algebra.Order.BigOperators.Group.List
import Mathlib.Algebra.Order.Ring.Nat
import NilsCli.Lib.Table
import NilsCli.Lib.Text

/-!
# The size of compact JSON

Compact JSON as characters, and the bytes that it takes. The size of an object is the sum of the
sizes of its members (`utf8Size_jsonObject`), and the size of a keyed table is the sum of the sizes
of its rows (`utf8Size_jsonMap`), in whatever order they are written.
-/

namespace Lib

/-- The bytes of a text in UTF-8. -/
def utf8Size (text : List Char) : Nat := (text.map Char.utf8Size).sum

@[simp] theorem utf8Size_nil : utf8Size [] = 0 := rfl

@[simp] theorem utf8Size_cons (c : Char) (text : List Char) :
    utf8Size (c :: text) = c.utf8Size + utf8Size text := rfl

@[simp] theorem utf8Size_append (text text' : List Char) :
    utf8Size (text ++ text') = utf8Size text + utf8Size text' := by
  simp [utf8Size]

/-! ## Values -/

/-- A digit of an escape, in lower case. -/
def hexChar (n : Nat) : Char := .ofNat (if n < 10 then 48 + n else 87 + n)

/-- One character inside a string: quotes, backslashes and control characters are escaped. -/
def jsonChar (c : Char) : List Char :=
  if c = '\x22' then ['\\', '\x22']
  else if c = '\\' then ['\\', '\\']
  else if c = '\x08' then ['\\', 'b']
  else if c = '\t' then ['\\', 't']
  else if c = '\n' then ['\\', 'n']
  else if c = '\x0c' then ['\\', 'f']
  else if c = '\r' then ['\\', 'r']
  else if c.toNat < 0x20 then
    ['\\', 'u', '0', '0', hexChar (c.toNat / 16), hexChar (c.toNat % 16)]
  else [c]

/-- A string in quotes. -/
def jsonString (s : String) : List Char := '\x22' :: s.toList.flatMap jsonChar ++ ['\x22']

def jsonNat (n : Nat) : List Char := Nat.toDigits 10 n

def jsonNull : List Char := "null".toList

/-- `null`, or the value. -/
def jsonOption {α : Type} (write : α → List Char) : Option α → List Char
  | none => jsonNull
  | some a => write a

/-- The items, with commas between them. -/
def commaSeparated : List (List Char) → List Char
  | [] => []
  | [item] => item
  | item :: items => item ++ ',' :: commaSeparated items

def jsonArray (items : List (List Char)) : List Char := '[' :: commaSeparated items ++ [']']

/-- A member of an object. -/
def jsonMember (member : String × List Char) : List Char :=
  jsonString member.1 ++ ':' :: member.2

def jsonObject (members : List (String × List Char)) : List Char :=
  '\x7b' :: commaSeparated (members.map jsonMember) ++ ['\x7d']

/-- A table, by its keys. -/
def jsonMap {ν : Type} (write : ν → List Char) (t : Table String ν) : List Char :=
  jsonObject ((sortBy (fun a b => textLe a.1 b.1) t.entries).map fun row => (row.1, write row.2))

/-! ## Sizes -/

theorem utf8Size_commaSeparated (items : List (List Char)) :
    utf8Size (commaSeparated items) = (items.map utf8Size).sum + (items.length - 1) := by
  induction items with
  | nil => rfl
  | cons item items ih =>
    cases items with
    | nil => simp [commaSeparated]
    | cons next items =>
      have hcomma : Char.utf8Size ',' = 1 := by decide
      simp only [commaSeparated, utf8Size_append, utf8Size_cons, ih, hcomma, List.map_cons,
        List.sum_cons, List.length_cons]
      omega

theorem utf8Size_jsonMember (member : String × List Char) :
    utf8Size (jsonMember member) = utf8Size (jsonString member.1) + 1 + utf8Size member.2 := by
  have hcolon : Char.utf8Size ':' = 1 := by decide
  simp only [jsonMember, utf8Size_append, utf8Size_cons, hcolon]
  omega

theorem utf8Size_jsonObject (members : List (String × List Char)) :
    utf8Size (jsonObject members) =
      (members.map fun member => utf8Size (jsonMember member)).sum + (members.length - 1) + 2 := by
  have hopen : Char.utf8Size '\x7b' = 1 := by decide
  have hclose : Char.utf8Size '\x7d' = 1 := by decide
  simp only [jsonObject, utf8Size_append, utf8Size_cons, utf8Size_nil, hopen, hclose,
    utf8Size_commaSeparated, List.map_map, List.length_map, Function.comp_def]
  omega

/-- A character that is written as it is, in one byte. -/
theorem jsonChar_hex {c : Char} (h : (isAsciiDigit c || charIn 'a' 'f' c) = true) :
    utf8Size (jsonChar c) = 1 := by
  have hbounds : 48 ≤ c.toNat ∧ c.toNat ≤ 102 ∧ c.toNat ≠ 92 := by
    simp only [isAsciiDigit, charIn, Bool.or_eq_true, decide_eq_true_eq] at h
    have hzero : '0'.toNat = 48 ∧ '9'.toNat = 57 ∧ 'a'.toNat = 97 ∧ 'f'.toNat = 102 := by decide
    omega
  have hne : ∀ d : Char, (d.toNat < 48 ∨ d.toNat = 92) → c ≠ d := by
    rintro d hd rfl
    omega
  have hsize : c.utf8Size = 1 := by
    rw [Char.utf8Size_eq_one_iff, UInt32.le_iff_toNat_le]
    exact hbounds.2.1.trans (by decide)
  unfold jsonChar
  rw [if_neg (hne _ (by decide)), if_neg (hne _ (by decide)), if_neg (hne _ (by decide)),
    if_neg (hne _ (by decide)), if_neg (hne _ (by decide)), if_neg (hne _ (by decide)),
    if_neg (hne _ (by decide)), if_neg (by omega), utf8Size_cons, utf8Size_nil, hsize]

theorem utf8Size_hexDigits {hex : List Char}
    (h : ∀ c ∈ hex, (isAsciiDigit c || charIn 'a' 'f' c) = true) :
    utf8Size (hex.flatMap jsonChar) = hex.length := by
  induction hex with
  | nil => rfl
  | cons c hex ih =>
    rw [List.flatMap_cons, utf8Size_append, jsonChar_hex (h c (by simp)),
      ih fun c hc => h c (by simp [hc]), List.length_cons]
    omega

/-- The sum of a weight over the rows of a table. -/
def Table.total {κ ν : Type} (weight : κ → ν → Nat) (t : Table κ ν) : Nat :=
  (t.entries.map fun row => weight row.1 row.2).sum

theorem utf8Size_jsonMap {ν : Type} (write : ν → List Char) (t : Table String ν) :
    utf8Size (jsonMap write t) =
      t.total (fun key v => utf8Size (jsonMember (key, write v))) + (t.size - 1) + 2 := by
  have hperm := perm_sortBy (fun a b => textLe a.1 b.1) t.entries
  have hsum := (hperm.map fun row => utf8Size (jsonMember (row.1, write row.2))).sum_eq
  rw [jsonMap, utf8Size_jsonObject, List.map_map, List.length_map, hperm.length_eq,
    Table.total, Table.size, ← hsum]
  rfl

/-! ## Weights -/

namespace Table

variable {κ ν : Type} {t : Table κ ν}

theorem total_add (weight weight' : κ → ν → Nat) (t : Table κ ν) :
    t.total weight + t.total weight' = t.total fun key v => weight key v + weight' key v := by
  unfold total
  induction t.entries with
  | nil => rfl
  | cons row rows ih =>
    simp only [List.map_cons, List.sum_cons, ← ih]
    omega

/-- A bonus for every value that satisfies a condition. -/
theorem length_filter_values_mul (p : ν → Bool) (bonus : Nat) (t : Table κ ν) :
    (t.values.filter p).length * bonus = t.total fun _ v => if p v then bonus else 0 := by
  unfold values total
  induction t.entries with
  | nil => simp
  | cons row rows ih =>
    rw [List.map_cons, List.map_cons, List.sum_cons, ← ih]
    dsimp only
    by_cases h : p row.2 = true
    · rw [List.filter_cons_of_pos h, List.length_cons, if_pos h, Nat.succ_mul]
      omega
    · rw [List.filter_cons_of_neg h, if_neg h, Nat.zero_add]

/-- The rows of a table that a bonus is counted in. -/
theorem length_flatMap_values_mul {μ : Type} (f : ν → List μ) (bonus : Nat) (t : Table κ ν) :
    (t.values.flatMap f).length * bonus = t.total fun _ v => (f v).length * bonus := by
  unfold values total
  induction t.entries with
  | nil => simp
  | cons row rows ih =>
    rw [List.map_cons, List.flatMap_cons, List.length_append, Nat.add_mul, ih, List.map_cons,
      List.sum_cons]

theorem size_mapVal (f : κ → ν → ν) (t : Table κ ν) : (t.mapVal f).size = t.size :=
  List.length_map _

variable [DecidableEq κ]

/-- Rows that get no heavier make a table no heavier. -/
theorem total_mapVal_le {weight : κ → ν → Nat} {f : κ → ν → ν}
    (h : ∀ key v, t.lookup key = some v → weight key (f key v) ≤ weight key v) :
    (t.mapVal f).total weight ≤ t.total weight := by
  unfold total mapVal
  rw [List.map_map]
  exact List.sum_le_sum fun row hrow => h row.1 row.2 (lookup_eq_some_iff.mpr hrow)

theorem perm_insert {key : κ} {v : ν} (h : t.lookup key = some v) (v' : ν) :
    ∃ rest, t.entries.Perm (⟨key, v⟩ :: rest) ∧
      (t.insert key v').entries = ⟨key, v'⟩ :: rest := by
  refine ⟨t.entries.kerase key, ?_, rfl⟩
  obtain ⟨w, front, behind, -, heq, herase⟩ := List.exists_of_kerase
    (List.mem_keys_of_mem (lookup_eq_some_iff.mp h))
  have hw : v = w := by
    have hrow : (⟨key, w⟩ : Sigma fun _ : κ => ν) ∈ t.entries := by simp [heq]
    exact Option.some.inj (h.symm.trans (lookup_eq_some_iff.mpr hrow))
  rw [herase, heq, hw]
  exact List.perm_middle

theorem size_insert_of_lookup {key : κ} {v : ν} (h : t.lookup key = some v) (v' : ν) :
    size (t.insert key v') = t.size := by
  obtain ⟨rest, hperm, hinsert⟩ := perm_insert h v'
  rw [size, size, hperm.length_eq, hinsert, List.length_cons, List.length_cons]

theorem total_insert (weight : κ → ν → Nat) {key : κ} {v : ν} (h : t.lookup key = some v) (v' : ν) :
    total weight (t.insert key v') + weight key v = t.total weight + weight key v' := by
  obtain ⟨rest, hperm, hinsert⟩ := perm_insert h v'
  have hsum := (hperm.map fun row => weight row.1 row.2).sum_eq
  simp only [List.map_cons, List.sum_cons] at hsum
  simp only [total, hsum, hinsert, List.map_cons, List.sum_cons]
  omega

end Table

end Lib

/-!
## Compact JSON as bytes

The bytes of a JSON text, and the parts of it that say themselves where they end (`EndsItself`), so
that a text is written for one value only.
-/

namespace Lib

/-- A text in UTF-8. -/
def utf8Bytes (text : List Char) : List UInt8 := text.flatMap String.utf8EncodeChar

theorem length_utf8Bytes (text : List Char) : (utf8Bytes text).length = utf8Size text := by
  induction text with
  | nil => rfl
  | cons c text ih =>
    rw [utf8Bytes, List.flatMap_cons, List.length_append, String.length_utf8EncodeChar,
      utf8Size_cons, ← ih]
    rfl

/-! ## Texts that take few bytes -/

theorem utf8Size_ascii {text : List Char} (h : ∀ c ∈ text, c.toNat < 128) :
    utf8Size text = text.length := by
  induction text with
  | nil => rfl
  | cons c text ih =>
    have hone : c.utf8Size = 1 := by
      rw [Char.utf8Size_eq_one_iff, UInt32.le_iff_toNat_le]
      exact Nat.le_of_lt_succ (h c (by simp))
    rw [utf8Size_cons, hone, ih fun c hc => h c (by simp [hc]), List.length_cons, Nat.add_comm]

theorem toNat_le_of_hex {c : Char} (h : (isAsciiDigit c || charIn 'a' 'f' c) = true) :
    c.toNat < 128 := by
  have hletters : '9'.toNat = 57 ∧ 'f'.toNat = 102 := by decide
  simp only [isAsciiDigit, charIn, Bool.or_eq_true, decide_eq_true_eq] at h
  omega

theorem utf8Size_jsonNat_le {n k : Nat} (hk : 0 < k) (h : n < 10 ^ k) : utf8Size (jsonNat n) ≤ k := by
  have hascii : ∀ c ∈ Nat.toDigits 10 n, c.toNat < 128 := fun c hc =>
    toNat_le_of_hex (by rw [isAsciiDigit_of_mem_toDigits hc, Bool.true_or])
  rw [jsonNat, utf8Size_ascii hascii]
  exact (Nat.length_toDigits_le_iff (by decide) hk).mpr h

/-- No character of the text is escaped. -/
def unescaped (s : String) : Bool := s.toList.all fun c => jsonChar c = [c]

theorem utf8Size_unescaped {s : String} (h : unescaped s = true) :
    utf8Size (jsonString s) = utf8Size s.toList + 2 := by
  have hall : ∀ text : List Char, (∀ c ∈ text, jsonChar c = [c]) → text.flatMap jsonChar = text := by
    intro text
    induction text with
    | nil => exact fun _ => rfl
    | cons c text ih =>
      intro htext
      rw [List.flatMap_cons, htext c (by simp), ih fun c hc => htext c (by simp [hc])]
      rfl
  have hchars := hall s.toList fun c hc => by simpa using List.all_eq_true.mp h c hc
  have hquote : Char.utf8Size '\x22' = 1 := by decide
  simp only [jsonString, hchars, utf8Size_cons, utf8Size_append, utf8Size_nil, hquote]
  omega

theorem utf8Size_jsonArray (items : List (List Char)) :
    utf8Size (jsonArray items) = (items.map utf8Size).sum + (items.length - 1) + 2 := by
  have hopen : Char.utf8Size '[' = 1 := by decide
  have hclose : Char.utf8Size ']' = 1 := by decide
  simp only [jsonArray, utf8Size_append, utf8Size_cons, utf8Size_nil, hopen, hclose,
    utf8Size_commaSeparated]
  omega

end Lib
