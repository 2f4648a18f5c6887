import Mathlib.Data.List.Sort

/-!
# Text operations

The text functions that validation code uses, as Rust's standard library defines them: white
space and control characters are the Unicode classes, case folding is ASCII only, lengths count
UTF-8 bytes.
-/

namespace Lib

/-- `char::is_whitespace`: the Unicode property `White_Space`. -/
def isWhitespace (c : Char) : Bool :=
  let n := c.toNat
  (9 ≤ n ∧ n ≤ 13) ∨ n = 0x20 ∨ n = 0x85 ∨ n = 0xA0 ∨ n = 0x1680 ∨ (0x2000 ≤ n ∧ n ≤ 0x200A) ∨
    n = 0x2028 ∨ n = 0x2029 ∨ n = 0x202F ∨ n = 0x205F ∨ n = 0x3000

/-- `char::is_control`: the Unicode category `Cc`. -/
def isControl (c : Char) : Bool :=
  let n := c.toNat
  n ≤ 0x1F ∨ (0x7F ≤ n ∧ n ≤ 0x9F)

def charIn (low high c : Char) : Bool := low.toNat ≤ c.toNat ∧ c.toNat ≤ high.toNat

def isAsciiLower (c : Char) : Bool := charIn 'a' 'z' c

def isAsciiUpper (c : Char) : Bool := charIn 'A' 'Z' c

def isAsciiDigit (c : Char) : Bool := charIn '0' '9' c

def isAsciiHexDigit (c : Char) : Bool := isAsciiDigit c ∨ charIn 'a' 'f' c ∨ charIn 'A' 'F' c

def isAscii (c : Char) : Bool := c.toNat < 0x80

def isAsciiControl (c : Char) : Bool := c.toNat < 0x20 ∨ c.toNat = 0x7F

def trim (s : String) : String :=
  .ofList ((s.toList.dropWhile isWhitespace).reverse.dropWhile isWhitespace).reverse

def toAsciiLowercase (s : String) : String :=
  .ofList (s.toList.map fun c => if isAsciiUpper c then Char.ofNat (c.toNat + 32) else c)

/-- `str::split` at a character. -/
def splitAt (s : String) (sep : Char) : List String := (s.toList.splitOn sep).map .ofList

/-- `str::replace` of a character. -/
def replaceChar (s : String) (old new : Char) : String :=
  .ofList (s.toList.map fun c => if c = old then new else c)

def startsWith (s : String) (c : Char) : Bool := s.toList.head? = some c

def endsWith (s : String) (c : Char) : Bool := s.toList.getLast? = some c

/-- `str::strip_prefix`. -/
def stripPrefix? (s pre : String) : Option (List Char) :=
  if pre.toList.isPrefixOf s.toList then some (s.toList.drop pre.toList.length) else none

/-- `str::contains` of a text. -/
def containsText (s pattern : String) : Bool :=
  s.toList.tails.any fun suffix => pattern.toList.isPrefixOf suffix

/-- `str::parse::<u64>`: an optional `+` and at least one digit, no larger than `2 ^ 64 - 1`. -/
def parseU64 (s : String) : Option Nat :=
  let digits := match s.toList with
    | '+' :: rest => rest
    | cs => cs
  if digits = [] ∨ ¬ digits.all isAsciiDigit then none
  else
    let n := digits.foldl (fun n c => 10 * n + (c.toNat - '0'.toNat)) 0
    if n ≤ 18446744073709551615 then some n else none

theorem splitAt_intercalate {sep : Char} {parts : List String} (hne : parts ≠ [])
    (hsep : ∀ part ∈ parts, sep ∉ part.toList) :
    splitAt (.ofList ([sep].intercalate (parts.map (·.toList)))) sep = parts := by
  have hlists : ∀ cs ∈ parts.map (·.toList), sep ∉ cs := by
    intro cs hcs
    obtain ⟨part, hpart, rfl⟩ := List.mem_map.mp hcs
    exact hsep part hpart
  rw [splitAt, String.toList_ofList, List.splitOn_intercalate sep hlists (by simpa using hne),
    List.map_map]
  exact (List.map_congr_left fun part _ => String.ofList_toList).trans (List.map_id _)

theorem isAsciiDigit_of_mem_toDigits {n : Nat} {c : Char} (h : c ∈ Nat.toDigits 10 n) :
    isAsciiDigit c := by
  have hdigit := Nat.isDigit_of_mem_toDigits (by decide) (by decide) h
  simp only [Char.isDigit, Bool.and_eq_true, decide_eq_true_eq, ge_iff_le,
    UInt32.le_iff_toNat_le] at hdigit
  exact decide_eq_true hdigit

/-- A number reads back from its decimal digits. -/
theorem parseU64_toString {n : Nat} (h : n ≤ 18446744073709551615) :
    parseU64 (toString n) = some n := by
  have hdigits : (toString n).toList = Nat.toDigits 10 n := by simp
  have hplus : ∀ rest, Nat.toDigits 10 n ≠ '+' :: rest := by
    intro rest hrest
    exact absurd (isAsciiDigit_of_mem_toDigits (n := n) (c := '+') (by simp [hrest])) (by decide)
  have hall : (Nat.toDigits 10 n).all isAsciiDigit :=
    List.all_eq_true.mpr fun c hc => isAsciiDigit_of_mem_toDigits hc
  have hvalue := Nat.ofDigitChars_ten_toDigits (n := n)
  rw [Nat.ofDigitChars_eq_foldl] at hvalue
  unfold parseU64
  rw [hdigits]
  split
  next rest hrest => exact absurd hrest (hplus rest)
  next => simp only [Nat.toDigits_ne_nil, hall, not_true, or_self, if_false, hvalue, if_pos h]

def charsLe : List Char → List Char → Bool
  | [], _ => true
  | _ :: _, [] => false
  | a :: as, b :: bs => a.toNat < b.toNat || (a.toNat = b.toNat && charsLe as bs)

/-- The order of `str`. -/
def textLe (a b : String) : Bool := charsLe a.toList b.toList

def textLt (a b : String) : Bool := !textLe b a

theorem charsLe_total (as bs : List Char) : charsLe as bs || charsLe bs as := by
  induction as generalizing bs with
  | nil => simp [charsLe]
  | cons a as ih =>
    cases bs with
    | nil => simp [charsLe]
    | cons b bs =>
      have h := ih bs
      simp only [charsLe, Bool.or_eq_true, Bool.and_eq_true, decide_eq_true_eq] at h ⊢
      rcases Nat.lt_trichotomy a.toNat b.toNat with hlt | heq | hgt
      · exact .inl (.inl hlt)
      · exact h.imp (fun h => .inr ⟨heq, h⟩) fun h => .inr ⟨heq.symm, h⟩
      · exact .inr (.inl hgt)

/-- Keys are in order by their first parts, and where these are the same by their second. -/
theorem lex_trans {α : Type} [Preorder α] {a b c : α} {p q r : Prop} (h : a < b ∨ a = b ∧ p)
    (h' : b < c ∨ b = c ∧ q) (hr : p → q → r) : a < c ∨ a = c ∧ r := by
  rcases h with h | ⟨rfl, h⟩ <;> rcases h' with h' | ⟨rfl, h'⟩
  · exact .inl (h.trans h')
  · exact .inl h
  · exact .inl h'
  · exact .inr ⟨rfl, hr h h'⟩

theorem charsLe_trans {as bs cs : List Char} (h : charsLe as bs) (h' : charsLe bs cs) :
    charsLe as cs := by
  induction as generalizing bs cs with
  | nil => simp [charsLe]
  | cons a as ih =>
    cases bs with
    | nil => simp [charsLe] at h
    | cons b bs =>
      cases cs with
      | nil => simp [charsLe] at h'
      | cons c cs =>
        have hrest := @ih bs cs
        simp only [charsLe, Bool.or_eq_true, Bool.and_eq_true, decide_eq_true_eq] at h h' hrest ⊢
        exact lex_trans h h' hrest

theorem charsLe_antisymm {as bs : List Char} (h : charsLe as bs) (h' : charsLe bs as) :
    as = bs := by
  induction as generalizing bs with
  | nil =>
    cases bs with
    | nil => rfl
    | cons b bs => simp [charsLe] at h'
  | cons a as ih =>
    cases bs with
    | nil => simp [charsLe] at h
    | cons b bs =>
      have hrest := @ih bs
      simp only [charsLe, Bool.or_eq_true, Bool.and_eq_true, decide_eq_true_eq] at h h' hrest
      have heq : a.toNat = b.toNat := by omega
      rw [hrest (h.resolve_left (by omega)).2 (h'.resolve_left (by omega)).2,
        Char.toNat_inj.mp heq]

theorem textLe_total (a b : String) : textLe a b || textLe b a := charsLe_total _ _

theorem textLe_trans {a b c : String} (h : textLe a b) (h' : textLe b c) : textLe a c :=
  charsLe_trans h h'

theorem textLe_antisymm {a b : String} (h : textLe a b) (h' : textLe b a) : a = b :=
  String.toList_inj.mp (charsLe_antisymm h h')

theorem textLe_refl (a : String) : textLe a a := by
  have h := textLe_total a a
  rwa [Bool.or_self] at h

theorem textLt_iff {a b : String} : textLt a b ↔ textLe a b ∧ a ≠ b := by
  unfold textLt
  rw [Bool.not_eq_true']
  constructor
  · intro h
    have hle := textLe_total a b
    rw [h, Bool.or_false] at hle
    exact ⟨hle, fun heq => by simp [heq, textLe_refl] at h⟩
  · rintro ⟨hle, hne⟩
    by_contra hge
    exact hne (textLe_antisymm hle (by simpa using hge))

/-- A stable sort along `le`. -/
def sortBy {α : Type} (le : α → α → Bool) (xs : List α) : List α :=
  xs.insertionSort fun x y => le x y

theorem mem_sortBy {α : Type} {le : α → α → Bool} {xs : List α} {x : α} :
    x ∈ sortBy le xs ↔ x ∈ xs := (List.perm_insertionSort _ xs).mem_iff

theorem perm_sortBy {α : Type} (le : α → α → Bool) (xs : List α) :
    (sortBy le xs).Perm xs := List.perm_insertionSort _ xs

theorem pairwise_sortBy {α : Type} {le : α → α → Bool} (htotal : ∀ a b, le a b || le b a)
    (htrans : ∀ {a b c}, le a b → le b c → le a c) (xs : List α) :
    (sortBy le xs).Pairwise fun a b => le a b := by
  have _ : Std.Total fun a b : α => le a b = true := ⟨fun a b => by simpa using htotal a b⟩
  have _ : IsTrans α fun a b => le a b = true := ⟨fun _ _ _ => htrans⟩
  exact List.pairwise_insertionSort _ xs

/-- `Vec::dedup_by`: drops each element that is `same` as the last one kept. -/
def dedupFrom {α : Type} (same : α → α → Bool) (kept : α) : List α → List α
  | [] => []
  | x :: xs => if same x kept then dedupFrom same kept xs else x :: dedupFrom same x xs

def dedupBy {α : Type} (same : α → α → Bool) : List α → List α
  | [] => []
  | x :: xs => x :: dedupFrom same x xs

theorem mem_dedupFrom {α : Type} [DecidableEq α] {kept x : α} {xs : List α} :
    x ∈ kept :: dedupFrom (fun a b => decide (a = b)) kept xs ↔ x ∈ kept :: xs := by
  induction xs generalizing kept with
  | nil => rfl
  | cons y ys ih =>
    unfold dedupFrom
    split
    case isTrue h =>
      obtain rfl : y = kept := by simpa using h
      rw [ih]
      simp
    case isFalse h => rw [List.mem_cons, ih, List.mem_cons (l := y :: ys)]

/-- Dropping repeated neighbours keeps the set of elements. -/
theorem mem_dedupBy_eq {α : Type} [DecidableEq α] {x : α} {xs : List α} :
    x ∈ dedupBy (fun a b => decide (a = b)) xs ↔ x ∈ xs := by
  cases xs with
  | nil => rfl
  | cons y ys => exact mem_dedupFrom

end Lib
