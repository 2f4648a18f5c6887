import Mathlib.Data.List.Basic
import Mathlib.Logic.Function.Basic

/-!
# Compact JSON text

The bytes that a compact JSON writer gives to strings, numbers and literals.
-/

namespace Lib

variable (n : Nat) (c : UInt8) (s : String)

def Delimited {α : Type} (write : α → List UInt8) : Prop :=
  ∀ a b r r', write a ++ r = write b ++ r' → a = b ∧ r = r'

/-! ## Strings -/

/-- A hexadecimal digit, in lower case. -/
def hexDigit : UInt8 := UInt8.ofNat (if n < 10 then 48 + n else 87 + n)

/-- `\u00XX`. -/
def unicodeEscape : List UInt8 :=
  [0x5c, 0x75, 0x30, 0x30, hexDigit (c.toNat / 16), hexDigit (c.toNat % 16)]

/-- One byte inside a string. -/
def escapeByte : List UInt8 :=
  if c = 0x22 ∨ c = 0x5c then [0x5c, c]
  else if c.toNat < 0x20 ∨ c = 0x7b then unicodeEscape c
  else [c]

/-- A string in quotes, from its UTF-8 bytes. -/
def writeBytes (bytes : List UInt8) : List UInt8 := 0x22 :: bytes.flatMap escapeByte ++ [0x22]

def writeString : List UInt8 := writeBytes s.toByteArray.data.toList

theorem hexDigit_inj {m n : Nat} (hm : m < 16) (hn : n < 16) (h : hexDigit m = hexDigit n) :
    m = n := by
  have hnat := congrArg UInt8.toNat h
  simp only [hexDigit, UInt8.toNat_ofNat'] at hnat
  split at hnat <;> split at hnat <;> omega

theorem unicodeEscape_inj {c d : UInt8} (h : unicodeEscape c = unicodeEscape d) : c = d := by
  simp only [unicodeEscape, List.cons.injEq, and_true, true_and] at h
  have hc := c.toNat_lt
  have hd := d.toNat_lt
  have hhigh := hexDigit_inj (by omega) (by omega) h.1
  have hlow := hexDigit_inj (by omega) (by omega) h.2
  exact UInt8.toNat_inj.mp (by omega)

theorem escapeByte_eq : escapeByte c = [0x5c, c] ∧ (c = 0x22 ∨ c = 0x5c) ∨
    escapeByte c = unicodeEscape c ∨ escapeByte c = [c] ∧ c ≠ 0x22 ∧ c ≠ 0x5c := by
  unfold escapeByte
  split
  next h => exact .inl ⟨rfl, h⟩
  next h =>
    split
    · exact .inr (.inl rfl)
    · exact .inr (.inr ⟨rfl, not_or.mp h⟩)

theorem delimited_escapeByte : Delimited escapeByte := by
  intro c d r r' h
  rcases escapeByte_eq c with ⟨hc, hc'⟩ | hc | ⟨hc, hc'⟩ <;>
    rcases escapeByte_eq d with ⟨hd, hd'⟩ | hd | ⟨hd, hd'⟩ <;> rw [hc, hd] at h
  · simpa using h
  · rcases hc' with rfl | rfl <;> simp [unicodeEscape] at h
  · simp [hd'.2.symm] at h
  · rcases hd' with rfl | rfl <;> simp [unicodeEscape] at h
  · obtain ⟨heq, hr⟩ := List.append_inj h rfl
    exact ⟨unicodeEscape_inj heq, hr⟩
  · simp [unicodeEscape, hd'.2.symm] at h
  · simp [hc'.2] at h
  · simp [unicodeEscape, hc'.2] at h
  · simpa using h

theorem quote_ne_escapeByte (r r' : List UInt8) : 0x22 :: r ≠ escapeByte c ++ r' := by
  intro h
  rcases escapeByte_eq c with ⟨hc, -⟩ | hc | ⟨hc, hc'⟩ <;> rw [hc] at h
  · simp at h
  · simp [unicodeEscape] at h
  · simp [hc'.1.symm] at h

/-- A string ends at its first quote that is not escaped. -/
theorem delimited_writeBytes : Delimited writeBytes := by
  have hclosed : ∀ (bs bs' : List UInt8) (r r' : List UInt8),
      bs.flatMap escapeByte ++ 0x22 :: r = bs'.flatMap escapeByte ++ 0x22 :: r' →
        bs = bs' ∧ r = r' := by
    intro bs
    induction bs with
    | nil =>
      intro bs' r r' h
      cases bs' with
      | nil => simpa using h
      | cons c bs' =>
        rw [List.flatMap_cons, List.append_assoc] at h
        exact absurd h (quote_ne_escapeByte c r _)
    | cons b bs ih =>
      intro bs' r r' h
      cases bs' with
      | nil =>
        rw [List.flatMap_cons, List.append_assoc] at h
        exact absurd h.symm (quote_ne_escapeByte b r' _)
      | cons c bs' =>
        rw [List.flatMap_cons, List.flatMap_cons, List.append_assoc, List.append_assoc] at h
        obtain ⟨rfl, hrest⟩ := delimited_escapeByte b c _ _ h
        obtain ⟨rfl, rfl⟩ := ih bs' r r' hrest
        exact ⟨rfl, rfl⟩
  intro bs bs' r r' h
  simp only [writeBytes, List.cons_append, List.append_assoc, List.nil_append,
    List.cons.injEq, true_and] at h
  exact hclosed bs bs' r r' h

theorem delimited_writeString : Delimited writeString := by
  intro s s' r r' h
  obtain ⟨hbytes, hr⟩ := delimited_writeBytes _ _ r r' h
  refine ⟨?_, hr⟩
  have hdata : s.toByteArray = s'.toByteArray := ByteArray.ext (Array.toList_inj.mp hbytes)
  exact String.toByteArray_inj.mp hdata

/-! ## Numbers and literals -/

def isTokenByte (b : UInt8) : Bool :=
  (48 ≤ b.toNat ∧ b.toNat ≤ 57) ∨ (97 ≤ b.toNat ∧ b.toNat ≤ 122) ∨ b.toNat = 45

/-- An ASCII text. -/
def ascii : List UInt8 := s.toList.map fun c => UInt8.ofNat c.toNat

def writeNat : List UInt8 := (Nat.toDigits 10 n).map fun c => UInt8.ofNat c.toNat

def writeInt : Int → List UInt8
  | .ofNat n => writeNat n
  | .negSucc n => 0x2d :: writeNat (n + 1)

def writeBool (b : Bool) : List UInt8 := if b then ascii "true" else ascii "false"

def writeOptionInt : Option Int → List UInt8
  | none => ascii "null"
  | some n => writeInt n

theorem delimited_token {α : Type} {f : α → List UInt8} (hinj : Function.Injective f)
    (hf : ∀ a, ∀ b ∈ f a, isTokenByte b) {d : UInt8} (hd : ¬isTokenByte d) :
    Delimited fun a => f a ++ [d] := by
  intro a b r r' h
  simp only [List.append_assoc, List.singleton_append] at h
  have htake : ∀ x (rest : List UInt8), (f x ++ d :: rest).takeWhile isTokenByte = f x := by
    intro x rest
    rw [List.takeWhile_append_of_pos (hf x), List.takeWhile_cons_of_neg (by simpa using hd),
      List.append_nil]
  have hab : f a = f b := by
    rw [← htake a r, h, htake]
  refine ⟨hinj hab, ?_⟩
  rw [hab] at h
  simpa using h

theorem isDigit_bounds {c : Char} (h : c.isDigit) : 48 ≤ c.toNat ∧ c.toNat ≤ 57 := by
  simp only [Char.isDigit, Bool.and_eq_true, decide_eq_true_eq, ge_iff_le,
    UInt32.le_iff_toNat_le] at h
  exact h

theorem mem_writeNat {n : Nat} {b : UInt8} (h : b ∈ writeNat n) : 48 ≤ b.toNat ∧ b.toNat ≤ 57 := by
  obtain ⟨c, hc, rfl⟩ := List.mem_map.mp h
  have hdigit := isDigit_bounds (Nat.isDigit_of_mem_toDigits (by decide) (by decide) hc)
  rw [UInt8.toNat_ofNat']
  omega

theorem writeNat_injective : Function.Injective writeNat := by
  have hback : ∀ n, (writeNat n).map (fun b => Char.ofNat b.toNat) = Nat.toDigits 10 n := by
    intro n
    rw [writeNat, List.map_map]
    refine (List.map_congr_left fun c hc => ?_).trans (List.map_id _)
    have hdigit := isDigit_bounds (Nat.isDigit_of_mem_toDigits (by decide) (by decide) hc)
    rw [Function.comp_apply, UInt8.toNat_ofNat', Nat.mod_eq_of_lt (by omega), Char.ofNat_toNat]
    rfl
  intro m n h
  rw [← Nat.ofDigitChars_ten_toDigits (n := m), ← hback m, h, hback,
    Nat.ofDigitChars_ten_toDigits]

theorem writeInt_injective : Function.Injective writeInt := by
  have hsign : ∀ m n, writeNat m ≠ 0x2d :: writeNat n := by
    intro m n h
    have hmem : (0x2d : UInt8) ∈ writeNat m := by simp [h]
    have := mem_writeNat hmem
    simp at this
  intro m n h
  cases m <;> cases n
  · exact congrArg Int.ofNat (writeNat_injective h)
  · exact absurd h (hsign _ _)
  · exact absurd h.symm (hsign _ _)
  · have := writeNat_injective (List.cons.inj h).2
    exact congrArg Int.negSucc (by omega)

theorem writeNat_token : ∀ b ∈ writeNat n, isTokenByte b := by
  intro b hb
  have := mem_writeNat hb
  simp [isTokenByte, this]

theorem writeInt_token (n : Int) : ∀ b ∈ writeInt n, isTokenByte b := by
  cases n with
  | ofNat n => exact writeNat_token n
  | negSucc n =>
    intro b hb
    rcases List.mem_cons.mp hb with rfl | hb
    · decide
    · exact writeNat_token (n + 1) b hb

theorem writeBool_injective : Function.Injective writeBool := by
  intro v w
  cases v <;> cases w <;> decide

theorem writeBool_token (v : Bool) : ∀ b ∈ writeBool v, isTokenByte b := by
  refine List.all_eq_true.mp ?_
  cases v <;> decide

theorem writeOptionInt_injective : Function.Injective writeOptionInt := by
  -- `null` has a byte that no number has
  have hnull : ∀ n, ascii "null" ≠ writeInt n := by
    intro n h
    have hmem : (0x6e : UInt8) ∈ writeInt n := by rw [← h]; decide
    cases n with
    | ofNat n => exact absurd (mem_writeNat hmem) (by decide)
    | negSucc n =>
      rcases List.mem_cons.mp hmem with hminus | hdigit
      · exact absurd hminus (by decide)
      · exact absurd (mem_writeNat hdigit) (by decide)
  intro m n h
  cases m <;> cases n
  · rfl
  · exact absurd h (hnull _)
  · exact absurd h.symm (hnull _)
  · exact congrArg some (writeInt_injective h)

theorem writeOptionInt_token (n : Option Int) : ∀ b ∈ writeOptionInt n, isTokenByte b := by
  cases n with
  | none => exact List.all_eq_true.mp (by decide)
  | some n => exact writeInt_token n

/-! ## Plain bytes -/

def isPlain (b : UInt8) : Bool := b ≠ 0x0a ∧ b ≠ 0x7b

theorem isPlain_of_isTokenByte {b : UInt8} (h : isTokenByte b) : isPlain b := by
  rw [isPlain, decide_eq_true_eq]
  constructor <;> rintro rfl <;> exact absurd h (by decide)

theorem isPlain_ascii {s : String} (h : (ascii s).all isPlain) : ∀ b ∈ ascii s, isPlain b :=
  List.all_eq_true.mp h

theorem isPlain_hexDigit : ∀ n < 16, isPlain (hexDigit n) := by decide

theorem isPlain_escapeByte : ∀ b ∈ escapeByte c, isPlain b := by
  have hlt := c.toNat_lt
  unfold escapeByte
  split
  next h => rcases h with rfl | rfl <;> exact List.all_eq_true.mp (by decide)
  next =>
    split
    · intro b hb
      simp only [unicodeEscape, List.mem_cons, List.not_mem_nil, or_false] at hb
      rcases hb with rfl | rfl | rfl | rfl | rfl | rfl
      · decide
      · decide
      · decide
      · decide
      · exact isPlain_hexDigit _ (by omega)
      · exact isPlain_hexDigit _ (by omega)
    next h =>
      intro b hb
      rw [List.mem_singleton.mp hb, isPlain, decide_eq_true_eq]
      rw [not_or] at h
      refine ⟨?_, h.2⟩
      rintro rfl
      exact h.1 (by decide)

theorem isPlain_writeString : ∀ b ∈ writeString s, isPlain b := by
  intro b hb
  simp only [writeString, writeBytes, List.cons_append, List.mem_cons, List.mem_append,
    List.mem_flatMap, List.not_mem_nil, or_false] at hb
  rcases hb with rfl | ⟨c, -, hc⟩ | rfl
  · decide
  · exact isPlain_escapeByte c b hc
  · decide

/-! ## Records -/

theorem Delimited.injective {α : Type} {f : α → List UInt8} (h : Delimited f) :
    Function.Injective f := fun a b hab => (h a b [] [] (by rw [hab])).1

theorem Delimited.pair {α β : Type} {f : α → List UInt8} {g : β → List UInt8} (hf : Delimited f)
    (hg : Delimited g) : Delimited fun p : α × β => f p.1 ++ g p.2 := by
  rintro ⟨a, b⟩ ⟨a', b'⟩ r r' h
  simp only [List.append_assoc] at h
  obtain ⟨rfl, hrest⟩ := hf a a' _ _ h
  obtain ⟨rfl, rfl⟩ := hg b b' _ _ hrest
  exact ⟨rfl, rfl⟩

theorem Delimited.labelled {α : Type} {f : α → List UInt8} (hf : Delimited f) (label : String) :
    Delimited fun a => ascii label ++ f a := by
  intro a b r r' h
  simp only [List.append_assoc] at h
  exact hf a b r r' (List.append_cancel_left h)

end Lib
