import NilsCli.Lib.JsonSize

/-!
# Compact JSON is written for one value

A written value says itself where it ends (`EndsItself`), so two records that are written the same
are the same.
-/

namespace Lib

def EndsItself {α : Type} (write : α → List Char) : Prop :=
  ∀ a b r r', write a ++ r = write b ++ r' → a = b ∧ r = r'

theorem utf8Bytes_injective : Function.Injective utf8Bytes := by
  intro text text' h
  have hbytes : text.utf8Encode = text'.utf8Encode := by
    rw [List.utf8Encode, List.utf8Encode]
    exact congrArg List.toByteArray h
  have hstring : String.ofList text = String.ofList text' := by
    rw [← String.toByteArray_inj, String.toByteArray_ofList, String.toByteArray_ofList, hbytes]
  exact String.ofList_injective hstring

/-! ## Strings -/

def hexValue (c : Char) : Nat := if c.toNat < 58 then c.toNat - 48 else c.toNat - 87

/-- The first character of the rest of a string. -/
def readChar : List Char → Option (Char × List Char)
  | '\\' :: 'u' :: _ :: _ :: high :: low :: rest =>
    some (.ofNat (16 * hexValue high + hexValue low), rest)
  | '\\' :: 'b' :: rest => some ('\x08', rest)
  | '\\' :: 't' :: rest => some ('\t', rest)
  | '\\' :: 'n' :: rest => some ('\n', rest)
  | '\\' :: 'f' :: rest => some ('\x0c', rest)
  | '\\' :: 'r' :: rest => some ('\r', rest)
  | '\\' :: c :: rest => some (c, rest)
  | c :: rest => some (c, rest)
  | [] => none

theorem readChar_jsonChar (c : Char) (rest : List Char) :
    readChar (jsonChar c ++ rest) = some (c, rest) := by
  unfold jsonChar
  by_cases hquote : c = '\x22'
  · simp [hquote, readChar]
  by_cases hslash : c = '\\'
  · simp [hslash, readChar]
  by_cases hb : c = '\x08'
  · simp [hb, readChar]
  by_cases ht : c = '\t'
  · simp [ht, readChar]
  by_cases hn : c = '\n'
  · simp [hn, readChar]
  by_cases hf : c = '\x0c'
  · simp [hf, readChar]
  by_cases hr : c = '\r'
  · simp [hr, readChar]
  simp only [if_neg hquote, if_neg hslash, if_neg hb, if_neg ht, if_neg hn, if_neg hf, if_neg hr]
  split
  · rename_i hcontrol
    have hvalue : ∀ n < 16, hexValue (hexChar n) = n := by decide
    have hnat : 16 * (c.toNat / 16) + c.toNat % 16 = c.toNat := Nat.div_add_mod _ _
    simp only [List.cons_append, List.nil_append, readChar, hvalue (c.toNat / 16) (by omega),
      hvalue (c.toNat % 16) (by omega), hnat, Char.ofNat_toNat]
  · simp [readChar, hslash]

theorem endsItself_jsonChar : EndsItself jsonChar := by
  intro c d r r' h
  have hread := congrArg readChar h
  rw [readChar_jsonChar, readChar_jsonChar] at hread
  simpa using hread

theorem quote_ne_jsonChar (c : Char) (r r' : List Char) : '\x22' :: r ≠ jsonChar c ++ r' := by
  unfold jsonChar
  split
  · simp
  · rename_i hquote
    repeat' split
    all_goals simp [Ne.symm hquote]

/-- A string ends at its first quote that is not escaped. -/
theorem endsItself_jsonString : EndsItself jsonString := by
  have hclosed : ∀ (cs cs' r r' : List Char), cs.flatMap jsonChar ++ '\x22' :: r =
      cs'.flatMap jsonChar ++ '\x22' :: r' → cs = cs' ∧ r = r' := by
    intro cs
    induction cs with
    | nil =>
      intro cs' r r' h
      cases cs' with
      | nil => simpa using h
      | cons c cs' =>
        rw [List.flatMap_cons, List.append_assoc] at h
        exact absurd h (quote_ne_jsonChar c r _)
    | cons c cs ih =>
      intro cs' r r' h
      cases cs' with
      | nil =>
        rw [List.flatMap_cons, List.append_assoc] at h
        exact absurd h.symm (quote_ne_jsonChar c r' _)
      | cons d cs' =>
        rw [List.flatMap_cons, List.flatMap_cons, List.append_assoc, List.append_assoc] at h
        obtain ⟨rfl, hrest⟩ := endsItself_jsonChar c d _ _ h
        obtain ⟨rfl, rfl⟩ := ih cs' r r' hrest
        exact ⟨rfl, rfl⟩
  intro s s' r r' h
  simp only [jsonString, List.cons_append, List.append_assoc, List.nil_append, List.cons.injEq,
    true_and] at h
  obtain ⟨hchars, rfl⟩ := hclosed _ _ _ _ h
  exact ⟨String.toList_injective hchars, rfl⟩

/-- A number ends at the first character that is no digit. -/
theorem jsonNat_append_inj {m n : Nat} {c d : Char} {r r' : List Char}
    (hc : isAsciiDigit c = false) (hd : isAsciiDigit d = false)
    (h : jsonNat m ++ c :: r = jsonNat n ++ d :: r') : m = n ∧ c :: r = d :: r' := by
  have htake : ∀ (n : Nat) (c : Char) (r : List Char), isAsciiDigit c = false →
      (jsonNat n ++ c :: r).takeWhile isAsciiDigit = Nat.toDigits 10 n := by
    intro n c r hc
    rw [jsonNat, List.takeWhile_append_of_pos fun c hc => isAsciiDigit_of_mem_toDigits hc,
      List.takeWhile_cons_of_neg (by simp [hc]), List.append_nil]
  have hdigits : Nat.toDigits 10 m = Nat.toDigits 10 n := by
    rw [← htake m c r hc, ← htake n d r' hd, h]
  refine ⟨?_, ?_⟩
  · rw [← Nat.ofDigitChars_toDigits (n := m) (b := 10) (by decide) (by decide),
      hdigits, Nat.ofDigitChars_toDigits (by decide) (by decide)]
  · rw [jsonNat, jsonNat, hdigits] at h
    exact List.append_cancel_left h

theorem endsItself_list {α : Type} {write : α → List Char} (hwrite : EndsItself write)
    (hopen : ∀ a r r', write a ++ r ≠ ']' :: r') :
    EndsItself fun xs : List α => jsonArray (xs.map write) := by
  have hclosed : ∀ (xs ys : List α) (r r' : List Char),
      commaSeparated (xs.map write) ++ ']' :: r = commaSeparated (ys.map write) ++ ']' :: r' →
        xs = ys ∧ r = r' := by
    intro xs
    induction xs with
    | nil =>
      intro ys r r' h
      rcases ys with _ | ⟨y, _ | ⟨y', ys⟩⟩
      · simpa using h
      · exact absurd h.symm (hopen y _ _)
      · simp only [List.map_cons, commaSeparated, List.append_assoc] at h
        exact absurd h.symm (hopen y _ _)
    | cons x xs ih =>
      intro ys r r' h
      rcases xs with _ | ⟨x', xs⟩ <;> rcases ys with _ | ⟨y, _ | ⟨y', ys⟩⟩
      · exact absurd h (hopen x _ _)
      · obtain ⟨rfl, hrest⟩ := hwrite x y _ _ h
        simpa using hrest
      · simp only [List.map_cons, List.map_nil, commaSeparated, List.append_assoc] at h
        obtain ⟨-, hrest⟩ := hwrite x y _ _ h
        simp at hrest
      · simp only [List.map_cons, commaSeparated, List.append_assoc] at h
        exact absurd h (hopen x _ _)
      · simp only [List.map_cons, List.map_nil, commaSeparated, List.append_assoc] at h
        obtain ⟨-, hrest⟩ := hwrite x y _ _ h
        simp at hrest
      · simp only [List.map_cons, commaSeparated, List.append_assoc] at h
        obtain ⟨rfl, hrest⟩ := hwrite x y _ _ h
        simp only [List.cons_append, List.cons.injEq, true_and] at hrest
        obtain ⟨hxs, rfl⟩ := ih (y' :: ys) r r' hrest
        exact ⟨by rw [hxs], rfl⟩
  intro xs ys r r' h
  simp only [jsonArray, List.cons_append, List.append_assoc, List.nil_append, List.cons.injEq,
    true_and] at h
  exact hclosed xs ys r r' h

end Lib
