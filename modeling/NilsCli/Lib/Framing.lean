import Mathlib.Algebra.Group.Nat.Defs
import Mathlib.Data.List.Forall2
import Mathlib.Data.List.TakeWhile
import Mathlib.Logic.Basic

/-!
# Framed fields

A text of tagged fields, each tag and each value after its length, as a hash reads them one after
another.
-/

namespace Lib

/-! ## Lengths -/

/-- `to_be_bytes` of a number of `width` bytes. -/
def bigEndian : Nat → Nat → List UInt8
  | 0, _ => []
  | width + 1, n => bigEndian width (n / 256) ++ [UInt8.ofNat n]

@[simp] theorem length_bigEndian (width n : Nat) : (bigEndian width n).length = width := by
  induction width generalizing n with
  | zero => rfl
  | succ width ih => rw [bigEndian, List.length_append, ih, List.length_singleton]

theorem bigEndian_inj {width n m : Nat} (hn : n < 256 ^ width) (hm : m < 256 ^ width)
    (h : bigEndian width n = bigEndian width m) : n = m := by
  induction width generalizing n m with
  | zero =>
    rw [Nat.pow_zero] at hn hm
    omega
  | succ width ih =>
    rw [Nat.pow_succ] at hn hm
    obtain ⟨hhigh, hlow⟩ := List.append_inj' h rfl
    have hdiv : n / 256 = m / 256 := ih (by omega) (by omega) hhigh
    have hmod : n % 256 = m % 256 := by
      have := congrArg UInt8.toNat (List.singleton_inj.mp hlow)
      simpa using this
    omega

/-! ## Fields -/

@[ext] structure Field where
  tag : List UInt8
  value : List UInt8
  deriving DecidableEq

/-- The lengths fit the widths that are written. -/
structure Field.Fits (field : Field) : Prop where
  tag : field.tag.length < 2 ^ 32
  value : field.value.length < 2 ^ 64

def Field.bytes (field : Field) : List UInt8 :=
  bigEndian 4 field.tag.length ++ field.tag ++ bigEndian 8 field.value.length ++ field.value

def framed (fields : List Field) : List UInt8 := fields.flatMap Field.bytes

theorem counted_append_inj {width : Nat} {a b rest rest' : List UInt8}
    (ha : a.length < 256 ^ width) (hb : b.length < 256 ^ width)
    (h : bigEndian width a.length ++ (a ++ rest) = bigEndian width b.length ++ (b ++ rest')) :
    a = b ∧ rest = rest' := by
  obtain ⟨hlength, h⟩ := List.append_inj h (by simp)
  exact List.append_inj h (bigEndian_inj ha hb hlength)

theorem Field.bytes_append_inj {a b : Field} {rest rest' : List UInt8} (ha : a.Fits) (hb : b.Fits)
    (h : a.bytes ++ rest = b.bytes ++ rest') : a = b ∧ rest = rest' := by
  simp only [bytes, List.append_assoc] at h
  obtain ⟨htag, hafter⟩ := counted_append_inj (by simpa using ha.tag) (by simpa using hb.tag) h
  obtain ⟨hvalue, hrest⟩ :=
    counted_append_inj (by simpa using ha.value) (by simpa using hb.value) hafter
  exact ⟨Field.ext htag hvalue, hrest⟩

theorem Field.bytes_ne_nil (field : Field) : field.bytes ≠ [] := by
  intro h
  have := congrArg List.length h
  simp [bytes] at this

theorem framed_inj {fields fields' : List Field} (hfits : ∀ field ∈ fields, field.Fits)
    (hfits' : ∀ field ∈ fields', field.Fits) (h : framed fields = framed fields') :
    fields = fields' := by
  induction fields generalizing fields' with
  | nil =>
    cases fields' with
    | nil => rfl
    | cons field' fields' => exact absurd (List.append_eq_nil_iff.mp h.symm).1 field'.bytes_ne_nil
  | cons field fields ih =>
    cases fields' with
    | nil => exact absurd (List.append_eq_nil_iff.mp h).1 field.bytes_ne_nil
    | cons field' fields' =>
      rw [List.forall_mem_cons] at hfits hfits'
      obtain ⟨rfl, hrest⟩ := Field.bytes_append_inj hfits.1 hfits'.1 h
      rw [ih hfits.2 hfits'.2 hrest]

/-! ## Blocks -/

variable {α : Type} {opens : α → Bool}

structure IsBlock (opens : α → Bool) (block : List α) : Prop where
  head : ∃ a rest, block = a :: rest ∧ opens a ∧ ∀ b ∈ rest, opens b = false

theorem isBlock_cons {a : α} {rest : List α} (ha : opens a) (hrest : ∀ b ∈ rest, opens b = false) :
    IsBlock opens (a :: rest) :=
  ⟨a, rest, rfl, ha, hrest⟩

/-- What follows a block is empty or opens another one. -/
theorem takeWhile_flatten {blocks : List (List α)} (h : ∀ block ∈ blocks, IsBlock opens block) :
    blocks.flatten.takeWhile (!opens ·) = [] := by
  cases blocks with
  | nil => rfl
  | cons block blocks =>
    obtain ⟨a, rest, rfl, ha, -⟩ := (h block List.mem_cons_self).head
    rw [List.flatten_cons, List.cons_append, List.takeWhile_cons_of_neg (by simpa using ha)]

theorem takeWhile_rest {rest : List α} {blocks : List (List α)}
    (hrest : ∀ b ∈ rest, opens b = false) (h : ∀ block ∈ blocks, IsBlock opens block) :
    (rest ++ blocks.flatten).takeWhile (!opens ·) = rest := by
  rw [List.takeWhile_append_of_pos (by simpa using hrest), takeWhile_flatten h, List.append_nil]

theorem flatten_inj {blocks blocks' : List (List α)} (h : ∀ block ∈ blocks, IsBlock opens block)
    (h' : ∀ block ∈ blocks', IsBlock opens block) (heq : blocks.flatten = blocks'.flatten) :
    blocks = blocks' := by
  induction blocks generalizing blocks' with
  | nil =>
    cases blocks' with
    | nil => rfl
    | cons block' blocks' =>
      obtain ⟨a, rest, rfl, -⟩ := (h' block' List.mem_cons_self).head
      cases heq
  | cons block blocks ih =>
    obtain ⟨a, rest, rfl, -, hrest⟩ := (h block List.mem_cons_self).head
    cases blocks' with
    | nil => cases heq
    | cons block' blocks' =>
      obtain ⟨a', rest', rfl, -, hrest'⟩ := (h' block' List.mem_cons_self).head
      rw [List.forall_mem_cons] at h h'
      rw [List.flatten_cons, List.flatten_cons, List.cons_append, List.cons_append,
        List.cons.injEq] at heq
      obtain ⟨rfl, heq⟩ := heq
      have hsame : rest = rest' := by
        rw [← takeWhile_rest hrest h.2, heq, takeWhile_rest hrest' h'.2]
      subst hsame
      rw [ih h.2 h'.2 (List.append_cancel_left heq)]

theorem exists_of_forall₂ {β : Type} {R : α → β → Prop} {as : List α} {bs : List β}
    (h : List.Forall₂ R as bs) {b : β} (hmem : b ∈ bs) : ∃ a ∈ as, R a b := by
  induction h with
  | nil => cases hmem
  | cons hab _ ih =>
    rcases List.mem_cons.mp hmem with rfl | hmem
    · exact ⟨_, List.mem_cons_self, hab⟩
    · obtain ⟨a, ha, hR⟩ := ih hmem
      exact ⟨a, List.mem_cons_of_mem _ ha, hR⟩

theorem forall₂_same {β : Type} {R R' : α → β → Prop} {P : α → Prop} {as as' : List α}
    {blocks : List β} (hinj : ∀ a a' block, R a block → R' a' block → a = a' ∧ P a)
    (h : List.Forall₂ R as blocks) (h' : List.Forall₂ R' as' blocks) :
    as = as' ∧ ∀ a ∈ as, P a := by
  induction h generalizing as' with
  | nil =>
    cases h'
    exact ⟨rfl, fun a hmem => by cases hmem⟩
  | cons hblock _ ih =>
    cases h' with
    | cons hblock' hrest' =>
      obtain ⟨rfl, hP⟩ := hinj _ _ _ hblock hblock'
      obtain ⟨rfl, hall⟩ := ih hrest'
      exact ⟨rfl, List.forall_mem_cons.mpr ⟨hP, hall⟩⟩

end Lib
