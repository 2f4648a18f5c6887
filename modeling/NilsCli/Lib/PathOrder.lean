import Mathlib.Order.Basic

/-!
# The order of paths

A path is a list of symbols in which `sep` separates the components.
-/

namespace Lib

variable {α : Type}

def Below (sep : α) (q p : List α) : Prop := q = p ∨ ∃ rest, q = p ++ sep :: rest

namespace Below

variable {sep : α} {p q r a b : List α}

theorem refl (sep : α) (p : List α) : Below sep p p := .inl rfl

theorem trans (h : Below sep r q) (h' : Below sep q p) : Below sep r p := by
  rcases h with rfl | ⟨s, rfl⟩
  · exact h'
  · rcases h' with rfl | ⟨t, rfl⟩
    · exact .inr ⟨s, rfl⟩
    · exact .inr ⟨t ++ sep :: s, by simp⟩

theorem isPrefix (h : Below sep q p) : p <+: q := by
  rcases h with rfl | ⟨s, rfl⟩
  · exact List.prefix_refl _
  · exact List.prefix_append _ _

theorem of_isPrefix (ha : Below sep q a) (hb : Below sep q b) (h : a <+: b) : Below sep b a := by
  obtain ⟨t, rfl⟩ := h
  rcases t with - | ⟨c, t⟩
  · exact .inl (by simp)
  · -- the symbol after `a` in `b` is the one after `a` in `q`, a separator
    have hsep : ∃ s, q = a ++ sep :: s := by
      rcases ha with rfl | hs
      · have := hb.isPrefix.length_le
        rw [List.length_append, List.length_cons] at this
        omega
      · exact hs
    obtain ⟨s, rfl⟩ := hsep
    obtain ⟨u, hu⟩ := hb.isPrefix
    have hc : c = sep := by
      have : (c :: t) ++ u = sep :: s := List.append_cancel_left (by rw [← List.append_assoc, hu])
      exact (List.cons.inj this).1
    exact .inr ⟨t, by rw [hc]⟩

/-- Two paths above one path are comparable. -/
theorem comparable (ha : Below sep q a) (hb : Below sep q b) : Below sep a b ∨ Below sep b a := by
  rcases List.prefix_or_prefix_of_prefix ha.isPrefix hb.isPrefix with h | h
  · exact .inr (of_isPrefix ha hb h)
  · exact .inl (of_isPrefix hb ha h)

end Below

end Lib
