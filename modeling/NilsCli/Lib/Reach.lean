import Mathlib.Logic.Relation
import Mathlib.Data.List.Nodup
import Mathlib.Data.List.Range

/-!
# Reachability by a worklist

Nodes are numbers below a bound, and `succ` lists the successors of one.
-/

namespace Lib

open Relation

/-! ## Marking -/

section

variable (succ : Nat → List Nat)

def visit (seen : List Bool) : List Nat → List Bool
  | [] => seen
  | node :: stack =>
    if seen[node]? = some false then visit (seen.set node true) ((succ node).reverse ++ stack)
    else visit seen stack
termination_by stack => (seen.count false, stack.length)
decreasing_by
  · rename_i h
    obtain ⟨hlt, hfalse⟩ := List.getElem?_eq_some_iff.mp h
    have hpos : 0 < seen.count false := List.count_pos_iff.mpr (hfalse ▸ List.getElem_mem hlt)
    have hold : (if (false == false) = true then 1 else 0) = 1 := rfl
    have hnew : (if (true == false) = true then 1 else 0) = 0 := rfl
    refine Prod.Lex.left _ _ ?_
    rw [List.count_set hlt, hfalse, hold, hnew]
    omega
  · exact Prod.Lex.right _ (Nat.lt_succ_self _)

/-- What a node leads to by at least one edge. -/
def reached (count start : Nat) : List Bool :=
  visit succ (List.replicate count false) (succ start).reverse

def Edge (a b : Nat) : Prop := b ∈ succ a

def Closed (seen : List Bool) (stack : List Nat) : Prop :=
  ∀ a, seen[a]? = some true → ∀ b ∈ succ a, seen[b]? = some true ∨ b ∈ stack

variable {succ} {seen : List Bool} {stack : List Nat} {a b j count start : Nat}

theorem Closed.path (hclosed : Closed succ seen stack) (ha : seen[a]? = some true)
    (hpath : ReflTransGen (Edge succ) a j) :
    seen[j]? = some true ∨ ∃ s ∈ stack, ReflTransGen (Edge succ) s j := by
  induction hpath using ReflTransGen.head_induction_on with
  | refl => exact .inl ha
  | @head a b hab hbj ih =>
    rcases hclosed a ha b hab with hb | hb
    · exact ih hb
    · exact .inr ⟨b, hb, hbj⟩

theorem getElem?_set_true (h : a < seen.length) :
    (seen.set a true)[b]? = some true ↔ b = a ∨ seen[b]? = some true := by
  rw [List.getElem?_set]
  by_cases hab : a = b
  · subst hab
    simp [h]
  · simp [hab, Ne.symm hab]

theorem Closed.mark (hclosed : Closed succ seen (a :: stack)) (ha : a < seen.length) :
    Closed succ (seen.set a true) ((succ a).reverse ++ stack) := by
  intro x hx b hb
  rw [getElem?_set_true ha] at hx ⊢
  rcases hx with rfl | hx
  · exact .inr (by simp [hb])
  · rcases hclosed x hx b hb with hseen | hmem
    · exact .inl (.inr hseen)
    · rcases List.mem_cons.mp hmem with rfl | hmem
      · exact .inl (.inl rfl)
      · exact .inr (by simp [hmem])

theorem Closed.skip (hclosed : Closed succ seen (a :: stack)) (ha : seen[a]? = some true) :
    Closed succ seen stack := by
  intro x hx b hb
  rcases hclosed x hx b hb with hseen | hmem
  · exact .inl hseen
  · rcases List.mem_cons.mp hmem with rfl | hmem
    · exact .inl ha
    · exact .inr hmem

theorem visit_iff (hclosed : Closed succ seen stack) (hstack : ∀ s ∈ stack, s < seen.length)
    (hsucc : ∀ a, ∀ b ∈ succ a, b < seen.length) :
    (visit succ seen stack)[j]? = some true ↔
      seen[j]? = some true ∨ ∃ s ∈ stack, ReflTransGen (Edge succ) s j := by
  induction seen, stack using visit.induct succ with
  | case1 seen =>
    unfold visit
    simp
  | case2 seen node stack hfresh ih =>
    have hnode : node < seen.length := hstack node (by simp)
    unfold visit
    rw [if_pos hfresh, ih (hclosed.mark hnode) ?_ (by simpa using hsucc), getElem?_set_true hnode]
    · constructor
      · rintro ((rfl | hseen) | ⟨s, hs, hpath⟩)
        · exact .inr ⟨j, by simp, .refl⟩
        · exact .inl hseen
        · rcases List.mem_append.mp hs with hs | hs
          · exact .inr ⟨node, by simp, .head (List.mem_reverse.mp hs) hpath⟩
          · exact .inr ⟨s, by simp [hs], hpath⟩
      · rintro (hseen | ⟨s, hs, hpath⟩)
        · exact .inl (.inr hseen)
        · rcases List.mem_cons.mp hs with rfl | hs
          · rcases hpath.cases_head with rfl | ⟨b, hb, hpath⟩
            · exact .inl (.inl rfl)
            · have hb' : b ∈ succ s := hb
              exact .inr ⟨b, by simp [hb'], hpath⟩
          · exact .inr ⟨s, by simp [hs], hpath⟩
    · intro s hs
      rw [List.length_set]
      rcases List.mem_append.mp hs with hs | hs
      · exact hsucc node s (List.mem_reverse.mp hs)
      · exact hstack s (by simp [hs])
  | case3 seen node stack hmarked ih =>
    have hnode : node < seen.length := hstack node (by simp)
    have hseen : seen[node]? = some true := by
      rw [List.getElem?_eq_getElem hnode] at hmarked ⊢
      simpa using hmarked
    unfold visit
    rw [if_neg hmarked, ih (hclosed.skip hseen) (fun s hs => hstack s (by simp [hs])) hsucc]
    constructor
    · rintro (h | ⟨s, hs, hpath⟩)
      · exact .inl h
      · exact .inr ⟨s, by simp [hs], hpath⟩
    · rintro (h | ⟨s, hs, hpath⟩)
      · exact .inl h
      · rcases List.mem_cons.mp hs with rfl | hs
        · exact (hclosed.skip hseen).path hseen hpath
        · exact .inr ⟨s, hs, hpath⟩

theorem reached_iff (hsucc : ∀ a, ∀ b ∈ succ a, b < count) :
    (reached succ count start)[j]? = some true ↔ TransGen (Edge succ) start j := by
  have hclosed : Closed succ (List.replicate count false) (succ start).reverse := by
    intro a ha
    simp [List.getElem?_replicate] at ha
  unfold reached
  rw [visit_iff hclosed (by simpa using fun s hs => hsucc start s hs) (by simpa using hsucc),
    TransGen.head'_iff]
  simp [List.getElem?_replicate, Edge]

end

/-! ## Groups -/

section

variable (same : Nat → Nat → Bool) (count : Nat)

def groupOf (first : Nat) : List Nat := (List.range count).filter fun other => same first other

/-- The loop over the nodes: a node that is in no group so far starts one. -/
def groupsFrom (grouped : List Nat) : List Nat → List (List Nat)
  | [] => []
  | first :: rest =>
    if first ∈ grouped then groupsFrom grouped rest
    else if (groupOf same count first).length > 1 then
      groupOf same count first :: groupsFrom (groupOf same count first ++ grouped) rest
    else groupsFrom grouped rest

variable {same count} {first : Nat} {grouped nodes g : List Nat}

theorem mem_groupOf {x : Nat} : x ∈ groupOf same count first ↔ x < count ∧ same first x := by
  simp [groupOf]

def Grouped (same : Nat → Nat → Bool) (count : Nat) (grouped : List Nat) : Prop :=
  ∀ x ∈ grouped, ∀ y, y < count → same x y → y ∈ grouped

variable (hrefl : ∀ a, same a a) (hsymm : ∀ a b, same a b → same b a)
  (htrans : ∀ a b c, same a b → same b c → same a c)

include htrans

theorem Grouped.add (h : Grouped same count grouped) (x : Nat) :
    Grouped same count (groupOf same count x ++ grouped) := by
  intro y hy z hz hyz
  rcases List.mem_append.mp hy with hy | hy
  · exact List.mem_append_left _ (mem_groupOf.mpr ⟨hz, htrans x y z (mem_groupOf.mp hy).2 hyz⟩)
  · exact List.mem_append_right _ (h y hy z hz hyz)

include hsymm

theorem groupOf_eq_of_same {a b : Nat} (h : same a b) :
    groupOf same count a = groupOf same count b := by
  refine List.filter_congr fun x _ => Bool.eq_iff_iff.mpr ⟨fun hax => ?_, fun hbx => ?_⟩
  · exact htrans b a x (hsymm a b h) hax
  · exact htrans a b x h hbx

theorem mem_groupsFrom (hnodes : ∀ x ∈ nodes, x < count) (hgrouped : Grouped same count grouped) :
    g ∈ groupsFrom same count grouped nodes ↔
      1 < g.length ∧ ∃ first ∈ nodes, first ∉ grouped ∧ g = groupOf same count first := by
  induction nodes generalizing grouped with
  | nil => simp [groupsFrom]
  | cons x nodes ih =>
    have hnodes' : ∀ y ∈ nodes, y < count := fun y hy => hnodes y (by simp [hy])
    unfold groupsFrom
    split
    next hmem =>
      rw [ih hnodes' hgrouped]
      refine and_congr_right fun _ => ⟨?_, ?_⟩
      · rintro ⟨first, hfirst, h⟩
        exact ⟨first, by simp [hfirst], h⟩
      · rintro ⟨first, hfirst, hnot, rfl⟩
        rcases List.mem_cons.mp hfirst with rfl | hfirst
        · exact absurd hmem hnot
        · exact ⟨first, hfirst, hnot, rfl⟩
    next hnew =>
      split
      next hlen =>
        rw [List.mem_cons, ih hnodes' (hgrouped.add htrans x)]
        constructor
        · rintro (rfl | ⟨hg, first, hfirst, hnot, rfl⟩)
          · exact ⟨hlen, x, by simp, hnew, rfl⟩
          · exact ⟨hg, first, by simp [hfirst], fun h => hnot (by simp [h]), rfl⟩
        · rintro ⟨hg, first, hfirst, hnot, rfl⟩
          rcases List.mem_cons.mp hfirst with rfl | hfirst
          · exact .inl rfl
          · -- a node of the new group starts the same group
            by_cases hin : same x first
            · exact .inl (groupOf_eq_of_same hsymm htrans hin).symm
            · refine .inr ⟨hg, first, hfirst, ?_, rfl⟩
              simp [mem_groupOf, hin, hnot]
      next hlen =>
        rw [ih hnodes' hgrouped]
        refine and_congr_right fun hg => ⟨?_, ?_⟩
        · rintro ⟨first, hfirst, h⟩
          exact ⟨first, by simp [hfirst], h⟩
        · rintro ⟨first, hfirst, hnot, rfl⟩
          rcases List.mem_cons.mp hfirst with rfl | hfirst
          · exact absurd hg hlen
          · exact ⟨first, hfirst, hnot, rfl⟩

include hrefl

theorem nodup_groupsFrom (hnodes : ∀ x ∈ nodes, x < count) (hgrouped : Grouped same count grouped) :
    (groupsFrom same count grouped nodes).Nodup := by
  induction nodes generalizing grouped with
  | nil => simp [groupsFrom]
  | cons x nodes ih =>
    have hnodes' : ∀ y ∈ nodes, y < count := fun y hy => hnodes y (by simp [hy])
    unfold groupsFrom
    split
    next => exact ih hnodes' hgrouped
    next hnew =>
      split
      next hlen =>
        refine List.nodup_cons.mpr ⟨fun hmem => ?_, ih hnodes' (hgrouped.add htrans x)⟩
        obtain ⟨-, first, hfirst, hnot, heq⟩ :=
          (mem_groupsFrom hsymm htrans hnodes' (hgrouped.add htrans x)).mp hmem
        have hin : first ∈ groupOf same count x :=
          heq ▸ mem_groupOf.mpr ⟨hnodes' first hfirst, hrefl first⟩
        exact hnot (by simp [hin])
      next => exact ih hnodes' hgrouped

end

/-! ## Relations without cycles -/

section

variable {α : Type} {R R' : α → α → Prop} {x : α} {T : α → Prop}

/-- No element leads back to itself. -/
def Acyclic (R : α → α → Prop) : Prop := ∀ a, ¬ TransGen R a a

theorem transGen_redirect (h : ∀ a b, R' a b → R a b ∨ a = x ∧ T b) {a b : α}
    (hab : TransGen R' a b) :
    TransGen R a b ∨ ReflTransGen R a x ∧ ∃ t, T t ∧ ReflTransGen R t b := by
  induction hab with
  | @single b hab =>
    rcases h a b hab with hR | ⟨rfl, hT⟩
    · exact .inl (.single hR)
    · exact .inr ⟨.refl, b, hT, .refl⟩
  | @tail b c hab hbc ih =>
    rcases h b c hbc with hR | ⟨rfl, hT⟩
    · rcases ih with hR' | ⟨hx, t, ht, htb⟩
      · exact .inl (hR'.tail hR)
      · exact .inr ⟨hx, t, ht, htb.tail hR⟩
    · rcases ih with hR' | ⟨hx, -⟩
      · exact .inr ⟨hR'.to_reflTransGen, c, hT, .refl⟩
      · exact .inr ⟨hx, c, hT, .refl⟩

theorem Acyclic.redirect (hR : Acyclic R) (h : ∀ a b, R' a b → R a b ∨ a = x ∧ T b)
    (hT : ∀ t, T t → ¬ ReflTransGen R t x) : Acyclic R' := by
  intro a haa
  rcases transGen_redirect h haa with hcycle | ⟨hax, t, ht, hta⟩
  · exact hR a hcycle
  · exact hT t ht (hta.trans hax)

end

end Lib
