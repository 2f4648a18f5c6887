import Mathlib.Algebra.BigOperators.Group.Finset.Basic
import Mathlib.Data.Finset.Card
import Mathlib.Data.Finset.Prod
import NilsCli.Notice.Trees

/-!
# The shape of the tree

Keys that JSON does not escape keep a branch of `fanout` children within one page, so a branch is
only split where it has more of them, and the halves have at least `halfFanout` children.
-/

namespace NilsCli.Notice

open Lib List

/-! ## Lists with an edge -/

def Edged {α : Type} (p q : α → Prop) (xs : List α) : Prop :=
  (∀ x ∈ xs.dropLast, p x) ∧ ∀ x ∈ xs.getLast?, q x

section
variable {α : Type} {p q : α → Prop} {xs ys : List α}

theorem edged_nil : Edged p q [] := ⟨by simp, by simp⟩

theorem edged_singleton {x : α} : Edged p q [x] ↔ q x := by simp [Edged]

theorem edged_append (h : ys ≠ []) : Edged p q (xs ++ ys) ↔ (∀ x ∈ xs, p x) ∧ Edged p q ys := by
  unfold Edged
  rw [dropLast_append_of_ne_nil h, getLast?_append_of_ne_nil _ h, forall_mem_append,
    and_assoc]

theorem edged_cons {x : α} (h : xs ≠ []) : Edged p q (x :: xs) ↔ p x ∧ Edged p q xs := by
  rw [← singleton_append, edged_append h, forall_mem_singleton]

theorem edged_self : Edged p p xs ↔ ∀ x ∈ xs, p x := by
  cases xs using reverseRecOn with
  | nil => simp [Edged]
  | append_singleton xs x _ =>
    rw [edged_append (cons_ne_nil _ _), edged_singleton, forall_mem_append,
      forall_mem_singleton]

theorem Edged.imp {p' q' : α → Prop} (h : Edged p q xs) (hp : ∀ x, p x → p' x)
    (hq : ∀ x, q x → q' x) : Edged p' q' xs :=
  ⟨fun x hx => hp x (h.1 x hx), fun x hx => hq x (h.2 x hx)⟩

theorem edged_map {β : Type} {f : β → α} {ys : List β} :
    Edged p q (ys.map f) ↔ Edged (fun y => p (f y)) (fun y => q (f y)) ys := by
  simp [Edged, ← map_dropLast, getLast?_map]

end

/-! ## Branches that fit -/

theorem utf8Size_hash {hash : String} (h : hashValid hash = true) :
    utf8Size (jsonString hash) = 66 := by
  unfold hashValid at h
  simp only [Bool.and_eq_true, decide_eq_true_eq, all_eq_true] at h
  have hlength := utf8Size_ascii fun c hc => toNat_le_of_hex (h.2 c hc)
  have hquote : Char.utf8Size '\x22' = 1 := by decide
  simp only [jsonString, utf8Size_cons, utf8Size_append, utf8Size_nil, hquote,
    utf8Size_hexDigits h.2]
  omega

theorem Child.size_le {child : Child} (hlast : unescaped child.last = true)
    (hkey : Node.keyValid child.last = true) (hplace : child.page.offset + child.page.bytes ≤ maxFileBytes)
    (hbytes : child.page.bytes ≤ pageBytes) (hhash : hashValid child.page.sha256 = true) :
    utf8Size child.json ≤ 267 := by
  have hlabels : utf8Size (jsonString "last") = 6 ∧ utf8Size (jsonString "page") = 6 ∧
      utf8Size (jsonString "offset") = 8 ∧ utf8Size (jsonString "bytes") = 7 ∧
      utf8Size (jsonString "sha256") = 8 := by decide
  obtain ⟨hlabel₁, hlabel₂, hlabel₃, hlabel₄, hlabel₅⟩ := hlabels
  have hkeySize : utf8Size child.last.toList ≤ 128 := by
    simp only [Node.keyValid, Bool.and_eq_true, decide_eq_true_eq] at hkey
    exact hkey.2
  have hoffsetSize := utf8Size_jsonNat_le (n := child.page.offset) (k := 19) (by decide) (by
    unfold maxFileBytes at hplace
    omega)
  have hbytesSize := utf8Size_jsonNat_le (n := child.page.bytes) (k := 5) (by decide) (by
    unfold pageBytes at hbytes
    omega)
  have hlastSize := utf8Size_unescaped hlast
  have hhashSize := utf8Size_hash hhash
  simp only [Child.json, Page.json, utf8Size_jsonObject, utf8Size_jsonMember, map_cons,
    map_nil, sum_cons, sum_nil, length_cons, length_nil, hlabel₁, hlabel₂,
    hlabel₃, hlabel₄, hlabel₅, hhashSize, hlastSize]
  omega

theorem branch_fits {children : List Child} (hlength : children.length ≤ fanout)
    (hchildren : ∀ child ∈ children, utf8Size child.json ≤ 267) :
    (Node.branch children).toVec.length ≤ pageBytes := by
  have hlabel : utf8Size (jsonString "Branch") = 8 := by decide
  have hsum : ((children.map Child.json).map utf8Size).sum ≤ children.length * 267 := by
    rw [map_map]
    refine (sum_le_card_nsmul _ 267 fun size hsize => ?_).trans ?_
    · obtain ⟨child, hchild, rfl⟩ := List.mem_map.mp hsize
      exact hchildren child hchild
    · simp
  unfold fanout at hlength
  unfold pageBytes
  rw [Node.toVec, length_utf8Bytes]
  simp only [Node.json, utf8Size_jsonObject, utf8Size_jsonMember, utf8Size_jsonArray, map_cons,
    map_nil, sum_cons, sum_nil, length_cons, length_nil, length_map,
    hlabel]
  omega

/-! ## Trees that are low -/

/-- Half of a branch that is split. -/
def halfFanout : Nat := fanout / 2

def Tree.Formed : (edge : Bool) → {height : Nat} → Tree height → Prop
  | _, 0, _ => True
  | edge, _ + 1, tree => (edge = true ∨ halfFanout ≤ (subtrees tree).length) ∧
      Edged (fun subtree => Formed false subtree) (fun subtree => Formed edge subtree)
        (subtrees tree)

/-- A level of such trees. -/
def FormedLevel {height : Nat} (edge : Bool) (trees : List (Tree height)) : Prop :=
  Edged (fun tree => tree.Formed false) (fun tree => tree.Formed edge) trees

def Tree.Rooted : {height : Nat} → Tree height → Prop
  | 0, _ => True
  | _ + 1, tree => 2 ≤ (subtrees tree).length

section
variable {codec : Codec} {bytes : List UInt8} {height : Nat} {edge : Bool}

theorem Tree.Formed.weaken {tree : Tree height} (h : tree.Formed false) : tree.Formed edge := by
  induction height with
  | zero => trivial
  | succ height ih =>
    refine ⟨.inr (h.1.resolve_left (by decide)), h.2.imp (fun _ h => h) fun subtree hsubtree => ih hsubtree⟩

theorem formedLevel_of_forall {trees : List (Tree height)} (h : ∀ tree ∈ trees, tree.Formed false) :
    FormedLevel edge trees :=
  Edged.imp (edged_self.mpr h) (fun _ h => h) fun _ => Tree.Formed.weaken

theorem Tree.Formed.rows_ge {tree : Tree height} (h : tree.Formed false)
    (hstored : tree.Stored codec bytes) : halfFanout ^ height ≤ tree.rows.length := by
  induction height with
  | zero =>
    rw [pow_zero]
    exact List.length_pos_iff.mpr hstored.last.1
  | succ height ih =>
    have hmany := h.1.resolve_left (by decide)
    have hall := edged_self.mp h.2
    have hsum : tree.subtrees.length * halfFanout ^ height ≤
        (tree.subtrees.map fun subtree => subtree.rows.length).sum := by
      have hcard := card_nsmul_le_sum (tree.subtrees.map fun subtree => subtree.rows.length)
        (halfFanout ^ height) fun size hsize => by
          obtain ⟨subtree, hsubtree, rfl⟩ := List.mem_map.mp hsize
          exact ih (hall subtree hsubtree) (hstored.2 subtree hsubtree)
      simpa using hcard
    have hrows : tree.rows.length =
        (tree.subtrees.map fun subtree => subtree.rows.length).sum := length_flatMap
    rw [hrows, Nat.pow_succ, Nat.mul_comm]
    exact (Nat.mul_le_mul_right _ hmany).trans hsum

/-- Different values, each named by three numbers. -/
theorem length_le_of_named {α : Type} [DecidableEq α] {f : Nat → Nat → Nat → Option α}
    {a b c : Nat} {xs : List α} (hnodup : xs.Nodup)
    (h : ∀ x ∈ xs, ∃ i j k, i < a ∧ j < b ∧ k < c ∧ f i j k = some x) :
    xs.length ≤ a * (b * c) := by
  let names : Finset (Nat × Nat × Nat) :=
    Finset.range a ×ˢ (Finset.range b ×ˢ Finset.range c)
  have hsubset : xs.toFinset.image some ⊆ names.image fun name => f name.1 name.2.1 name.2.2 := by
    intro found hfound
    obtain ⟨x, hx, rfl⟩ := Finset.mem_image.mp hfound
    obtain ⟨i, j, k, hi, hj, hk, hat⟩ := h x (List.mem_toFinset.mp hx)
    refine Finset.mem_image.mpr ⟨(i, j, k), ?_, hat⟩
    simp only [names, Finset.mem_product, Finset.mem_range]
    exact ⟨hi, hj, hk⟩
  calc xs.length = xs.toFinset.card := (toFinset_card_of_nodup hnodup).symm
    _ = (xs.toFinset.image some).card :=
      (Finset.card_image_of_injective _ (Option.some_injective _)).symm
    _ ≤ (names.image fun name => f name.1 name.2.1 name.2.2).card := Finset.card_le_card hsubset
    _ ≤ names.card := Finset.card_image_le
    _ = a * (b * c) := by simp only [names, Finset.card_product, Finset.card_range]

def rowAt (codec : Codec) (bytes : List UInt8) (offset size number : Nat) : Option Row :=
  match codec.fromSlice ((bytes.drop offset).take size) with
  | some (.leaf rows) => rows[number]?
  | _ => none

theorem Tree.Stored.rowAt {tree : Tree height} (h : tree.Stored codec bytes) :
    ∀ row ∈ tree.rows, ∃ offset size number, offset ≤ maxFileBytes ∧ size ≤ pageBytes ∧
      number < fanout ∧ Notice.rowAt codec bytes offset size number = some row := by
  induction height with
  | zero =>
    intro row hrow
    obtain ⟨number, hnumber, hget⟩ := getElem_of_mem hrow
    have htop : NodeStored codec bytes tree.page tree.node := h
    obtain ⟨before, after, hbytes, hoffset⟩ := htop.place
    have hcount : tree.rows.length ≤ fanout := by
      have hkeys := (Node.valid_iff.mp htop.valid).2.1
      have hsame : tree.node.keys.length = tree.rows.length := length_map _
      omega
    have hbounded := htop.bounded
    refine ⟨tree.page.offset, tree.page.bytes, number, by omega, htop.size ▸ htop.fits, by omega, ?_⟩
    have hslice : (bytes.drop tree.page.offset).take tree.page.bytes = tree.node.toVec := by
      rw [hbytes, hoffset, htop.size]
      simp
    unfold Notice.rowAt
    rw [hslice, codec.fromSlice_toVec]
    exact List.getElem?_eq_some_iff.mpr ⟨hnumber, hget⟩
  | succ height ih =>
    intro row hrow
    obtain ⟨subtree, hsubtree, hmem⟩ := List.mem_flatMap.mp hrow
    exact ih (h.2 subtree hsubtree) row hmem

theorem Tree.Stored.rows_le {tree : Tree height} (h : tree.Stored codec bytes)
    (hsorted : RowsSorted tree.rows) :
    tree.rows.length ≤ (maxFileBytes + 1) * ((pageBytes + 1) * fanout) := by
  refine length_le_of_named (f := Notice.rowAt codec bytes) ?_ fun row hrow => ?_
  · exact hsorted.imp fun hlt heq => by
      rw [heq] at hlt
      exact lt_irrefl _ hlt
  · obtain ⟨offset, size, number, hoffset, hsize, hnumber, hat⟩ := h.rowAt row hrow
    exact ⟨offset, size, number, Nat.lt_succ_of_le hoffset, Nat.lt_succ_of_le hsize, hnumber, hat⟩

/-- No reader meets the limit of its depth. -/
theorem Tree.Formed.height_lt {tree : Tree height} (h : tree.Formed true) (hrooted : tree.Rooted)
    (hstored : tree.Stored codec bytes) (hsorted : RowsSorted tree.rows) : height < maxDepth := by
  cases height with
  | zero => decide
  | succ height =>
    have hle := hstored.rows_le hsorted
    obtain ⟨first, next, rest, hsplit⟩ : ∃ first next rest, tree.subtrees = first :: next :: rest := by
      have hlength : 2 ≤ tree.subtrees.length := hrooted
      match hsubtrees : tree.subtrees with
      | [] => rw [hsubtrees] at hlength; simp at hlength
      | [_] => rw [hsubtrees] at hlength; simp at hlength
      | first :: next :: rest => exact ⟨first, next, rest, rfl⟩
    have hmem : first ∈ tree.subtrees := by simp [hsplit]
    have hfirst : first.Formed false := by
      have hedged := h.2
      rw [hsplit, edged_cons (cons_ne_nil _ _)] at hedged
      exact hedged.1
    have hge := hfirst.rows_ge (hstored.2 first hmem)
    have hsub : first.rows.length ≤ tree.rows.length := (rows_sublist hmem).length_le
    by_contra hdepth
    have hheight : 31 ≤ height := by
      unfold maxDepth at hdepth
      omega
    have hpow : halfFanout ^ 31 ≤ halfFanout ^ height := Nat.pow_le_pow_right (by decide) hheight
    have hsmall : (maxFileBytes + 1) * ((pageBytes + 1) * fanout) < halfFanout ^ 31 := by
      decide +kernel
    omega

end

end NilsCli.Notice
