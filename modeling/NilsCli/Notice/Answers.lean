import NilsCli.Notice.Levels

/-!
# The map that an index stands for

`Represents codec bytes root m`: the bytes hold a tree under the root whose rows are those of `m`.
-/

namespace NilsCli.Notice

open Lib SortedMap

variable {page : Page} {height : Nat}

structure Grown (codec : Codec) (bytes : List UInt8) (rows : List Row) (page : Page) {height : Nat}
    (tree : Tree height) : Prop where
  page : tree.page = page
  stored : tree.Stored codec bytes
  rows : tree.rows = rows
  formed : tree.Formed true
  rooted : tree.Rooted

structure Represents (codec : Codec) (bytes : List UInt8) (root : Option Page)
    (m : SortedMap String String) : Prop where
  plain : PlainRows m.rows
  empty : root = none → m.rows = []
  grown : ∀ page, root = some page → ∃ (height : Nat) (tree : Tree height),
    Grown codec bytes m.rows page tree

section
variable {codec : Codec} {base bytes bytes' : List UInt8} {root : Option Page}
  {m : SortedMap String String} {index : Index}

theorem Grown.height_lt {tree : Tree height}
    (h : Grown codec bytes m.rows page tree) : height < maxDepth :=
  h.formed.height_lt h.rooted h.stored (h.rows ▸ m.sorted)

theorem get_eq (h : Represents codec bytes index.root m) (hheld : index.Holds bytes)
    (key : String) : index.get codec key = .ok (m.find? key) := by
  unfold Index.get Index.rootChild
  cases hroot : index.root with
  | none =>
    have hnone : m.find? key = none := by
      rw [find?_eq_findRow, h.empty hroot]
      rfl
    rw [hnone]
    rfl
  | some page =>
    obtain ⟨height, tree, htree⟩ := h.grown page hroot
    have hget : index.getFrom codec key maxDepth ⟨"", page⟩ = .ok (findRow key tree.rows) :=
      getFrom_eq htree.stored (htree.rows ▸ m.sorted) hheld key htree.height_lt (Nat.le_refl _)
        htree.page.symm (.inl rfl)
    rw [htree.rows] at hget
    exact hget

theorem all_eq (h : Represents codec bytes index.root m) (hheld : index.Holds bytes) :
    index.all codec = .ok m := by
  unfold Index.all Index.rootChild
  cases hroot : index.root with
  | none =>
    have hempty : m = .empty := ext_rows (h.empty hroot)
    rw [hempty, Option.map_none]
    show index.allFrom codec [] .empty = .ok .empty
    rw [Index.allFrom]
  | some page =>
    obtain ⟨height, tree, htree⟩ := h.grown page hroot
    have hkeys : (tree.rows.map (·.1)).Nodup := htree.rows ▸ m.keys_nodup
    obtain ⟨entries, htaken, hrun⟩ : ∃ entries, Taken tree.rows .empty entries ∧ ∀ pending,
        index.allFrom codec ((⟨"", page⟩, 0) :: pending) .empty =
          index.allFrom codec pending entries :=
      allFrom_eq htree.stored hheld (by simpa using htree.height_lt) htree.page.symm (.inl rfl)
        hkeys fun _ _ => rfl
    have hentries : entries = m := by
      refine ext_find? fun key => Option.ext fun value => ?_
      rw [find?_eq_some_iff, find?_eq_some_iff, htaken, htree.rows]
      simp [SortedMap.empty]
    show index.allFrom codec [(⟨"", page⟩, 0)] .empty = .ok m
    rw [hrun, hentries, Index.allFrom]

/-! ## `build` -/

theorem buildLeaves_grows (entries rows : List Row) (count : Nat) {leaves : List Child}
    {trees : List (Tree 0)} (hleaves : leaves = trees.map Tree.child)
    (hstored : ∀ tree ∈ trees, tree.Stored codec bytes) :
    Grows base root bytes (buildLeaves codec entries rows count leaves) fun children bytes' =>
      ∃ trees' : List (Tree 0), Level codec bytes'
        (trees.flatMap Tree.rows ++ rows ++ entries) children trees' := by
  have hwrite : ∀ {bytes : List UInt8} {leaves : List Child} {trees : List (Tree 0)},
      leaves = trees.map Tree.child → (∀ tree ∈ trees, tree.Stored codec bytes) → ∀ rows,
      Grows base root bytes (write codec (.leaf rows)) fun child bytes' => ∃ tree : Tree 0,
        leaves ++ [child] = (trees ++ [tree]).map Tree.child ∧
          (∀ leaf : Tree 0, leaf ∈ trees ++ [tree] → leaf.Stored codec bytes') ∧
            tree.rows = rows := by
    intro bytes leaves trees hleaves hstored rows
    refine (write_grows _).weaken fun child bytes' hmore hchild => ?_
    obtain ⟨tree, htree⟩ : ∃ tree : Tree 0, tree = (child.page, rows) := ⟨_, rfl⟩
    have hpage : child.page = tree.page := by rw [htree]; rfl
    have hnode : tree.node = .leaf rows := by rw [htree]; rfl
    have htreeStored : tree.Stored codec bytes' := by
      show NodeStored codec bytes' tree.page tree.node
      rw [← hpage, hnode]
      exact hchild.1
    refine ⟨tree, ?_, List.forall_mem_append.mpr ⟨fun tree htree => (hstored tree htree).mono hmore,
      List.forall_mem_singleton.mpr htreeStored⟩, by rw [htree]; rfl⟩
    rw [List.map_append, ← hleaves, List.map_singleton,
      ← child_eq htreeStored hpage (by rw [hnode]; exact hchild.2)]
  have hlevel : ∀ {bytes : List UInt8} {children : List Child} {trees : List (Tree 0)} {all},
      children = trees.map Tree.child →
      (∀ leaf : Tree 0, leaf ∈ trees → leaf.Stored codec bytes) → trees.flatMap Tree.rows = all → Level codec bytes all children trees :=
    fun hchildren hstored hrows => {
      children := hchildren
      stored := hstored
      rows := hrows
      formed := formedLevel_of_forall fun _ _ => trivial
      rooted := fun _ _ => trivial }
  induction entries generalizing rows count leaves trees bytes with
  | nil =>
    rw [buildLeaves]
    split
    · rename_i hnil
      exact .ret ⟨trees, hlevel hleaves hstored (by simp [hnil])⟩
    · refine (hwrite hleaves hstored rows).bind fun child bytes₁ _ ⟨tree, hall, hboth, hrows⟩ => ?_
      exact .ret ⟨trees ++ [tree], hlevel hall hboth (by simp [hrows])⟩
  | cons row entries ih =>
    rw [buildLeaves]
    split
    · refine (hwrite hleaves hstored rows).bind fun child bytes₁ _ ⟨tree, hall, hboth, hrows⟩ => ?_
      have hrest := ih [row] ((utf8Bytes (rowJson row)).length + 1) hall hboth
      simpa [hrows] using hrest
    · have hrest := ih (rows ++ [row]) (count + (utf8Bytes (rowJson row)).length + 1) hleaves hstored
      simpa using hrest

def Reached (codec : Codec) (base bytes : List UInt8) (m : SortedMap String String)
    (index : Index) : Prop :=
  base <+: index.file ∧ ∃ bytes', bytes <+: bytes' ∧ index.Holds bytes' ∧
    Represents codec bytes' index.root m

theorem Reached.of_grown {tree : Tree height}
    (hbase : base <+: index.file) (hmore : bytes <+: bytes') (hheld : index.Holds bytes') (hplain : PlainRows m.rows)
    (h : Grown codec bytes' m.rows page tree) :
    Reached codec base bytes m { index with root := some page } :=
  ⟨hbase, bytes', hmore, ⟨hheld.held, hheld.committed⟩, {
    plain := hplain
    empty := fun hroot => by cases hroot
    grown := fun page' hpage => by
      cases hpage
      exact ⟨height, tree, h⟩ }⟩

theorem build_triple {entries : SortedMap String String} (hplain : PlainRows entries.rows) :
    (build codec entries).Triple (Index.At base root bytes) (fun _ => Reached codec base bytes entries)
      (fun _ => Index.At base root bytes)
      (fun index => index.At base root bytes ∨ Reached codec base bytes entries index) := by
  unfold build
  have hleaves : Grows base root bytes (buildLeaves codec entries.rows [] 0 [])
      fun children bytes' => ∃ trees : List (Tree 0), Level codec bytes'
        (([] : List (Tree 0)).flatMap Tree.rows ++ [] ++ entries.rows) children trees :=
    buildLeaves_grows _ _ _ rfl (by simp)
  refine hleaves.bind_triple (fun leaves bytes₁ hmore₁ ⟨trees, hlevel⟩ => ?_) (fun _ _ h => h)
    fun _ => .inl
  refine (raise_grows Nat.one_pos hlevel).bind_triple (fun leaves bytes₂ hmore₂ h => ?_)
    (fun _ _ h => h.mono hmore₁) fun _ h => .inl (h.mono hmore₁)
  obtain ⟨hfew, height, trees, hlevel⟩ := h
  refine .write fun index hindex => ?_
  have hreached : Reached codec base bytes entries
      { index with root := leaves.getLast?.map (·.page) } := by
    have hrows : trees.flatMap Tree.rows = entries.rows := hlevel.rows
    have hchildren := hlevel.children
    cases trees with
    | nil =>
      rw [hchildren]
      exact ⟨hindex.base, bytes₂, hmore₁.trans hmore₂, ⟨hindex.holds.held, hindex.holds.committed⟩, {
        plain := hplain
        empty := fun _ => hrows.symm
        grown := fun page hpage => by cases hpage }⟩
    | cons only rest =>
      have hnil : rest = [] := by
        rw [hchildren, List.length_map, List.length_cons] at hfew
        exact List.length_eq_zero_iff.mp (by omega)
      subst hnil
      rw [hchildren]
      exact Reached.of_grown hindex.base (hmore₁.trans hmore₂) hindex.holds hplain {
        page := rfl
        stored := hlevel.stored only (by simp)
        rows := by rw [← hrows, List.flatMap_singleton]
        formed := edged_singleton.mp hlevel.formed
        rooted := hlevel.rooted only rfl }
  exact ⟨.inr hreached, hreached⟩

theorem writeRoot_triple {trees : List (Tree height)} {children : List Child}
    (hplain : PlainRows m.rows) (h : Level codec bytes m.rows children trees) :
    (do
      let children ← raise codec fanout (by decide) children
      match children with
      | [child] => Durable.write fun index => { index with root := some child.page }
      | children => do
        let child ← write codec (.branch children)
        Durable.write fun index => { index with root := some child.page } : Call Unit).Triple
      (Index.At base root bytes) (fun _ => Reached codec base bytes m) (fun _ => Index.At base root bytes)
      (fun index => index.At base root bytes ∨ Reached codec base bytes m index) := by
  refine (raise_grows (by decide) h).bind_triple (fun children bytes₁ hmore₁ hraised => ?_)
    (fun _ _ h => h) fun _ => .inl
  obtain ⟨-, height, trees, hlevel⟩ := hraised
  have hchildren := hlevel.children
  split
  · rename_i child
    refine .write fun index hindex => ?_
    obtain ⟨only, honly⟩ : ∃ only, trees = [only] := by
      refine List.length_eq_one_iff.mp ?_
      rw [← List.length_map (f := Tree.child), ← hchildren]
      rfl
    subst honly
    cases hchildren
    have hreached : Reached codec base bytes m { index with root := some only.page } :=
      .of_grown hindex.base hmore₁ hindex.holds hplain {
      page := rfl
      stored := hlevel.stored only (by simp)
      rows := by rw [← hlevel.rows, List.flatMap_singleton]
      formed := edged_singleton.mp hlevel.formed
      rooted := hlevel.rooted only rfl }
    exact ⟨.inr hreached, hreached⟩
  · rename_i hnotOne
    refine (write_grows _).bind_triple (fun child bytes₂ hmore₂ hchild => ?_)
      (fun _ _ h => h.mono hmore₁) fun _ h => .inl (h.mono hmore₁)
    refine .write fun index hindex => ?_
    obtain ⟨tree, htree⟩ : ∃ tree : Tree (height + 1), tree = (child.page, trees) := ⟨_, rfl⟩
    have hpage : tree.page = child.page := by rw [htree]; rfl
    have hsubtrees : tree.subtrees = trees := by rw [htree]; rfl
    have hnode : tree.node = .branch children := by
      rw [hchildren, htree]
      rfl
    have hmany : 2 ≤ trees.length := by
      have hkeys := (Node.valid_iff.mp hchild.1.valid).1
      rcases htrees : trees with _ | ⟨first, _ | ⟨next, rest⟩⟩
      · exact absurd (by rw [hchildren, htrees]; rfl) hkeys
      · exact absurd (by rw [hchildren, htrees]; rfl) (hnotOne first.child)
      · simp
    have hgrown : Grown codec bytes₂ m.rows child.page tree := {
      page := hpage
      stored := by
        refine ⟨?_, fun subtree hsubtree => ?_⟩
        · rw [hpage, hnode]
          exact hchild.1
        · exact (hlevel.stored subtree (hsubtrees ▸ hsubtree)).mono hmore₂
      rows := by
        rw [← hlevel.rows, ← hsubtrees]
        rfl
      formed := ⟨.inl rfl, hsubtrees ▸ hlevel.formed⟩
      rooted := by
        show 2 ≤ tree.subtrees.length
        rw [hsubtrees]
        exact hmany }
    have hreached : Reached codec base bytes m { index with root := some child.page } :=
      .of_grown hindex.base (hmore₁.trans hmore₂) hindex.holds hplain hgrown
    exact ⟨.inr hreached, hreached⟩

theorem apply_triple {m additions : SortedMap String String} {merge : Merge}
    (h : Represents codec bytes root m) (hplain : PlainRows additions.rows) :
    (apply codec additions merge).Triple (Index.At base root bytes)
      (fun _ index => ∃ m', upsertAll (merged merge) additions.rows m = .ok m' ∧
        Reached codec base bytes m' index)
      (fun _ => Index.At base root bytes)
      (fun index => index.At base root bytes ∨ ∃ m',
        upsertAll (merged merge) additions.rows m = .ok m' ∧ Reached codec base bytes m' index) := by
  unfold apply
  split
  · rename_i hnil
    refine Durable.Triple.ret fun index hindex => ⟨m, by rw [hnil]; rfl, hindex.base, bytes, List.prefix_refl _,
      hindex.holds, hindex.root ▸ h⟩
  · refine Durable.Triple.each fun index hindex => .load_bind ?_
    have hroot := hindex.root
    unfold Index.rootChild
    cases hpage : index.root with
    | none =>
      have hempty : m = .empty := ext_rows (h.empty (hroot ▸ hpage))
      have hfresh : upsertAll (merged merge) additions.rows m = .ok additions := by
        rw [hempty, upsertAll_rows]
        exact upsertRows_fresh (fun _ _ => rfl)
          (show RowsSorted ([] ++ additions.rows) from additions.sorted)
      have hbuild : (build codec additions).Triple (Index.At base root bytes)
          (fun _ => Reached codec base bytes additions) (fun _ => Index.At base root bytes)
          (fun index => index.At base root bytes ∨ Reached codec base bytes additions index) :=
        build_triple hplain
      refine hbuild.weaken
        (fun _ heq => heq ▸ hindex) (fun _ _ hreached => ⟨additions, hfresh, hreached⟩)
        (fun _ _ h => h) fun _ h => h.imp_right fun hreached => ⟨additions, hfresh, hreached⟩
    | some page =>
      obtain ⟨height, tree, htree⟩ := h.grown page (hroot ▸ hpage)
      have happly : Applies codec merge base root height (applyPage codec merge maxDepth) :=
        applyPage_grows (Nat.le_refl _)
      have happlied := happly bytes tree true ⟨"", page⟩ additions.rows htree.stored htree.formed (htree.rows ▸ m.sorted) (htree.rows ▸ h.plain) additions.sorted
        hplain htree.page.symm (.inl rfl)
      have hstart : ∀ index', index' = index → index'.At base root bytes := fun _ heq => heq ▸ hindex
      refine Durable.Triple.weaken (P := Index.At base root bytes) ?_ hstart (fun _ _ h => h)
        (fun _ _ h => h) fun _ h => h
      refine happlied.bind_triple (fun children bytes₁ hmore₁ hwritten => ?_)
        (fun _ _ h => h) fun _ => .inl
      obtain ⟨trees, hupdated, hrooted⟩ := hwritten
      have hsorted := upsertRows_sorted (htree.rows ▸ m.sorted) hupdated.rows
      have hkeys := key_upsertRows (p := fun key => unescaped key = true) hplain
        (htree.rows ▸ h.plain) hupdated.rows
      have hupsert : upsertAll (merged merge) additions.rows m =
          .ok ⟨trees.flatMap Tree.rows, hsorted⟩ := by
        rw [upsertAll_rows, ← htree.rows]
        exact hupdated.rows
      have hlevel : Level codec bytes₁ (trees.flatMap Tree.rows) children trees := {
        children := hupdated.children
        stored := hupdated.stored
        rows := rfl
        formed := hupdated.formed
        rooted := hrooted htree.rooted }
      refine Durable.Triple.weaken (writeRoot_triple hkeys (m := ⟨_, hsorted⟩) hlevel)
        (fun _ h => h) (fun _ index hat => ?_) (fun _ _ h => h.mono hmore₁) fun index h => ?_
      · obtain ⟨hbase, bytes₂, hmore₂, hreached⟩ := hat
        exact ⟨_, hupsert, hbase, bytes₂, hmore₁.trans hmore₂, hreached⟩
      rcases h with h | ⟨hbase, bytes₂, hmore₂, hreached⟩
      · exact .inl (h.mono hmore₁)
      · exact .inr ⟨_, hupsert, hbase, bytes₂, hmore₁.trans hmore₂, hreached⟩

end

end NilsCli.Notice
