import NilsCli.Notice.Pages

/-!
# Stored trees

A tree of pages whose leaves are all at one depth (`Tree`), and the bytes that hold it
(`Tree.Stored`).
-/

namespace NilsCli.Notice

open Lib

def Tree : Nat → Type
  | 0 => Page × List Row
  | height + 1 => Page × List (Tree height)

namespace Tree

def page : {height : Nat} → Tree height → Page
  | 0, tree => Prod.fst tree
  | _ + 1, tree => Prod.fst tree

def subtrees {height : Nat} (tree : Tree (height + 1)) : List (Tree height) := Prod.snd tree

/-- The rows of all leaves. -/
def rows : {height : Nat} → Tree height → List Row
  | 0, tree => Prod.snd tree
  | _ + 1, tree => (subtrees tree).flatMap rows

/-- The last key. -/
def last {height : Nat} (tree : Tree height) : String := (tree.rows.getLast?.map (·.1)).getD ""

def child {height : Nat} (tree : Tree height) : Child := ⟨tree.last, tree.page⟩

def node : {height : Nat} → Tree height → Node
  | 0, tree => .leaf (Prod.snd tree)
  | _ + 1, tree => .branch ((subtrees tree).map child)

end Tree

/-- The bytes of a node are at its page. -/
structure NodeStored (codec : Codec) (bytes : List UInt8) (page : Page) (node : Node) : Prop where
  place : ∃ before after, bytes = before ++ node.toVec ++ after ∧ page.offset = before.length
  size : page.bytes = node.toVec.length
  hash : page.sha256 = codec.sha256 node.toVec
  valid : node.valid = true
  fits : node.toVec.length ≤ pageBytes
  bounded : page.offset + page.bytes ≤ maxFileBytes

/-- The bytes hold every page of the tree. -/
def Tree.Stored (codec : Codec) (bytes : List UInt8) : {height : Nat} → Tree height → Prop
  | 0, tree => NodeStored codec bytes tree.page tree.node
  | _ + 1, tree => NodeStored codec bytes tree.page tree.node ∧
      ∀ subtree ∈ subtrees tree, Stored codec bytes subtree

/-- The index has committed these bytes. -/
structure Index.Holds (index : Index) (bytes : List UInt8) : Prop where
  held : bytes <+: index.file
  committed : bytes.length ≤ index.committed

section
variable {codec : Codec} {bytes bytes' : List UInt8} {page : Page} {node : Node} {height : Nat}
  {tree : Tree height} {index : Index}

theorem NodeStored.mono (h : NodeStored codec bytes page node) (hmore : bytes <+: bytes') :
    NodeStored codec bytes' page node := by
  obtain ⟨more, rfl⟩ := hmore
  obtain ⟨before, after, rfl, hoffset⟩ := h.place
  exact { h with place := ⟨before, after ++ more, by simp, hoffset⟩ }

theorem Tree.Stored.top (h : tree.Stored codec bytes) :
    NodeStored codec bytes tree.page tree.node := by
  cases height with
  | zero => exact h
  | succ height => exact h.1

theorem Tree.Stored.mono (h : tree.Stored codec bytes) (hmore : bytes <+: bytes') :
    tree.Stored codec bytes' := by
  induction height with
  | zero => exact NodeStored.mono h hmore
  | succ height ih =>
    exact ⟨h.1.mono hmore, fun subtree hsubtree => ih (h.2 subtree hsubtree)⟩

theorem Node.valid_iff {node : Node} : node.valid = true ↔
    node.keys ≠ [] ∧ node.keys.length ≤ fanout ∧ (∀ key ∈ node.keys, Node.keyValid key = true) ∧
      node.keys.Pairwise (· < ·) := by
  unfold Node.valid
  simp only [Bool.and_eq_true, decide_eq_true_eq, List.all_eq_true, List.isChain_iff_pairwise,
    and_assoc]

theorem Tree.Stored.last (h : tree.Stored codec bytes) :
    tree.rows ≠ [] ∧ tree.node.last = some tree.last ∧ tree.last ≠ "" := by
  suffices hrows : tree.rows ≠ [] ∧ tree.node.last = some tree.last by
    refine ⟨hrows.1, hrows.2, fun hempty => ?_⟩
    have hkey := (Node.valid_iff.mp h.top.valid).2.2.1 _ (List.mem_of_getLast? hrows.2)
    rw [hempty] at hkey
    exact absurd hkey (by decide)
  induction height with
  | zero =>
    have hkeys := (Node.valid_iff.mp h.top.valid).1
    have hrows : tree.rows ≠ [] := by
      intro hnil
      exact hkeys (congrArg (List.map fun row : Row => row.1) hnil)
    refine ⟨hrows, ?_⟩
    show ((tree.rows).map (·.1)).getLast? = some tree.last
    rw [List.getLast?_map, Tree.last, List.getLast?_eq_some_getLast hrows]
    rfl
  | succ height ih =>
    have hkeys := (Node.valid_iff.mp h.top.valid).1
    have hsubtrees : tree.subtrees ≠ [] := by
      intro hnil
      refine hkeys ?_
      show ((tree.subtrees.map Tree.child).map (·.last)) = []
      rw [hnil]
      rfl
    obtain ⟨front, subtree, hsplit⟩ : ∃ front subtree, tree.subtrees = front ++ [subtree] :=
      ⟨_, _, (List.dropLast_append_getLast hsubtrees).symm⟩
    have hsubtree : subtree ∈ tree.subtrees := by simp [hsplit]
    obtain ⟨hrows, -⟩ := ih (h.2 subtree hsubtree)
    have hall : tree.rows = front.flatMap Tree.rows ++ subtree.rows := by
      show tree.subtrees.flatMap Tree.rows = _
      simp [hsplit]
    have hlast : tree.last = subtree.last := by
      rw [Tree.last, hall, List.getLast?_append_of_ne_nil _ hrows]
      rfl
    refine ⟨by simp [hall, hrows], ?_⟩
    show ((tree.subtrees.map Tree.child).map (·.last)).getLast? = some tree.last
    rw [hsplit, hlast]
    simp [Tree.child]

/-- A page is read back from the bytes that hold it. -/
theorem NodeStored.read (h : NodeStored codec bytes page node) (hheld : index.Holds bytes)
    {child : Child} {depth : Nat} (hdepth : depth < maxDepth) (hpage : child.page = page)
    (hlast : child.last = "" ∨ node.last = some child.last) :
    index.read codec child depth = .ok node := by
  obtain ⟨more, hfile⟩ := hheld.held
  obtain ⟨before, after, rfl, hoffset⟩ := h.place
  have hbytes : (index.file.drop page.offset).take page.bytes = node.toVec := by
    rw [← hfile, hoffset, h.size]
    simp
  have hpos : node.toVec.length ≠ 0 := by
    have htwo : 2 ≤ utf8Size node.json := by
      cases node <;> simp only [Node.json, utf8Size_jsonObject] <;> omega
    rw [Node.toVec, length_utf8Bytes]
    omega
  have hcommitted := hheld.committed
  simp only [List.length_append] at hcommitted
  have hbounded := h.bounded
  unfold maxFileBytes at hbounded
  unfold Index.read
  simp only [ensure_bind_ok, orErr_bind_ok, hpage, hbytes]
  have hsize := h.size
  have hfits := h.fits
  refine ⟨⟨hdepth, by omega, by omega, by omega, by omega, ?_⟩, hsize.symm, h.hash.symm, node,
    codec.fromSlice_toVec node, ⟨h.valid, hlast⟩, rfl⟩
  rw [h.hash]
  exact codec.hashValid_sha256 _

theorem Tree.Stored.read (h : tree.Stored codec bytes) (hheld : index.Holds bytes) {child : Child}
    {depth : Nat} (hdepth : depth < maxDepth) (hpage : child.page = tree.page)
    (hlast : child.last = "" ∨ child.last = tree.last) :
    index.read codec child depth = .ok tree.node := by
  refine h.top.read hheld hdepth hpage (hlast.imp_right fun heq => ?_)
  rw [h.last.2.1, heq]

theorem Tree.Stored.le_last (h : tree.Stored codec bytes) (hsorted : RowsSorted tree.rows) :
    ∀ row ∈ tree.rows, row.1 ≤ tree.last := by
  obtain ⟨hrows, -⟩ := h.last
  have hsplit := List.dropLast_append_getLast hrows
  have hlast : tree.last = (tree.rows.getLast hrows).1 := by
    rw [Tree.last, List.getLast?_eq_some_getLast hrows]
    rfl
  intro row hrow
  rw [← hsplit, List.mem_append, List.mem_singleton] at hrow
  rw [RowsSorted, ← hsplit, List.pairwise_append] at hsorted
  rcases hrow with hrow | rfl
  · exact (hlast ▸ hsorted.2.2 row hrow _ (by simp)).le
  · exact hlast.ge

theorem Tree.Stored.last_mem (h : tree.Stored codec bytes) :
    ∃ row ∈ tree.rows, row.1 = tree.last := by
  obtain ⟨hrows, -⟩ := h.last
  refine ⟨tree.rows.getLast hrows, List.getLast_mem hrows, ?_⟩
  rw [Tree.last, List.getLast?_eq_some_getLast hrows]
  rfl

theorem rows_sublist {subtrees : List (Tree height)} {subtree : Tree height}
    (h : subtree ∈ subtrees) : subtree.rows.Sublist (subtrees.flatMap Tree.rows) := by
  rw [List.flatMap_def]
  exact List.sublist_flatten_of_mem (List.mem_map_of_mem h)

theorem findRow_subtrees (key : String) {subtrees : List (Tree height)}
    (hstored : ∀ subtree ∈ subtrees, subtree.Stored codec bytes)
    (hsorted : RowsSorted (subtrees.flatMap Tree.rows)) :
    findRow key (subtrees.flatMap Tree.rows) =
      (subtrees.find? (key ≤ ·.last)).bind fun subtree => findRow key subtree.rows := by
  induction subtrees with
  | nil => rfl
  | cons subtree subtrees ih =>
    obtain ⟨hfirst, hrest⟩ := List.forall_mem_cons.mp hstored
    rw [List.flatMap_cons] at hsorted ⊢
    obtain ⟨hrows, hsorted, hbetween⟩ := List.pairwise_append.mp hsorted
    by_cases hle : key ≤ subtree.last
    · rw [List.find?_cons_of_pos (by simpa using hle)]
      obtain ⟨row, hrow, hlast⟩ := hfirst.last_mem
      exact findRow_append_left fun row' hrow' =>
        hle.trans_lt (hlast ▸ hbetween row hrow row' hrow')
    · rw [List.find?_cons_of_neg (by simpa using hle), ← ih hrest hsorted]
      exact findRow_append_right fun row hrow =>
        (hfirst.le_last hrows row hrow).trans_lt (not_le.mp hle)

theorem getFrom_eq (h : tree.Stored codec bytes) (hsorted : RowsSorted tree.rows)
    (hheld : index.Holds bytes) (key : String) {remaining : Nat} (hheight : height < remaining)
    (hremaining : remaining ≤ maxDepth) {child : Child} (hpage : child.page = tree.page)
    (hlast : child.last = "" ∨ child.last = tree.last) :
    index.getFrom codec key remaining child = .ok (findRow key tree.rows) := by
  induction height generalizing remaining child with
  | zero =>
    cases remaining with
    | zero => omega
    | succ remaining =>
      have hread : index.read codec child (maxDepth - (remaining + 1)) = .ok tree.node :=
        h.read hheld (by omega) hpage hlast
      rw [Index.getFrom, hread]
      rfl
  | succ height ih =>
    cases remaining with
    | zero => omega
    | succ remaining =>
      have hread : index.read codec child (maxDepth - (remaining + 1)) = .ok tree.node :=
        h.read hheld (by omega) hpage hlast
      have hfind := findRow_subtrees key h.2 hsorted
      rw [Index.getFrom, hread, ok_bind]
      have hnode : tree.node = .branch (tree.subtrees.map Tree.child) := rfl
      simp only [hnode, List.find?_map]
      show _ = Except.ok (findRow key (tree.subtrees.flatMap Tree.rows))
      rw [hfind]
      cases hnext : tree.subtrees.find? (key ≤ ·.last) with
      | none =>
        have hnone : tree.subtrees.find? ((fun child : Child => decide (key ≤ child.last)) ∘
            Tree.child) = none := hnext
        rw [hnone]
        rfl
      | some subtree =>
        have hsome : tree.subtrees.find? ((fun child : Child => decide (key ≤ child.last)) ∘
            Tree.child) = some subtree := hnext
        have hmem : subtree ∈ tree.subtrees := List.mem_of_find?_eq_some hnext
        have hrows : RowsSorted subtree.rows := hsorted.sublist (rows_sublist hmem)
        rw [hsome]
        exact ih (h.2 subtree hmem) hrows (by omega) (by omega) rfl (.inr rfl)

/-! ## `all` -/

theorem insertNew_eq {rows : List Row} {entries : SortedMap String String}
    (hkeys : (rows.map (·.1)).Nodup) (hnew : ∀ row ∈ rows, entries.find? row.1 = none) :
    ∃ entries', Index.insertNew rows entries = .ok entries' ∧
      ∀ row, row ∈ entries'.rows ↔ row ∈ rows ∨ row ∈ entries.rows := by
  induction rows generalizing entries with
  | nil => exact ⟨entries, rfl, by simp⟩
  | cons row rows ih =>
    obtain ⟨hrow, hrest⟩ := List.forall_mem_cons.mp hnew
    rw [List.map_cons, List.nodup_cons] at hkeys
    have hnone : ∀ row' ∈ rows, (entries.insert row.1 row.2).find? row'.1 = none := by
      intro row' hrow'
      have hne : row'.1 ≠ row.1 := fun heq => hkeys.1 (heq ▸ List.mem_map_of_mem (f := (·.1)) hrow')
      rw [SortedMap.find?_insert_of_ne _ _ hne]
      exact hrest row' hrow'
    obtain ⟨entries', hinsert, hmem⟩ := ih hkeys.2 hnone
    refine ⟨entries', ?_, fun row' => ?_⟩
    · rw [Index.insertNew, hrow]
      exact hinsert
    · rw [hmem, List.mem_cons]
      have hinserted : row' ∈ (entries.insert row.1 row.2).rows ↔
          row' = row ∨ row' ∈ entries.rows := by
        refine (SortedMap.mem_insertRow entries.sorted).trans ?_
        refine or_congr_right ⟨And.left, fun h => ⟨h, fun heq => ?_⟩⟩
        have hfound := SortedMap.find?_eq_some_iff.mpr (show (row'.1, row'.2) ∈ entries.rows from h)
        rw [heq, hrow] at hfound
        cases hfound
      rw [hinserted]
      tauto

/-- The rows of new trees have been read. -/
def Taken (rows : List Row) (entries entries' : SortedMap String String) : Prop :=
  ∀ row, row ∈ entries'.rows ↔ row ∈ rows ∨ row ∈ entries.rows

theorem Taken.find_eq_none {rows : List Row} {entries entries' : SortedMap String String}
    (h : Taken rows entries entries') {key : String} (hrows : ∀ row ∈ rows, row.1 ≠ key)
    (hnone : entries.find? key = none) : entries'.find? key = none := by
  cases hfind : entries'.find? key with
  | none => rfl
  | some value =>
    rcases (h _).mp (SortedMap.find?_eq_some_iff.mp hfind) with hmem | hmem
    · exact absurd rfl (hrows _ hmem)
    · rw [SortedMap.find?_eq_some_iff.mpr hmem] at hnone
      cases hnone

theorem allFrom_trees (depth : Nat) (hone : ∀ (tree : Tree height)
      (entries : SortedMap String String), tree.Stored codec bytes → (tree.rows.map (·.1)).Nodup →
      (∀ row ∈ tree.rows, entries.find? row.1 = none) → ∃ entries',
        Taken tree.rows entries entries' ∧ ∀ pending,
          index.allFrom codec ((tree.child, depth) :: pending) entries =
            index.allFrom codec pending entries')
    (subtrees : List (Tree height)) (entries : SortedMap String String)
    (hstored : ∀ subtree ∈ subtrees, subtree.Stored codec bytes)
    (hkeys : ((subtrees.flatMap Tree.rows).map (·.1)).Nodup)
    (hnew : ∀ row ∈ subtrees.flatMap Tree.rows, entries.find? row.1 = none) :
    ∃ entries', Taken (subtrees.flatMap Tree.rows) entries entries' ∧ ∀ pending,
      index.allFrom codec ((subtrees.map fun subtree => (subtree.child, depth)) ++ pending) entries =
        index.allFrom codec pending entries' := by
  induction subtrees generalizing entries with
  | nil => exact ⟨entries, by simp [Taken], fun _ => rfl⟩
  | cons subtree subtrees ih =>
    obtain ⟨hfirst, hrest⟩ := List.forall_mem_cons.mp hstored
    simp only [List.flatMap_cons, List.map_append, List.nodup_append] at hkeys
    simp only [List.flatMap_cons, List.forall_mem_append] at hnew
    obtain ⟨entries₁, htaken₁, hrun₁⟩ := hone subtree entries hfirst hkeys.1 hnew.1
    obtain ⟨entries₂, htaken₂, hrun₂⟩ := ih entries₁ hrest hkeys.2.1 fun row hrow =>
      htaken₁.find_eq_none (fun row' hrow' => hkeys.2.2 _ (List.mem_map_of_mem hrow') _
        (List.mem_map_of_mem hrow)) (hnew.2 row hrow)
    refine ⟨entries₂, fun row => ?_, fun pending => ?_⟩
    · rw [htaken₂ row, htaken₁ row, List.flatMap_cons, List.mem_append]
      tauto
    · rw [List.map_cons, List.cons_append, hrun₁, hrun₂]

theorem allFrom_eq (h : tree.Stored codec bytes) (hheld : index.Holds bytes) {depth : Nat}
    (hdepth : depth + height < maxDepth) {child : Child} (hpage : child.page = tree.page)
    (hlast : child.last = "" ∨ child.last = tree.last) {entries : SortedMap String String}
    (hkeys : (tree.rows.map (·.1)).Nodup) (hnew : ∀ row ∈ tree.rows, entries.find? row.1 = none) :
    ∃ entries', Taken tree.rows entries entries' ∧ ∀ pending,
      index.allFrom codec ((child, depth) :: pending) entries =
        index.allFrom codec pending entries' := by
  induction height generalizing depth child entries with
  | zero =>
    have hread : index.read codec child depth = .ok tree.node := h.read hheld (by omega) hpage hlast
    obtain ⟨entries', hinsert, hmem⟩ := insertNew_eq hkeys hnew
    refine ⟨entries', hmem, fun pending => ?_⟩
    rw [Index.allFrom]
    split
    · rename_i e herror
      rw [hread] at herror
      cases herror
    · rename_i rows hok
      rw [hread] at hok
      cases hok
      have hinsert' : Index.insertNew (Prod.snd tree) entries = .ok entries' := hinsert
      rw [hinsert']
    · rename_i children hok
      rw [hread] at hok
      cases hok
  | succ height ih =>
    have hread : index.read codec child depth = .ok tree.node := h.read hheld (by omega) hpage hlast
    have hperm : (tree.subtrees.reverse.flatMap Tree.rows).Perm tree.rows :=
      (List.reverse_perm _).flatMap_right Tree.rows
    obtain ⟨entries', htaken, hrun⟩ := allFrom_trees (depth + 1)
      (fun subtree entries hstored hkeys hnew => ih hstored (by omega) rfl (.inr rfl) hkeys hnew)
      tree.subtrees.reverse entries (fun subtree hsubtree => h.2 subtree (by simpa using hsubtree))
      ((hperm.map _).nodup_iff.mpr hkeys) fun row hrow => hnew row (hperm.mem_iff.mp hrow)
    refine ⟨entries', fun row => (htaken row).trans (or_congr_left hperm.mem_iff), fun pending => ?_⟩
    rw [Index.allFrom]
    split
    · rename_i e herror
      rw [hread] at herror
      cases herror
    · rename_i rows hok
      rw [hread] at hok
      cases hok
    · rename_i children hok
      rw [hread] at hok
      cases hok
      rw [← hrun, List.map_map, ← List.map_reverse]
      rfl

end

end NilsCli.Notice

/-!
## Written pages

`Grows base root bytes m Q`: whatever index still has this root and has committed these bytes, `m` keeps
both wherever it stops, and where it succeeds it has committed more bytes, for which `Q` holds. The
rules take a call apart at its binds. A node that is written is held by the bytes then
(`write_grows`), and so are the pieces of a node that is split (`splitWrite_grows`).
-/

namespace NilsCli.Notice

open Lib

structure Index.At (base : List UInt8) (root : Option Page) (bytes : List UInt8) (index : Index) :
    Prop where
  base : base <+: index.file
  root : index.root = root
  holds : index.Holds bytes

theorem Index.At.mono {base : List UInt8} {root : Option Page} {bytes bytes' : List UInt8} {index : Index}
    (h : index.At base root bytes') (hmore : bytes <+: bytes') : index.At base root bytes where
  base := h.base
  root := h.root
  holds := ⟨hmore.trans h.holds.held, hmore.length_le.trans h.holds.committed⟩

def Grows {α : Type} (base : List UInt8) (root : Option Page) (bytes : List UInt8) (m : Call α)
    (Q : α → List UInt8 → Prop) : Prop :=
  m.Triple (Index.At base root bytes)
    (fun a index => ∃ bytes', bytes <+: bytes' ∧ index.At base root bytes' ∧ Q a bytes')
    (fun _ index => index.At base root bytes) (Index.At base root bytes)

namespace Grows

variable {α β : Type} {root : Option Page} {base bytes : List UInt8} {m : Call α}
  {Q : α → List UInt8 → Prop} {R : β → List UInt8 → Prop}

theorem ret {a : α} (h : Q a bytes) : Grows base root bytes (pure a) Q :=
  Durable.Triple.ret fun _ hindex => ⟨bytes, List.prefix_refl _, hindex, h⟩

theorem fail {e : PageError} : Grows base root bytes (.lift (.error e) : Call α) Q :=
  Durable.Triple.lift fun _ hindex => hindex

theorem lift_bind {r : Except PageError β} {f : β → Call α}
    (h : ∀ b, r = .ok b → Grows base root bytes (f b) Q) : Grows base root bytes (Durable.lift r >>= f) Q :=
  Durable.Triple.lift_bind (fun _ _ hindex => hindex) h

theorem load_bind {f : Index → Call α}
    (h : ∀ index, index.At base root bytes → Grows base root bytes (f index) Q) :
    Grows base root bytes (Durable.load >>= f) Q := by
  refine Durable.Triple.each fun index hindex => .load_bind ?_
  exact (h index hindex).weaken (fun _ heq => heq ▸ hindex) (fun _ _ h => h) (fun _ _ h => h)
    fun _ h => h

theorem bind_triple {f : β → Call α} {m : Call β} {Q : α → Index → Prop}
    {E : PageError → Index → Prop} {C : Index → Prop} (hm : Grows base root bytes m R)
    (hf : ∀ b bytes', bytes <+: bytes' → R b bytes' → (f b).Triple (Index.At base root bytes') Q E C)
    (hE : ∀ e index, index.At base root bytes → E e index)
    (hC : ∀ index, index.At base root bytes → C index) :
    (m >>= f).Triple (Index.At base root bytes) Q E C := by
  refine Durable.Triple.bind (hm.weaken (fun _ h => h) (fun _ _ h => h) hE hC) fun b =>
    .each fun index => ?_
  rintro ⟨bytes', hmore, hindex, hb⟩
  exact (hf b bytes' hmore hb).weaken (fun _ heq => heq ▸ hindex) (fun _ _ h => h) (fun _ _ h => h)
    fun _ h => h

theorem bind {f : β → Call α} {m : Call β} (hm : Grows base root bytes m R)
    (hf : ∀ b bytes', bytes <+: bytes' → R b bytes' → Grows base root bytes' (f b) Q) :
    Grows base root bytes (m >>= f) Q := by
  refine hm.bind_triple (fun b bytes' hmore hb => (hf b bytes' hmore hb).weaken (fun _ h => h) ?_
    (fun _ _ h => h.mono hmore) fun _ h => h.mono hmore) (fun _ _ h => h) fun _ h => h
  rintro a index' ⟨bytes'', hmore', hindex', ha⟩
  exact ⟨bytes'', hmore.trans hmore', hindex', ha⟩

theorem weaken {Q' : α → List UInt8 → Prop} (h : Grows base root bytes m Q)
    (hQ : ∀ a bytes', bytes <+: bytes' → Q a bytes' → Q' a bytes') : Grows base root bytes m Q' := by
  refine Durable.Triple.weaken h (fun _ h => h) ?_ (fun _ _ h => h) fun _ h => h
  rintro a index ⟨bytes', hmore, hindex, ha⟩
  exact ⟨bytes', hmore, hindex, hQ a bytes' hmore ha⟩

end Grows

section
variable {codec : Codec} {root : Option Page} {base bytes : List UInt8}

theorem writeAll_triple (written : List UInt8) (file : List UInt8) :
    (writeAll written).Triple (fun index => index.At base root bytes ∧ index.file = file)
      (fun _ index => index.At base root bytes ∧ index.file = file ++ written)
      (fun _ index => index.At base root bytes) (Index.At base root bytes) := by
  induction written generalizing file with
  | nil => exact .ret fun _ h => by simpa using h
  | cons byte written ih =>
    refine .bind (R := fun _ index => index.At base root bytes ∧ index.file = file ++ [byte])
      (.write fun index h => ?_) fun _ => ?_
    · have hat : Index.At base root bytes { index with file := index.file ++ [byte] } :=
        ⟨h.1.base.trans (List.prefix_append _ _), h.1.root,
          h.1.holds.held.trans (List.prefix_append _ _), h.1.holds.committed⟩
      exact ⟨hat, hat, by rw [h.2]⟩
    · have hrest := ih (file ++ [byte])
      rwa [List.append_assoc] at hrest

theorem write_grows (node : Node) : Grows base root bytes (write codec node) fun child bytes' =>
    NodeStored codec bytes' child.page node ∧ node.last = some child.last := by
  unfold write
  refine .lift_bind fun last hlast => ?_
  dsimp only
  refine .lift_bind fun _ hchecks => ?_
  rw [orErr_eq_ok] at hlast
  rw [ensure_eq_ok] at hchecks
  refine Durable.Triple.each fun index hindex => .load_bind ?_
  refine .lift_bind (fun _ _ heq => heq ▸ hindex) fun _ hbounded => ?_
  rw [ensure_eq_ok] at hbounded
  have hall : (writeAll node.toVec).Triple
      (fun index' => index'.At base root bytes ∧ index'.file = index.file)
      (fun _ index' => index'.At base root bytes ∧ index'.file = index.file ++ node.toVec)
      (fun _ index' => index'.At base root bytes) (Index.At base root bytes) := writeAll_triple _ _
  have hstart : ∀ index', index' = index → Index.At base root bytes index' ∧ index'.file = index.file := by
    rintro _ rfl
    exact ⟨hindex, rfl⟩
  refine .bind (hall.weaken hstart (fun _ _ h => h) (fun _ _ h => h) fun _ h => h) fun _ => ?_
  refine .bind (R := fun _ index' => index'.At base root (index.file ++ node.toVec))
    (.write fun index' h => ?_) fun _ => .ret fun index' h => ?_
  · have hlength : bytes.length ≤ index.file.length := hindex.holds.held.length_le
    refine ⟨⟨h.1.base, h.1.root, h.1.holds.held, hlength.trans (Nat.le_add_right _ _)⟩, h.1.base,
      h.1.root, ?_, ?_⟩
    · show index.file ++ node.toVec <+: index'.file
      exact h.2 ▸ List.prefix_refl _
    · exact List.length_append.le
  · refine ⟨index.file ++ node.toVec, hindex.holds.held.trans (List.prefix_append _ _), h, ?_,
      hlast⟩
    exact {
      place := ⟨index.file, [], by simp, rfl⟩
      size := rfl
      hash := rfl
      valid := hchecks.2
      fits := hchecks.1
      bounded := hbounded }

end

end NilsCli.Notice
