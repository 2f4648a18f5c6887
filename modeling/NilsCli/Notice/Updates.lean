import Mathlib.Data.List.TakeWhile
import NilsCli.Notice.Shapes

/-!
# Updated trees

What the calls that change the tree write. The pieces of a node that is split hold its items in
order (`splitWrite_grows`).
-/

namespace NilsCli.Notice

open Lib SortedMap List

variable {children' : List Child} {applyChild : Child → List Row → Call (List Child)}

variable {ι : Type} {children : List Child} {batch rows : List Row}

/-! ## Splitting -/

/-- Nodes that are made of a list of items. -/
structure Packs {ι : Type} (nodeOf : List ι → Node) : Prop where
  length : ∀ items, (nodeOf items).keys.length = items.length
  halves : ∀ items, (nodeOf items).halves =
    if 1 < items.length then
      some (nodeOf (items.take (items.length / 2)), nodeOf (items.drop (items.length / 2)))
    else none

theorem packs_leaf : Packs Node.leaf where
  length _ := length_map _
  halves _ := rfl

theorem packs_branch {height : Nat} :
    Packs fun subtrees : List (Tree height) => Node.branch (subtrees.map Tree.child) where
  length subtrees := by simp [Node.keys]
  halves subtrees := by simp [Node.halves, map_take, map_drop]

/-- Few items make a node that fits in a page. -/
def Fitting {ι : Type} (nodeOf : List ι → Node) (items : List ι) : Prop :=
  ∀ part, part.Sublist items → part ≠ [] → part.length ≤ fanout →
    (nodeOf part).valid = true ∧ (nodeOf part).toVec.length ≤ pageBytes

/-- The pages that hold the items, in order. -/
structure Parts {ι : Type} (codec : Codec) (bytes : List UInt8) (nodeOf : List ι → Node)
    (items : List ι) (children : List Child) (parts : List (Page × List ι)) : Prop where
  flat : parts.flatMap (·.2) = items
  ne_nil : parts ≠ []
  stored : ∀ part ∈ parts, NodeStored codec bytes part.1 (nodeOf part.2)
  children : List.Forall₂ (fun part child => child.page = part.1 ∧
    (nodeOf part.2).last = some child.last) parts children
  large : Fitting nodeOf items → parts.length = 1 ∨ ∀ part ∈ parts, halfFanout ≤ part.2.length

section
variable {codec : Codec} {root : Option Page} {base bytes bytes' : List UInt8}

theorem Parts.append {nodeOf : List ι → Node} {items items' : List ι}
    {parts parts' : List (Page × List ι)} (h : Parts codec bytes nodeOf items children parts)
    (h' : Parts codec bytes nodeOf items' children' parts')
    (hlarge : Fitting nodeOf (items ++ items') →
      halfFanout ≤ items.length ∧ halfFanout ≤ items'.length) :
    Parts codec bytes nodeOf (items ++ items') (children ++ children') (parts ++ parts') where
  flat := by rw [flatMap_append, h.flat, h'.flat]
  ne_nil := by simp [h.ne_nil]
  stored part hpart := (List.mem_append.mp hpart).elim (h.stored part) (h'.stored part)
  children := rel_append h.children h'.children
  large hfit := by
    have hside : ∀ {items children parts}, Parts codec bytes nodeOf items children parts →
        Fitting nodeOf items → halfFanout ≤ items.length →
        ∀ part ∈ parts, halfFanout ≤ part.2.length := by
      intro items children parts h hfit hmany part hpart
      rcases h.large hfit with hone | hall
      · obtain ⟨only, rfl⟩ := List.length_eq_one_iff.mp hone
        obtain rfl := List.mem_singleton.mp hpart
        have hitems := h.flat
        rw [flatMap_singleton] at hitems
        rwa [hitems]
      · exact hall part hpart
    obtain ⟨hfirst, hsecond⟩ := hlarge hfit
    refine .inr fun part hpart => ?_
    rcases List.mem_append.mp hpart with hpart | hpart
    · exact hside h (fun part hsub => hfit part (hsub.trans (sublist_append_left _ _))) hfirst
        part hpart
    · exact hside h' (fun part hsub => hfit part (hsub.trans (sublist_append_right _ _)))
        hsecond part hpart

theorem Parts.mono {nodeOf : List ι → Node} {items : List ι}
    {parts : List (Page × List ι)} (h : Parts codec bytes nodeOf items children parts)
    (hmore : bytes <+: bytes') : Parts codec bytes' nodeOf items children parts :=
  { h with stored := fun part hpart => (h.stored part hpart).mono hmore }

/-- A node that is too large is written in pieces. -/
theorem splitWrite_grows {nodeOf : List ι → Node} (hpacks : Packs nodeOf)
    (items : List ι) : Grows base root bytes (splitWrite codec (nodeOf items)) fun children bytes' =>
      ∃ parts, Parts codec bytes' nodeOf items children parts := by
  induction hn : items.length using Nat.strongRecOn generalizing items bytes with
  | ind n ih =>
    rw [splitWrite]
    split
    · refine (write_grows _).bind fun child bytes' _ hchild => .ret ⟨[(child.page, items)], ?_⟩
      exact {
        flat := by simp
        ne_nil := cons_ne_nil _ _
        stored := by simpa using hchild.1
        children := .cons ⟨rfl, hchild.2⟩ .nil
        large := fun _ => .inl rfl }
    · rename_i hlarge
      split
      · exact .fail
      · rename_i left right hhalves
        rw [hpacks.halves] at hhalves
        simp only [Option.ite_none_right_eq_some, Option.some.injEq, Prod.mk.injEq] at hhalves
        obtain ⟨hlength, rfl, rfl⟩ := hhalves
        refine (ih _ (by simp only [length_take]; omega) _ rfl).bind
          fun first bytes₁ hmore₁ hfirst => ?_
        obtain ⟨parts, hparts⟩ := hfirst
        refine (ih _ (by simp only [length_drop]; omega) _ rfl).bind
          fun second bytes₂ hmore₂ hsecond => ?_
        obtain ⟨parts', hparts'⟩ := hsecond
        refine .ret ⟨parts ++ parts', ?_⟩
        have happend := (hparts.mono hmore₂).append hparts' (by
          rw [take_append_drop]
          intro hfit
          have hmany : fanout < items.length := by
            by_contra hfew
            exact hlarge (hfit items (.refl _) (by rintro rfl; simp at hlength) (by omega))
          simp only [length_take, length_drop]
          unfold halfFanout
          unfold fanout at hmany ⊢
          omega)
        rwa [take_append_drop] at happend

/-- A child that names the page and the last key of a tree. -/
theorem child_eq {height : Nat} {tree : Tree height} {child : Child}
    (hstored : tree.Stored codec bytes) (hpage : child.page = tree.page)
    (hlast : tree.node.last = some child.last) : child = tree.child := by
  obtain ⟨last, page⟩ := child
  subst hpage
  rw [hstored.last.2.1] at hlast
  cases hlast
  rfl

theorem children_eq {height : Nat} {trees : List (Tree height)}
    (hstored : ∀ tree ∈ trees, tree.Stored codec bytes)
    (h : Forall₂ (fun tree child => child.page = tree.page ∧
      tree.node.last = some child.last) trees children) :
    children = trees.map Tree.child := by
  induction h with
  | nil => rfl
  | cons hchild _ ih =>
    obtain ⟨hfirst, hrest⟩ := List.forall_mem_cons.mp hstored
    rw [map_cons, ← ih hrest, ← child_eq hfirst hchild.1 hchild.2]

/-! ## `apply_page` -/

/-- JSON escapes no key. -/
def PlainRows (rows : List Row) : Prop := ∀ row ∈ rows, unescaped row.1 = true

theorem fitting_branch {height : Nat} {subtrees : List (Tree height)}
    (hstored : ∀ subtree ∈ subtrees, subtree.Stored codec bytes)
    (hsorted : RowsSorted (subtrees.flatMap Tree.rows))
    (hplain : PlainRows (subtrees.flatMap Tree.rows)) :
    Fitting (fun subtrees : List (Tree height) => Node.branch (subtrees.map Tree.child))
      subtrees := by
  intro part hpart hne hlength
  have hkey : ∀ subtree ∈ part, Node.keyValid subtree.last = true := by
    intro subtree hsubtree
    have h := hstored subtree (hpart.subset hsubtree)
    exact (Node.valid_iff.mp h.top.valid).2.2.1 _ (mem_of_getLast? h.last.2.1)
  constructor
  · rw [Node.valid_iff]
    simp only [Node.keys, map_map]
    refine ⟨by simpa using hne, by simpa using hlength, ?_, ?_⟩
    · intro key hmem
      obtain ⟨subtree, hsubtree, rfl⟩ := List.mem_map.mp hmem
      exact hkey subtree hsubtree
    · have hbetween := (List.pairwise_flatMap.mp (hsorted.sublist (hpart.flatMap Tree.rows))).2
      refine List.pairwise_map.mpr (hbetween.imp_of_mem fun {a b} ha hb hlt => ?_)
      obtain ⟨row, hrow, hlast⟩ := (hstored a (hpart.subset ha)).last_mem
      obtain ⟨row', hrow', hlast'⟩ := (hstored b (hpart.subset hb)).last_mem
      have hrows := hlt row hrow row' hrow'
      rwa [hlast, hlast'] at hrows
  · refine branch_fits (by simpa using hlength) fun child hchild => ?_
    obtain ⟨subtree, hsubtree, rfl⟩ := List.mem_map.mp hchild
    have h := hstored subtree (hpart.subset hsubtree)
    obtain ⟨row, hrow, hlast⟩ := h.last_mem
    refine Child.size_le ?_ (hkey subtree hsubtree) h.top.bounded (h.top.size ▸ h.top.fits) ?_
    · show unescaped subtree.last = true
      rw [← hlast]
      exact hplain row (List.mem_flatMap.mpr ⟨subtree, hpart.subset hsubtree, hrow⟩)
    · show hashValid subtree.page.sha256 = true
      rw [h.top.hash]
      exact codec.hashValid_sha256 _

structure Updated (codec : Codec) (bytes : List UInt8) (merge : Merge) (batch rows : List Row)
    (edge : Bool) (children : List Child) {height : Nat} (trees : List (Tree height)) : Prop where
  children : children = trees.map Tree.child
  stored : ∀ tree ∈ trees, tree.Stored codec bytes
  rows : upsertRows (merged merge) batch rows = .ok (trees.flatMap Tree.rows)
  formed : FormedLevel edge trees
  ne_nil : trees ≠ []

/-- What a call does to a tree of some height, for a batch in the order of its keys. -/
def Applies (codec : Codec) (merge : Merge) (base : List UInt8) (root : Option Page) (height : Nat)
    (applyChild : Child → List Row → Call (List Child)) : Prop :=
  ∀ (bytes : List UInt8) (tree : Tree height) (edge : Bool) (child : Child) (batch : List Row),
    tree.Stored codec bytes → tree.Formed edge → RowsSorted tree.rows → PlainRows tree.rows →
    RowsSorted batch → PlainRows batch → child.page = tree.page →
    (child.last = "" ∨ child.last = tree.last) →
    Grows base root bytes (applyChild child batch) fun children bytes' => ∃ trees : List (Tree height),
      Updated codec bytes' merge batch tree.rows edge children trees ∧
        (tree.Rooted → ∀ only, trees = [only] → only.Rooted)

variable {merge : Merge} {height : Nat} {edge : Bool}

/-- Branches over consecutive parts of a level. -/
theorem formed_parts {subtrees : List (Tree height)} {parts : List (Tree (height + 1))}
    (hformed : FormedLevel edge subtrees) (hflat : parts.flatMap Tree.subtrees = subtrees)
    (hitems : ∀ part ∈ parts, part.subtrees ≠ [])
    (hlarge : Edged (fun part => halfFanout ≤ part.subtrees.length)
      (fun part => edge = true ∨ halfFanout ≤ part.subtrees.length) parts) :
    FormedLevel edge parts := by
  cases parts using reverseRecOn with
  | nil => exact edged_nil
  | append_singleton front last _ =>
    rw [flatMap_append, flatMap_singleton] at hflat
    subst hflat
    obtain ⟨hfront, hlast⟩ := (edged_append (hitems last (by simp))).mp hformed
    obtain ⟨hlarge, hlargeLast⟩ := (edged_append (cons_ne_nil _ _)).mp hlarge
    rw [edged_singleton] at hlargeLast
    refine (edged_append (cons_ne_nil _ _)).mpr ⟨fun part hpart => ?_, edged_singleton.mpr ?_⟩
    · refine ⟨.inr (hlarge part hpart), edged_self.mpr fun subtree hsubtree => ?_⟩
      exact hfront subtree (List.mem_flatMap.mpr ⟨part, hpart, hsubtree⟩)
    · exact ⟨hlargeLast, hlast⟩

/-- The part of the batch that belongs to a child. -/
theorem applyGroup_grows
    (happly : Applies codec merge base root height applyChild) {tree : Tree height} {group : List Row}
    (hstored : tree.Stored codec bytes) (hformed : tree.Formed edge) (hsorted : RowsSorted tree.rows)
    (hplain : PlainRows tree.rows) (hgroup : RowsSorted group) (hgroupPlain : PlainRows group) :
    Grows base root bytes (applyGroup applyChild tree.child group) fun children bytes' =>
      ∃ trees : List (Tree height),
        Updated codec bytes' merge group tree.rows edge children trees := by
  unfold applyGroup
  split
  · rename_i hnil
    subst hnil
    refine .ret ⟨[tree], ?_⟩
    exact {
      children := rfl
      stored := by simpa using hstored
      rows := by simp [upsertRows]
      formed := edged_singleton.mpr hformed
      ne_nil := cons_ne_nil _ _ }
  · refine (happly bytes tree edge tree.child group hstored hformed hsorted hplain hgroup
      hgroupPlain rfl (.inr rfl)).weaken ?_
    rintro children bytes' - ⟨trees, hupdated, -⟩
    exact ⟨trees, hupdated⟩

theorem Updated.mono {trees : List (Tree height)}
    (h : Updated codec bytes merge batch rows edge children trees) (hmore : bytes <+: bytes') :
    Updated codec bytes' merge batch rows edge children trees :=
  { h with stored := fun tree htree => (h.stored tree htree).mono hmore }

theorem Updated.append {batch' rows' : List Row} {trees trees' : List (Tree height)}
    (h : Updated codec bytes merge batch rows false children trees)
    (h' : Updated codec bytes merge batch' rows' edge children' trees') {key : String}
    (hbatch : ∀ row ∈ batch, row.1 ≤ key) (hrows : ∀ row ∈ rows, row.1 ≤ key)
    (hbatch' : ∀ row ∈ batch', key < row.1) (hrows' : ∀ row ∈ rows', key < row.1) :
    Updated codec bytes merge (batch ++ batch') (rows ++ rows') edge (children ++ children')
      (trees ++ trees') where
  children := by rw [h.children, h'.children, map_append]
  stored tree htree := (List.mem_append.mp htree).elim (h.stored tree) (h'.stored tree)
  rows := by
    have hfirst : upsertRows (merged merge) batch (rows ++ rows') =
        .ok (trees.flatMap Tree.rows ++ rows') :=
      upsertRows_append_left (fun row hrow row' hrow' => (hbatch row hrow).trans_lt
        (hrows' row' hrow')) h.rows
    have hbelow := key_upsertRows (p := (· ≤ key)) hbatch hrows h.rows
    rw [upsertRows_append _ hfirst, flatMap_append]
    exact upsertRows_append_right (fun row hrow row' hrow' => (hbelow row' hrow').trans_lt
      (hbatch' row hrow)) h'.rows
  formed := (edged_append h'.ne_nil).mpr ⟨edged_self.mp h.formed, h'.formed⟩
  ne_nil := by simp [h.ne_nil]

theorem Updated.length_pos
    {trees : List (Tree height)} (h : Updated codec bytes merge batch rows edge children trees) :
    0 < trees.length := List.length_pos_iff.mpr h.ne_nil

/-- Each child takes in its part of the batch. -/
theorem updateChildren_grows
    (happly : Applies codec merge base root height applyChild) {subtrees : List (Tree height)}
    (hne : subtrees ≠ []) (hstored : ∀ subtree ∈ subtrees, subtree.Stored codec bytes)
    (hformed : FormedLevel edge subtrees) (hsorted : RowsSorted (subtrees.flatMap Tree.rows))
    (hplain : PlainRows (subtrees.flatMap Tree.rows)) (hbatch : RowsSorted batch)
    (hbatchPlain : PlainRows batch) :
    Grows base root bytes (updateChildren applyChild (subtrees.map Tree.child) batch)
      fun children bytes' => ∃ trees : List (Tree height),
        Updated codec bytes' merge batch (subtrees.flatMap Tree.rows) edge children trees ∧
          subtrees.length ≤ trees.length := by
  induction subtrees generalizing batch bytes with
  | nil => exact absurd rfl hne
  | cons subtree subtrees ih =>
    obtain ⟨hfirst, hrest⟩ := List.forall_mem_cons.mp hstored
    rw [flatMap_cons] at hsorted hplain ⊢
    obtain ⟨hrows, hsorted, hbetween⟩ := List.pairwise_append.mp hsorted
    obtain ⟨hrowsPlain, hplain⟩ := List.forall_mem_append.mp hplain
    rw [map_cons, updateChildren]
    by_cases hlast : subtrees = []
    · -- The last child takes the whole batch.
      subst hlast
      simp only [map_nil, if_pos, flatMap_nil, append_nil]
      refine (applyGroup_grows happly hfirst (edged_singleton.mp hformed) hrows hrowsPlain hbatch
        hbatchPlain).bind fun updated bytes' _ ⟨trees, hupdated⟩ => ?_
      have hend : Updated codec bytes' merge batch subtree.rows edge (updated ++ []) trees :=
        (append_nil updated).symm ▸ hupdated
      exact Grows.ret ⟨trees, hend, hupdated.length_pos⟩
    · have hmap : subtrees.map Tree.child ≠ [] := by simpa using hlast
      simp only [if_neg hmap]
      obtain ⟨hformed, hformedRest⟩ := (edged_cons hlast).mp hformed
      have hsplit := takeWhile_append_dropWhile (p := (·.1 ≤ subtree.child.last)) (l := batch)
      have hbelow : ∀ row ∈ batch.takeWhile (·.1 ≤ subtree.child.last), row.1 ≤ subtree.last :=
        le_of_mem_takeWhile
      have habove : ∀ row ∈ batch.dropWhile (·.1 ≤ subtree.child.last), subtree.last < row.1 :=
        lt_of_mem_dropWhile hbatch
      obtain ⟨row, hrow, hrowLast⟩ := hfirst.last_mem
      refine (applyGroup_grows happly hfirst hformed hrows hrowsPlain
        (hbatch.sublist (takeWhile_sublist _))
        fun row hrow => hbatchPlain row ((takeWhile_sublist _).subset hrow)).bind
        fun updated bytes₁ hmore₁ ⟨trees, hupdated⟩ => ?_
      refine (ih hlast (fun subtree hsubtree => (hrest subtree hsubtree).mono hmore₁) hformedRest
        hsorted hplain (hbatch.sublist (dropWhile_sublist _))
        fun row hrow => hbatchPlain row ((dropWhile_sublist _).subset hrow)).bind
        fun updated' bytes₂ hmore₂ ⟨trees', hupdated', hlength⟩ => .ret ⟨trees ++ trees', ?_, ?_⟩
      · rw [← hsplit]
        exact (hupdated.mono hmore₂).append hupdated' hbelow (hfirst.le_last hrows) habove
          fun row' hrow' => hrowLast ▸ hbetween row hrow row' hrow'
      · have hpos := hupdated.length_pos
        simp only [length_cons, length_append]
        omega

/-- The pages of a branch that is written, as trees. -/
theorem splitBranch_grows {tree : Tree (height + 1)}
    (hformed : tree.Formed edge) {updated : List Child} {subtrees : List (Tree height)}
    (h : Updated codec bytes merge batch rows edge updated subtrees)
    (hlength : tree.subtrees.length ≤ subtrees.length)
    (hsorted : RowsSorted (subtrees.flatMap Tree.rows))
    (hplain : PlainRows (subtrees.flatMap Tree.rows)) :
    Grows base root bytes (splitWrite codec (.branch updated)) fun children bytes' =>
      ∃ trees : List (Tree (height + 1)), Updated codec bytes' merge batch rows edge children trees ∧
        (tree.Rooted → ∀ only, trees = [only] → only.Rooted) := by
  rw [h.children]
  refine (splitWrite_grows packs_branch subtrees).weaken ?_
  rintro children bytes' hmore ⟨parts, hparts⟩
  obtain ⟨trees, htrees⟩ : ∃ trees : List (Tree (height + 1)), trees = parts := ⟨parts, rfl⟩
  subst htrees
  have hflat : trees.flatMap Tree.subtrees = subtrees := hparts.flat
  have hstored : ∀ part ∈ trees, part.Stored codec bytes' := by
    intro part hpart
    refine ⟨hparts.stored part hpart, fun subtree hsubtree => ?_⟩
    refine (h.stored subtree ?_).mono hmore
    rw [← hflat]
    exact List.mem_flatMap.mpr ⟨part, hpart, hsubtree⟩
  have hitems : ∀ part ∈ trees, part.subtrees ≠ [] := by
    intro part hpart hnil
    refine (Node.valid_iff.mp (hparts.stored part hpart).valid).1 ?_
    show ((part.subtrees.map Tree.child).map (·.last)) = []
    rw [hnil]
    rfl
  refine ⟨trees, ?_, fun hrooted only honly => ?_⟩
  · exact {
      children := children_eq hstored hparts.children
      stored := hstored
      rows := by
        have hrows : trees.flatMap Tree.rows = subtrees.flatMap Tree.rows := by
          rw [← hflat, flatMap_assoc]
          rfl
        rw [hrows]
        exact h.rows
      formed := by
        refine formed_parts h.formed hflat hitems ?_
        rcases hparts.large (fitting_branch h.stored hsorted hplain) with hone | hall
        · obtain ⟨only, honly⟩ : ∃ only, trees = [only] := List.length_eq_one_iff.mp hone
          have hall : only.subtrees = subtrees := by
            rw [← hflat, honly, flatMap_singleton]
          rw [honly, edged_singleton, hall]
          exact hformed.1.imp_right fun hmany => hmany.trans hlength
        · exact Edged.imp (edged_self.mpr hall) (fun _ h => h) fun _ => .inr
      ne_nil := hparts.ne_nil }
  · have hall : only.subtrees = subtrees := by
      rw [← hflat, honly, flatMap_singleton]
    show 2 ≤ only.subtrees.length
    rw [hall]
    exact Nat.le_trans hrooted hlength

theorem applyPage_grows {remaining : Nat} (hremaining : remaining ≤ maxDepth) :
    Applies codec merge base root height (applyPage codec merge remaining) := by
  induction height generalizing remaining with
  | zero =>
    intro bytes tree edge child batch hstored hformed hsorted hplain hbatch hbatchPlain hpage hlast
    cases remaining with
    | zero => exact .fail
    | succ remaining =>
      rw [applyPage]
      refine .load_bind fun index hindex => .lift_bind fun node hread => ?_
      rw [hstored.read hindex.holds (by omega) hpage hlast] at hread
      cases hread
      refine .lift_bind fun rows hrows => ?_
      have hbefore : (ofRows tree.rows).rows = tree.rows := rows_ofRows hsorted
      have hupsert : upsertRows (merged merge) batch tree.rows = .ok rows.rows := by
        have hall := upsertAll_rows.mp hrows
        rwa [show (ofRows (Prod.snd tree)).rows = tree.rows from hbefore] at hall
      split
      · -- Nothing has changed, and the page stays in the tree.
        rename_i hsame
        refine .lift_bind fun last hlast => .ret ⟨[tree], ?_, ?_⟩
        · rw [orErr_eq_ok, hsame] at hlast
          have hchild : tree.child = ⟨last.1, child.page⟩ := by
            show (⟨tree.last, tree.page⟩ : Child) = _
            rw [hpage, Tree.last, show tree.rows.getLast? = some last from hlast]
            rfl
          exact {
            children := by rw [← hchild]; rfl
            stored := by simpa using hstored
            rows := by
              rw [hupsert, hsame, flatMap_singleton]
              rfl
            formed := edged_singleton.mpr hformed
            ne_nil := cons_ne_nil _ _ }
        · exact fun _ _ _ => trivial
      · refine (splitWrite_grows packs_leaf rows.rows).weaken ?_
        rintro children bytes' - ⟨parts, hparts⟩
        have hleaves : ∀ part : Tree 0, part ∈ (parts : List (Tree 0)) →
            part.Stored codec bytes' := hparts.stored
        refine ⟨parts, ?_, fun _ _ _ => trivial⟩
        exact {
          children := children_eq hleaves hparts.children
          stored := hleaves
          rows := by
            rw [hupsert, ← hparts.flat]
            rfl
          formed := formedLevel_of_forall fun _ _ => trivial
          ne_nil := hparts.ne_nil }
  | succ height ih =>
    intro bytes tree edge child batch hstored hformed hsorted hplain hbatch hbatchPlain hpage hlast
    cases remaining with
    | zero => exact .fail
    | succ remaining =>
      rw [applyPage]
      refine .load_bind fun index hindex => .lift_bind fun node hread => ?_
      rw [hstored.read hindex.holds (by omega) hpage hlast] at hread
      cases hread
      have hne : tree.subtrees ≠ [] := by
        intro hnil
        refine (Node.valid_iff.mp hstored.top.valid).1 ?_
        show ((tree.subtrees.map Tree.child).map (·.last)) = []
        rw [hnil]
        rfl
      refine (updateChildren_grows (ih (by omega)) hne hstored.2 hformed.2 hsorted hplain hbatch
        hbatchPlain).bind fun updated bytes' hmore hchildren => ?_
      obtain ⟨subtrees, hupdated, hlength⟩ := hchildren
      exact splitBranch_grows hformed hupdated hlength (upsertRows_sorted hsorted hupdated.rows)
        (key_upsertRows (p := fun key => unescaped key = true) hbatchPlain hplain hupdated.rows)

end

end NilsCli.Notice
