import Mathlib.Logic.Relation
import NilsCli.Lib.Guard
import NilsCli.Lib.Text

/-!
# Symbolic links of a checkout

A dirty checkout is adopted only if each of its symbolic links passes
`ensure_symlink_stays_within_root`, which counts how deep the text of one target stays below the
root.
-/

namespace NilsCli.Worktree

open Lib

/-! ## The check -/

inductive Component where
  | parentDir
  | normal (name : String)
  deriving DecidableEq

/-- `Path::components` of a target that is not absolute. -/
def components (target : String) : List Component :=
  (splitAt target '/').filterMap fun part =>
    if part = "" ∨ part = "." then none
    else if part = ".." then some .parentDir
    else some (.normal part)

def isAbsolute (target : String) : Bool := startsWith target '/'

/-- The loop over the components of a target. -/
def countDepth : Nat → List Component → Except String Nat
  | depth, [] => .ok depth
  | depth, .normal _ :: rest => countDepth (depth + 1) rest
  | depth + 1, .parentDir :: rest => countDepth depth rest
  | 0, .parentDir :: _ => .error "symlink target escapes the checkout"

def ensureSymlinkStaysWithinRoot (parent : List String) (target : String) : Except String Unit := do
  ensure (isAbsolute target = false) "absolute symlink targets are unsupported"
  let _ ← countDepth parent.length (components target)
  .ok ()

/-! ## Resolution -/

inductive Entry where
  | directory
  | file
  | symlink (target : String)

/-- The files below the root of a checkout. -/
structure Tree where
  entry : List String → Option Entry
  root : entry [] = some .directory
  parent : ∀ name dir, (entry (name :: dir)).isSome → entry dir = some .directory

abbrev Config := List String × List Component

variable (tree : Tree)

def Tree.step : Config → Option Config
  | (_, []) => none
  | (_ :: dir, .parentDir :: rest) => some (dir, rest)
  | ([], .parentDir :: _) => none
  | (dir, .normal name :: rest) =>
    match tree.entry (name :: dir) with
    | some .directory => some (name :: dir, rest)
    | some (.symlink target) =>
      if isAbsolute target then none else some (dir, components target ++ rest)
    | _ => none

/-- The next component leads out of the checkout. -/
def Tree.leaves : Config → Bool
  | ([], .parentDir :: _) => true
  | (dir, .normal name :: _) =>
    match tree.entry (name :: dir) with
    | some (.symlink target) => isAbsolute target
    | _ => false
  | _ => false

def Tree.Steps : Config → Config → Prop :=
  Relation.ReflTransGen fun config next => tree.step config = some next

/-- The next component is a symbolic link. -/
def Tree.AtLink (config : Config) : Prop :=
  ∃ name rest target, config.2 = .normal name :: rest ∧
    tree.entry (name :: config.1) = some (.symlink target)

/-- Every symbolic link passes the check. -/
def Tree.Passes : Prop :=
  ∀ name dir target, tree.entry (name :: dir) = some (.symlink target) →
    ensureSymlinkStaysWithinRoot dir target = .ok ()

/-- No path of the tree leads out of the checkout. -/
def Tree.Stays : Prop :=
  ∀ (names : List String) config, tree.Steps ([], names.map .normal) config →
    tree.leaves config = false

/-- A part of a target runs through another link. -/
def Tree.Crosses (dir : List String) (part : List Component) : Prop :=
  ∃ config, tree.Steps (dir, part) config ∧ tree.AtLink config

variable {tree}

section
variable {dir dir' : List String} {todo todo' : List Component} {config next : Config}
  {name target : String}

/-! ## Steps -/

theorem Tree.step_directory (h : tree.entry (name :: dir) = some .directory)
    (rest : List Component) : tree.step (dir, .normal name :: rest) = some (name :: dir, rest) := by
  simp [Tree.step, h]

theorem Tree.step_link (h : tree.entry (name :: dir) = some (.symlink target))
    (htarget : isAbsolute target = false) (rest : List Component) :
    tree.step (dir, .normal name :: rest) = some (dir, components target ++ rest) := by
  simp [Tree.step, h, htarget]

/-- What a step can be. -/
inductive Tree.Stepped (tree : Tree) : Config → Config → Prop
  | parent {name : String} {dir : List String} {rest : List Component} :
      Stepped tree (name :: dir, .parentDir :: rest) (dir, rest)
  | directory {name : String} {dir : List String} {rest : List Component}
      (h : tree.entry (name :: dir) = some .directory) :
      Stepped tree (dir, .normal name :: rest) (name :: dir, rest)
  | link {name target : String} {dir : List String} {rest : List Component}
      (h : tree.entry (name :: dir) = some (.symlink target))
      (htarget : isAbsolute target = false) :
      Stepped tree (dir, .normal name :: rest) (dir, components target ++ rest)

theorem Tree.stepped (h : tree.step config = some next) : tree.Stepped config next := by
  unfold Tree.step at h
  split at h
  · cases h
  · cases h
    exact .parent
  · cases h
  · split at h
    · rename_i hentry
      cases h
      exact .directory hentry
    · rename_i hentry
      split at h
      · cases h
      · rename_i htarget
        cases h
        exact .link hentry (by simpa using htarget)
    · cases h

theorem Tree.step_append (h : tree.step config = some next) (rest : List Component) :
    tree.step (config.1, config.2 ++ rest) = some (next.1, next.2 ++ rest) := by
  cases Tree.stepped h with
  | parent => rfl
  | directory hentry => exact Tree.step_directory hentry _
  | link hentry htarget =>
    rw [List.append_assoc]
    exact Tree.step_link hentry htarget _

theorem Tree.Steps.append (h : tree.Steps config next) (rest : List Component) :
    tree.Steps (config.1, config.2 ++ rest) (next.1, next.2 ++ rest) := by
  induction h with
  | refl => exact .refl
  | tail _ hstep ih => exact ih.tail (Tree.step_append hstep rest)

theorem Tree.steps_names (tree : Tree) {dir : List String} (h : tree.entry dir = some .directory) :
    tree.Steps ([], dir.reverse.map .normal) (dir, []) := by
  induction dir with
  | nil => exact .refl
  | cons name dir ih =>
    have hparent := tree.parent name dir (by rw [h]; rfl)
    have hrest := (ih hparent).append [.normal name]
    rw [List.reverse_cons, List.map_append]
    exact hrest.tail (Tree.step_directory h [])

/-! ## Parts without links -/

theorem countDepth_step (h : tree.step config = some next) (hlink : ¬ tree.AtLink config)
    (rest : List Component) : countDepth config.1.length (config.2 ++ rest) =
      countDepth next.1.length (next.2 ++ rest) := by
  cases Tree.stepped h with
  | parent => rfl
  | directory _ => rfl
  | link hentry _ => exact absurd ⟨_, _, _, rfl, hentry⟩ hlink

theorem countDepth_steps (h : tree.Steps config next)
    (hlinks : ∀ middle, tree.Steps config middle → ¬ tree.AtLink middle) (rest : List Component) :
    countDepth config.1.length (config.2 ++ rest) = countDepth next.1.length (next.2 ++ rest) := by
  induction h using Relation.ReflTransGen.head_induction_on with
  | refl => rfl
  | head hstep _ ih =>
    rw [countDepth_step hstep (hlinks _ .refl)]
    exact ih fun middle hmiddle => hlinks middle (hmiddle.head hstep)

theorem Tree.Passes.count (h : tree.Passes)
    (hlink : tree.entry (name :: dir) = some (.symlink target)) :
    isAbsolute target = false ∧
      ∃ depth, countDepth dir.length (components target) = .ok depth := by
  have hpass := h name dir target hlink
  unfold ensureSymlinkStaysWithinRoot at hpass
  rw [ensure_bind_ok, bind_eq_ok] at hpass
  obtain ⟨habsolute, depth, hdepth, -⟩ := hpass
  exact ⟨habsolute, depth, hdepth⟩

/-! ## Every path -/

def Tree.Accounted (tree : Tree) (config : Config) : Prop :=
  ∀ part rest, config.2 = part ++ .parentDir :: rest →
    ∃ name dir target before after, tree.entry (name :: dir) = some (.symlink target) ∧
      components target = before ++ .parentDir :: after ∧
      tree.Steps (dir, before) (config.1, part)

theorem Tree.Accounted.names (tree : Tree) (dir names : List String) :
    tree.Accounted (dir, names.map .normal) := by
  intro part rest h
  have hmem : Component.parentDir ∈ names.map Component.normal := by
    rw [show names.map Component.normal = part ++ .parentDir :: rest from h]
    simp
  obtain ⟨_, -, hname⟩ := List.mem_map.mp hmem
  cases hname

theorem Tree.Accounted.step (h : tree.Accounted config) (hstep : tree.step config = some next) :
    tree.Accounted next := by
  cases Tree.stepped hstep with
  | parent =>
    intro part rest hsplit
    obtain ⟨name, parent, target, before, after, hlink, hcomponents, hsteps⟩ :=
      h (.parentDir :: part) rest (congrArg (Component.parentDir :: ·) hsplit)
    exact ⟨name, parent, target, before, after, hlink, hcomponents, hsteps.tail rfl⟩
  | @directory entryName _ _ hentry =>
    intro part rest hsplit
    obtain ⟨name, parent, target, before, after, hlink, hcomponents, hsteps⟩ :=
      h (.normal entryName :: part) rest (congrArg (Component.normal entryName :: ·) hsplit)
    exact ⟨name, parent, target, before, after, hlink, hcomponents,
      hsteps.tail (Tree.step_directory hentry part)⟩
  | @link entryName target dir todo hentry htarget =>
    intro part rest hsplit
    rcases List.append_eq_append_iff.mp hsplit with ⟨part', rfl, htodo⟩ | ⟨after, hcomponents, htail⟩
    · -- the component was there before the link was followed
      obtain ⟨name, parent, target', before, after, hlink, hcomponents, hsteps⟩ :=
        h (.normal entryName :: part') rest (congrArg (Component.normal entryName :: ·) htodo)
      exact ⟨name, parent, target', before, after, hlink, hcomponents,
        hsteps.tail (Tree.step_link hentry htarget part')⟩
    · cases after with
      | nil =>
        -- it is the first one after the link
        rw [List.append_nil] at hcomponents
        obtain ⟨name, parent, target', before, after, hlink, hcomponents', hsteps⟩ :=
          h [.normal entryName] rest
            (congrArg (Component.normal entryName :: ·) (by simpa using htail.symm))
        refine ⟨name, parent, target', before, after, hlink, hcomponents', ?_⟩
        have hlast := hsteps.tail (Tree.step_link hentry htarget [])
        rwa [List.append_nil, hcomponents] at hlast
      | cons component after =>
        obtain ⟨rfl, -⟩ := List.cons.inj htail
        exact ⟨entryName, dir, target, part, after, hentry, hcomponents, .refl⟩

theorem Tree.Accounted.steps (h : tree.Accounted config) (hsteps : tree.Steps config next) :
    tree.Accounted next := by
  induction hsteps with
  | refl => exact h
  | tail _ hstep ih => exact ih.step hstep

theorem Tree.Accounted.leaves (h : tree.Accounted config) (hpass : tree.Passes)
    (hleaves : tree.leaves config = true) :
    ∃ name dir target before after, tree.entry (name :: dir) = some (.symlink target) ∧
      components target = before ++ .parentDir :: after ∧ tree.Steps (dir, before) ([], []) := by
  unfold Tree.leaves at hleaves
  split at hleaves
  · rename_i rest
    exact h [] rest rfl
  · split at hleaves
    · rename_i target hentry
      rw [(hpass.count hentry).1] at hleaves
      cases hleaves
    · cases hleaves
  · cases hleaves

end

/-- Where every symbolic link passes the check, resolution stays inside the checkout exactly if no
target goes up from the root after it has run through another link. -/
theorem resolution_stays_iff (hpass : tree.Passes) : tree.Stays ↔
    ∀ name dir target before after, tree.entry (name :: dir) = some (.symlink target) →
      components target = before ++ .parentDir :: after → tree.Crosses dir before →
        ¬ tree.Steps (dir, before) ([], []) := by
  constructor
  · intro hstays name dir target before after hlink hcomponents _ hroot
    -- the path of the link itself
    have hparent := tree.parent name dir (by rw [hlink]; rfl)
    have hpath := ((tree.steps_names hparent).append [.normal name]).tail
      (Tree.step_link hlink (hpass.count hlink).1 [])
    rw [List.append_nil, hcomponents] at hpath
    have hleft := hpath.trans (hroot.append (.parentDir :: after))
    have hinside := hstays (dir.reverse ++ [name]) _ (by rw [List.map_append]; exact hleft)
    cases hinside
  · intro h names config hsteps
    by_contra hleaves
    rw [Bool.not_eq_false] at hleaves
    obtain ⟨name, dir, target, before, after, hlink, hcomponents, hroot⟩ :=
      ((Tree.Accounted.names tree [] names).steps hsteps).leaves hpass hleaves
    by_cases hcrosses : tree.Crosses dir before
    · exact h name dir target before after hlink hcomponents hcrosses hroot
    · -- without a link before it, the check has counted the component at the root
      have hcount := countDepth_steps hroot
        (fun middle hmiddle hat => hcrosses ⟨middle, hmiddle, hat⟩) (.parentDir :: after)
      obtain ⟨-, depth, hdepth⟩ := hpass.count hlink
      rw [hcomponents] at hdepth
      cases hcount.symm.trans hdepth

/-! ## A link that goes up twice -/

def climbing : Tree where
  entry
    | [] => some .directory
    | ["a"] => some .directory
    | ["b", "a"] => some .directory
    | ["up", "b", "a"] => some (.symlink "../..")
    | ["x"] => some (.symlink "a/b/up/..")
    | _ => none
  root := rfl
  parent name dir h := by
    split at h <;> first | rfl | simp_all

/-- So many steps. -/
def Tree.run (tree : Tree) : Nat → Config → Option Config
  | 0, config => some config
  | n + 1, config => (tree.step config).bind (tree.run n)

theorem Tree.steps_of_run {n : Nat} {config last : Config} (h : tree.run n config = some last) :
    tree.Steps config last := by
  induction n generalizing config with
  | zero =>
    cases h
    exact .refl
  | succ n ih =>
    obtain ⟨next, hnext, hrest⟩ := Option.bind_eq_some_iff.mp h
    exact (ih hrest).head hnext

theorem climbing_passes : climbing.Passes := by
  intro name dir target h
  unfold climbing at h
  dsimp only at h
  split at h <;> cases h
  · rename_i hpath
    cases hpath
    decide +kernel
  · rename_i hpath
    cases hpath
    decide +kernel

/-- Both links pass the check, and `x` leads out of the checkout. -/
theorem climbing_leaves : climbing.Passes ∧ ¬ climbing.Stays := by
  refine ⟨climbing_passes, fun hstays => ?_⟩
  have hrun : climbing.run 6 ([], [.normal "x"]) = some ([], [.parentDir]) := by decide +kernel
  cases hstays ["x"] _ (Tree.steps_of_run hrun)

/-- The target of `x` runs through `up`, which leads to the root, and goes up from there. -/
theorem resolution_stays_iff_sample : climbing.Stays ↔
    ∀ name dir target before after, climbing.entry (name :: dir) = some (.symlink target) →
      components target = before ++ .parentDir :: after → climbing.Crosses dir before →
        ¬ climbing.Steps (dir, before) ([], []) := resolution_stays_iff climbing_passes

end NilsCli.Worktree
