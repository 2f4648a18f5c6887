import Mathlib.Data.Finset.Dedup
import Mathlib.Data.Finset.Filter
import Mathlib.Data.List.DropRight
import Mathlib.Data.UInt
import NilsCli.Lib.PathOrder

/-!
# The scope lock (`agent-scope-lock/src/lib.rs`)

`create` stores allowed paths relative to the repository; `validate` compares them with the paths
that three git listings print, which is not always what changed.
-/

namespace NilsCli.ScopeLock

open Lib List

abbrev Bytes := List UInt8

/-- The components below the repository root. -/
abbrev RepoPath := List Bytes

def slash : UInt8 := 0x2f

def dot : Bytes := [0x2e]

def dotGit : Bytes := [0x2e, 0x67, 0x69, 0x74]

def joined (path : RepoPath) : Bytes := [slash].intercalate path

/-! ## Allowed paths -/

inductive ScopeError
  | missingPath
  | pathOutsideRepo (path : Bytes)
  | gitDirNotAllowed (path : Bytes)
  deriving DecidableEq

/-- `normalize_path` of an absolute path with these components. -/
def normalizePath (components : List Bytes) : RepoPath :=
  components.foldl (fun names part =>
    if part = [] ∨ part = dot then names
    else if part = [0x2e, 0x2e] then names.dropLast
    else names ++ [part]) []

def trimSlashes (text : Bytes) : Bytes :=
  (text.dropWhile (· = slash)).rdropWhile (· = slash)

/-- `lossy` is `to_string_lossy`. -/
def repoRelativePath (lossy : Bytes → Bytes) (path : RepoPath) : Except ScopeError Bytes :=
  if path = [] then .ok dot
  else
    let trimmed := trimSlashes (joined (path.map lossy))
    if trimmed = [] then .ok dot
    else if trimmed = dotGit ∨ dotGit ++ [slash] <+: trimmed then .error (.gitDirNotAllowed trimmed)
    else .ok trimmed

def normalizeAllowedPath (lossy : Bytes → Bytes) (repoRoot : RepoPath) (path : Bytes) :
    Except ScopeError Bytes :=
  let parts := path.splitOn slash
  let absolute := normalizePath (if path.head? = some slash then parts else repoRoot ++ parts)
  if repoRoot <+: absolute then repoRelativePath lossy (absolute.drop repoRoot.length)
  else .error (.pathOutsideRepo path)

/-- The allowed paths that `create` writes. -/
def normalizeAllowedPaths (lossy : Bytes → Bytes) (repoRoot : RepoPath) (paths : List Bytes) :
    Except ScopeError (Finset Bytes) :=
  if paths = [] then .error .missingPath
  else (paths.mapM (normalizeAllowedPath lossy repoRoot)).map List.toFinset

def IsAllowedPath (path : Bytes) (allowed : Finset Bytes) : Prop :=
  ∃ a ∈ allowed, a = dot ∨ path = a ∨ a ++ [slash] <+: path

instance (path : Bytes) (allowed : Finset Bytes) : Decidable (IsAllowedPath path allowed) :=
  inferInstanceAs (Decidable (∃ a ∈ allowed, _))

/-! ## What git prints -/

/-- A byte that git quotes: a control or non-ASCII byte, the quote and the backslash. -/
def unusual (b : UInt8) : Bool := b < 0x20 || b ≥ 0x7f || b = 0x22 || b = 0x5c

/-- A backslash, and the letter of the byte or its three octal digits. -/
def escape (b : UInt8) : Bytes :=
  if !unusual b then [b]
  else match [(7, 0x61), (8, 0x62), (9, 0x74), (10, 0x6e), (11, 0x76), (12, 0x66), (13, 0x72),
      (0x22, 0x22), (0x5c, 0x5c)].lookup b with
    | some letter => [0x5c, letter]
    | none => [0x5c, 0x30 + b / 64, 0x30 + b / 8 % 8, 0x30 + b % 8]

def quoted (name : Bytes) : Bytes :=
  if name.any unusual then 0x22 :: name.flatMap escape ++ [0x22] else name

/-- The trees that git compares, and the pairs of a deleted and an added path that its diffs make. -/
structure Repository (Content : Type) where
  head : RepoPath → Option Content
  index : RepoPath → Option Content
  work : RepoPath → Option Content
  ignored : RepoPath → Bool
  paths : List RepoPath
  complete : ∀ p, p ∉ paths → head p = none ∧ index p = none ∧ work p = none
  stagedRenames : List (RepoPath × RepoPath)
  staged_moved : ∀ r ∈ stagedRenames,
    head r.1 ≠ none ∧ index r.1 = none ∧ head r.2 = none ∧ index r.2 ≠ none
  workRenames : List (RepoPath × RepoPath)
  work_moved : ∀ r ∈ workRenames, index r.1 ≠ none ∧ work r.1 = none ∧ work r.2 ≠ none

def renamedAway (renames : List (RepoPath × RepoPath)) (p : RepoPath) : Bool :=
  renames.any fun r => r.1 = p

variable {Content : Type} [DecidableEq Content]

namespace Repository

/-- `git diff --name-only --cached`. -/
def stagedNames (repo : Repository Content) : List Bytes :=
  (repo.paths.filter fun p =>
    repo.head p ≠ repo.index p ∧ renamedAway repo.stagedRenames p = false).map
      fun p => quoted (joined p)

/-- `git diff --name-only`: only paths of the index. -/
def workNames (repo : Repository Content) : List Bytes :=
  (repo.paths.filter fun p =>
    repo.index p ≠ none ∧ repo.index p ≠ repo.work p ∧ renamedAway repo.workRenames p = false).map
      fun p => quoted (joined p)

def Untracked (repo : Repository Content) (p : RepoPath) : Prop :=
  repo.index p = none ∧ repo.work p ≠ none ∧ repo.ignored p = false

instance (repo : Repository Content) (p : RepoPath) : Decidable (repo.Untracked p) :=
  inferInstanceAs (Decidable (_ ∧ _))

/-- `git ls-files --others --exclude-standard` in the directory `cwd`. -/
def otherNames (repo : Repository Content) (cwd : RepoPath) : List Bytes :=
  (repo.paths.filter fun p => repo.Untracked p ∧ cwd <+: p).map fun p =>
    quoted (joined (p.drop cwd.length))

/-- The content or existence of the path differs from `HEAD`, ignored files aside. -/
def Differs (repo : Repository Content) (p : RepoPath) : Prop :=
  repo.head p ≠ repo.index p ∨ repo.head p ≠ repo.work p ∧
    ¬ (repo.ignored p = true ∧ repo.head p = none ∧ repo.index p = none)

end Repository

/-! ## Validation -/

inductive ChangeMode | all | staged | unstaged

/-- `trim`: the listings are ASCII. -/
def trim (line : Bytes) : Bytes :=
  (line.dropWhile fun b => b = 0x20 || (9 ≤ b && b ≤ 13)).rdropWhile fun b =>
    b = 0x20 || (9 ≤ b && b ≤ 13)

def collectGitPaths (lines : List Bytes) : Finset Bytes :=
  ((lines.map trim).filter (· ≠ [])).toFinset

def changedPaths (repo : Repository Content) (cwd : RepoPath) : ChangeMode → Finset Bytes
  | .all => collectGitPaths (repo.workNames ++ repo.stagedNames ++ repo.otherNames cwd)
  | .staged => collectGitPaths repo.stagedNames
  | .unstaged => collectGitPaths (repo.workNames ++ repo.otherNames cwd)

/-- The violations that `validate_lock` reports. -/
def validateLock (repo : Repository Content) (cwd : RepoPath) (mode : ChangeMode)
    (allowed : Finset Bytes) : Finset Bytes :=
  (changedPaths repo cwd mode).filter fun path => ¬ IsAllowedPath path allowed

/-! ## What validation sees -/

variable {repo : Repository Content} {cwd p : RepoPath} {allowed : Finset Bytes} {line : Bytes}

/-- The path lies, by whole components, under an allowed path. -/
def Under (p : RepoPath) (allowed : Finset Bytes) : Prop :=
  ∃ a ∈ allowed, a = dot ∨ Below slash (joined p) a

theorem isAllowedPath_iff : IsAllowedPath (joined p) allowed ↔ Under p allowed := by
  refine exists_congr fun a => and_congr_right fun _ => or_congr_right (or_congr_right ?_)
  constructor
  · rintro ⟨rest, h⟩
    exact ⟨rest, by rw [← h, append_assoc, singleton_append]⟩
  · rintro ⟨rest, h⟩
    exact ⟨rest, by rw [h, append_assoc, singleton_append]⟩

/-- A listing shows a change of the path as this line. -/
inductive Shows (repo : Repository Content) (cwd p : RepoPath) : Bytes → Prop
  | staged (hdiff : repo.head p ≠ repo.index p) (hkept : renamedAway repo.stagedRenames p = false) :
      Shows repo cwd p (quoted (joined p))
  | work (htracked : repo.index p ≠ none) (hdiff : repo.index p ≠ repo.work p)
      (hkept : renamedAway repo.workRenames p = false) : Shows repo cwd p (quoted (joined p))
  | other (huntracked : repo.Untracked p) (hcwd : cwd <+: p) :
      Shows repo cwd p (quoted (joined (p.drop cwd.length)))

/-- The change is shown by a line that no allowed path covers. -/
def Exposed (repo : Repository Content) (cwd : RepoPath) (allowed : Finset Bytes) (p : RepoPath) :
    Prop := ∃ line, Shows repo cwd p line ∧ trim line ≠ [] ∧ ¬ IsAllowedPath (trim line) allowed

omit [DecidableEq Content] in
theorem mem_paths (h : repo.head p ≠ none ∨ repo.index p ≠ none ∨ repo.work p ≠ none) :
    p ∈ repo.paths := by
  by_contra hnot
  obtain ⟨hhead, hindex, hwork⟩ := repo.complete p hnot
  rcases h with h | h | h
  · exact h hhead
  · exact h hindex
  · exact h hwork

theorem shows_iff :
    (∃ p, Shows repo cwd p line) ↔
      line ∈ repo.workNames ++ repo.stagedNames ++ repo.otherNames cwd := by
  simp only [mem_append, Repository.workNames, Repository.stagedNames, Repository.otherNames,
    mem_map, mem_filter, decide_eq_true_eq]
  constructor
  · rintro ⟨p, h⟩
    cases h with
    | staged hdiff hkept =>
      refine .inl (.inr ⟨p, ⟨mem_paths ?_, hdiff, hkept⟩, rfl⟩)
      by_cases hhead : repo.head p = none
      · exact .inr (.inl fun hindex => hdiff (hhead.trans hindex.symm))
      · exact .inl hhead
    | work htracked hdiff hkept =>
      exact .inl (.inl ⟨p, ⟨mem_paths (.inr (.inl htracked)), htracked, hdiff, hkept⟩, rfl⟩)
    | other huntracked hcwd =>
      exact .inr ⟨p, ⟨mem_paths (.inr (.inr huntracked.2.1)), huntracked, hcwd⟩, rfl⟩
  · rintro ((⟨p, ⟨-, htracked, hdiff, hkept⟩, rfl⟩ | ⟨p, ⟨-, hdiff, hkept⟩, rfl⟩) |
      ⟨p, ⟨-, huntracked, hcwd⟩, rfl⟩)
    · exact ⟨p, .work htracked hdiff hkept⟩
    · exact ⟨p, .staged hdiff hkept⟩
    · exact ⟨p, .other huntracked hcwd⟩

/-- Nothing is reported exactly if no change is exposed. -/
theorem validateLock_eq_empty :
    validateLock repo cwd .all allowed = ∅ ↔ ∀ p, ¬ Exposed repo cwd allowed p := by
  unfold validateLock changedPaths collectGitPaths
  rw [Finset.filter_eq_empty_iff]
  simp only [mem_toFinset, mem_filter, mem_map, decide_eq_true_eq, not_not]
  constructor
  · rintro h p ⟨line, hshows, hne, hnot⟩
    exact hnot (h ⟨⟨line, shows_iff.mp ⟨p, hshows⟩, rfl⟩, hne⟩)
  · rintro h path ⟨⟨line, hline, rfl⟩, hne⟩
    obtain ⟨p, hshows⟩ := shows_iff.mpr hline
    by_contra hnot
    exact h p ⟨line, hshows, hne, hnot⟩

/-! ## Plain names -/

/-- A name that git does not quote and that `trim` does not shorten. -/
structure PlainName (name : Bytes) : Prop where
  ne_nil : name ≠ []
  usual : ∀ b ∈ name, unusual b = false
  head_ne : name.head ne_nil ≠ 0x20
  last_ne : name.getLast ne_nil ≠ 0x20

theorem not_blank {b : UInt8} (h : unusual b = false) (hne : b ≠ 0x20) :
    ¬ (b = 0x20 || (9 ≤ b && b ≤ 13)) = true := by
  simp only [unusual, Bool.or_eq_false_iff, decide_eq_false_iff_not] at h
  simp only [hne, decide_false, Bool.false_or, Bool.and_eq_true, decide_eq_true_eq, not_and]
  intro _ hle
  exact h.1.1.1 (UInt8.lt_of_le_of_lt hle (by decide))

theorem PlainName.quoted_eq {name : Bytes} (h : PlainName name) : quoted name = name :=
  if_neg (by simpa using h.usual)

theorem PlainName.trim_eq {name : Bytes} (h : PlainName name) : trim name = name := by
  obtain ⟨hne, husual, hhead, hlast⟩ := h
  have hfront : (name.dropWhile fun b => b = 0x20 || (9 ≤ b && b ≤ 13)) = name :=
    List.dropWhile_eq_self_iff.mpr fun hpos => by
      rw [← head_eq_getElem hne]
      exact not_blank (husual _ (head_mem hne)) hhead
  rw [trim, hfront]
  exact List.rdropWhile_eq_self_iff.mpr fun _ => not_blank (husual _ (getLast_mem hne)) hlast

/-- The name is recovered from its line, or git quotes it and no allowed path starts with a quote. -/
def ClearName (name : Bytes) (allowed : Finset Bytes) : Prop :=
  PlainName name ∨ name.any unusual = true ∧ ∀ a ∈ allowed, a.head? ≠ some 0x22

theorem trim_quoted {name : Bytes} (h : name.any unusual = true) : trim (quoted name) = quoted name := by
  have hfront : (quoted name).dropWhile (fun b => b = 0x20 || (9 ≤ b && b ≤ 13)) = quoted name := by
    rw [quoted, if_pos h, List.cons_append]
    exact List.dropWhile_cons_of_neg (by decide)
  rw [trim, hfront]
  refine List.rdropWhile_eq_self_iff.mpr fun hne => ?_
  have hlast : (quoted name).getLast hne = 0x22 := by
    simp only [quoted, if_pos h]
    exact List.getLast_append_singleton _
  rw [hlast]
  decide

/-- Where the name of an outside path is printed, it is a violation. -/
theorem ClearName.outside (h : ClearName (joined p) allowed) (hout : ¬ Under p allowed) :
    trim (quoted (joined p)) ≠ [] ∧ ¬ IsAllowedPath (trim (quoted (joined p))) allowed := by
  rcases h with hplain | ⟨hunusual, hquote⟩
  · rw [hplain.quoted_eq, hplain.trim_eq, isAllowedPath_iff]
    exact ⟨hplain.ne_nil, hout⟩
  · rw [trim_quoted hunusual, quoted, if_pos hunusual, List.cons_append]
    refine ⟨List.cons_ne_nil _ _, ?_⟩
    rintro ⟨a, ha, rfl | rfl | ⟨rest, hrest⟩⟩
    · exact hout ⟨dot, ha, .inl rfl⟩
    · exact hquote _ ha rfl
    · cases a with
      | nil => exact absurd (List.cons.inj hrest).1 (by decide)
      | cons b a => exact hquote _ ha (congrArg some (List.cons.inj hrest).1)

/-- A listing prints the path in full: a diff that does not take it for the old name of a rename, or
`ls-files` at the root. -/
def Listed (repo : Repository Content) (cwd p : RepoPath) : Prop :=
  repo.head p ≠ repo.index p ∧ renamedAway repo.stagedRenames p = false ∨
    (repo.index p ≠ none ∧ repo.index p ≠ repo.work p ∧ renamedAway repo.workRenames p = false) ∨
    repo.Untracked p ∧ cwd = []

omit [DecidableEq Content] in
theorem Listed.shows (h : Listed repo cwd p) : Shows repo cwd p (quoted (joined p)) := by
  rcases h with ⟨hdiff, hkept⟩ | ⟨htracked, hdiff, hkept⟩ | ⟨huntracked, rfl⟩
  · exact .staged hdiff hkept
  · exact .work htracked hdiff hkept
  · exact .other huntracked List.nil_prefix

/-- Validation without a violation means that only allowed paths changed, where of the outside paths
that changed, if there are any, one is listed in full and has a clear name; each such path is a
violation. -/
theorem guard_sound (lossy : Bytes → Bytes) (repoRoot : RepoPath) (paths : List Bytes)
    (repo : Repository Content) (cwd : RepoPath) (allowed : Finset Bytes) :
    normalizeAllowedPaths lossy repoRoot paths = .ok allowed →
    (((∃ p, repo.Differs p ∧ ¬ Under p allowed) →
        ∃ p, Listed repo cwd p ∧ ClearName (joined p) allowed ∧ ¬ Under p allowed) →
      validateLock repo cwd .all allowed = ∅ → ∀ p, repo.Differs p → Under p allowed) ∧
    ∀ p, Listed repo cwd p → ClearName (joined p) allowed → ¬ Under p allowed →
      trim (quoted (joined p)) ∈ validateLock repo cwd .all allowed := by
  intro _
  refine ⟨fun hsome hempty p hdiffers => ?_, fun p hlisted hname hout => ?_⟩
  · by_contra hout
    obtain ⟨q, hlisted, hname, hqout⟩ := hsome ⟨p, hdiffers, hout⟩
    exact validateLock_eq_empty.mp hempty q ⟨_, hlisted.shows, hname.outside hqout⟩
  · obtain ⟨hne, hnot⟩ := hname.outside hout
    have hline := shows_iff.mp ⟨p, hlisted.shows⟩
    exact Finset.mem_filter.mpr ⟨List.mem_toFinset.mpr (List.mem_filter.mpr
      ⟨List.mem_map_of_mem hline, decide_eq_true hne⟩), hnot⟩

/-- `a` was changed, and only `b` may change. -/
def plainRepository : Repository Bool where
  head p := if p = [[0x61]] then some false else none
  index p := if p = [[0x61]] then some true else none
  work p := if p = [[0x61]] then some true else none
  ignored _ := false
  paths := [[[0x61]]]
  complete p hp := by simp_all
  stagedRenames := []
  staged_moved := by simp
  workRenames := []
  work_moved := by simp

/-- The outside change is a violation. -/
theorem guard_sound_plain :
    normalizeAllowedPaths id [[0x72]] [[0x62]] = .ok {[0x62]} ∧
      [0x61] ∈ validateLock plainRepository [] .all {[0x62]} ∧
      validateLock plainRepository [] .all {[0x62]} ≠ ∅ := by
  have hcreate : normalizeAllowedPaths id [[0x72]] [[0x62]] = .ok {[0x62]} := by decide +kernel
  obtain ⟨hsound, hviolation⟩ := guard_sound id [[0x72]] [[0x62]] plainRepository [] _ hcreate
  have hlisted : Listed plainRepository [] [[0x61]] := .inl ⟨by decide, rfl⟩
  have hname : ClearName (joined [[0x61]]) {[0x62]} :=
    .inl ⟨by decide, List.forall_mem_singleton.mpr rfl, by decide, by decide⟩
  have hout : ¬ Under [[0x61]] {[0x62]} := by
    rw [← isAllowedPath_iff]
    decide
  refine ⟨hcreate, hviolation _ hlisted hname hout, fun hempty => ?_⟩
  exact hout (hsound (fun _ => ⟨_, hlisted, hname, hout⟩) hempty _ (.inl (by decide)))

/-- `a` was moved to `b/a`, and only `b` may change. -/
def movedRepository : Repository Bool where
  head p := if p = [[0x61]] then some false else none
  index p := if p = [[0x62], [0x61]] then some false else none
  work p := if p = [[0x62], [0x61]] then some false else none
  ignored _ := false
  paths := [[[0x61]], [[0x62], [0x61]]]
  complete p hp := by simp_all
  stagedRenames := [([[0x61]], [[0x62], [0x61]])]
  staged_moved := by decide
  workRenames := []
  work_moved := by simp

/-- The deletion of the old name is not listed. -/
theorem rename_unseen :
    normalizeAllowedPaths id [[0x72]] [[0x62]] = .ok {[0x62]} ∧
      validateLock movedRepository [] .all {[0x62]} = ∅ ∧
      movedRepository.Differs [[0x61]] ∧ ¬ Under [[0x61]] {[0x62]} := by
  refine ⟨by decide +kernel, by decide +kernel, .inl (by decide), ?_⟩
  rw [← isAllowedPath_iff]
  decide

end NilsCli.ScopeLock
