import NilsCli.Lib.Reach
import NilsCli.Lib.Transition
import NilsCli.Lineage.Records

/-!
# Cycles of effective parents

Sessions start, and stewards are named, moved and cleared, in any order (`lineageSystem`).
-/

namespace NilsCli.Lineage

open Lib Coordination Relation

variable {α : Type} {m : Nat} {now : String}

variable {id createdAt launchId : String} {seed : LineageSeed} {record' : SessionRecord}

abbrev Key := String × String

def Parent (directory : Directory) (a b : Key) : Prop :=
  ∃ r ∈ directory, r.key = a ∧ ∃ ref, effectiveParent r = some ref ∧ ref.key = b

def OnChain (directory : Directory) (start : SessionRef) (key : Key) : Prop :=
  ReflTransGen (Parent directory) start.key key

def chainRef (directory : Directory) : Nat → SessionRef → Option SessionRef
  | 0, ref => some ref
  | n + 1, ref =>
    match directory.find? (·.key = ref.key) with
    | none => none
    | some record =>
      match effectiveParent record with
      | none => none
      | some next => chainRef directory n next

/-! ## The system -/

inductive LineageLabel
  | start (seed : LineageSeed) (id createdAt launchId : String)
  | adopt (machineIdentity : String) (caller : Caller) (args : LineageAdoptArgs) (now : String)

variable {label : LineageLabel}

inductive Seeded : LineageSeed → Prop
  | root (machine kind via : String) : Seeded (.root machine kind via)
  | child {machine parentMachine kind via : String} {parent : SessionRecord} {seed : LineageSeed}
      (h : LineageSeed.childOf machine parentMachine parent kind via = .ok seed) : Seeded seed

/-- A session starts, or `lineage adopt` succeeds. -/
inductive LineageStep (isTimestamp : String → Bool) : LineageLabel → Directory → Directory → Prop
  | start {seed : LineageSeed} {id createdAt launchId : String} {directory directory' : Directory}
      (hseed : Seeded seed) (h : start seed id createdAt launchId directory = .ok directory') :
      LineageStep isTimestamp (.start seed id createdAt launchId) directory directory'
  | adopt {machineIdentity : String} {caller : Caller} {args : LineageAdoptArgs} {now : String}
      {directory directory' : Directory}
      (h : adopt isTimestamp machineIdentity caller args now directory = .ok directory') :
      LineageStep isTimestamp (.adopt machineIdentity caller args now) directory directory'

def lineageSystem (isTimestamp : String → Bool) : Lts where
  State := Directory
  Label := LineageLabel
  init directory := directory = []
  step := LineageStep isTimestamp

/-! ## Steps that make no cycle -/

def WithinReach (directory : Directory) (steward : SessionRef) (key : Key) : Prop :=
  OnChain directory steward key →
    ∃ n ≤ maxDepth, ∃ ref, chainRef directory n steward = some ref ∧ ref.key = key

def Safe (isTimestamp : String → Bool) : LineageLabel → Directory → Prop
  | .start seed id createdAt _, directory =>
    (∀ r ∈ directory, ∀ ref, effectiveParent r = some ref → ref.key ≠ (id, createdAt)) ∧
      ∀ link, seed.parent = some link → link.parent.key ≠ (id, createdAt)
  | .adopt machineIdentity _ args _, directory =>
    ∀ steward child, namedSteward isTimestamp machineIdentity directory args = .ok steward →
      loadSessionRecord directory args.child = .ok child →
        match steward with
        | some steward => WithinReach directory steward child.key
        | none => ∀ parent, child.lineage.bind (·.parent) = some parent →
          ¬ OnChain directory parent child.key

/-- Ids are valid and unique. -/
structure Addressed (directory : Directory) : Prop where
  valid : ∀ r ∈ directory, validateId r.id = .ok ()
  nodup : (directory.map (·.id)).Nodup

section
variable {isTimestamp : String → Bool} {directory directory' : Directory} {record : SessionRecord}

theorem mem_of_load (h : loadSessionRecord directory id = .ok record) :
    record ∈ directory := by
  unfold loadSessionRecord at h
  cases hvalid : validateId id with
  | error e => rw [hvalid] at h; cases h
  | ok =>
    rw [hvalid] at h
    cases hfind : directory.find? (·.id = id) with
    | some found =>
      simp only [hfind, bind, Except.bind, Except.ok.injEq] at h
      exact h ▸ List.mem_of_find?_eq_some hfind
    | none =>
      simp only [hfind, bind, Except.bind] at h
      split at h
      next found hfilter =>
        cases h
        exact (List.mem_filter.mp (hfilter ▸ List.mem_singleton.mpr rfl)).1
      next => cases h
      next => cases h

theorem find_field [DecidableEq α] {f : SessionRecord → α} {a : α}
    (h : directory.find? (f · = a) = some record) : record ∈ directory ∧ f record = a :=
  ⟨List.mem_of_find?_eq_some h, by simpa using List.find?_some h⟩

theorem exists_find_field [DecidableEq α] {f : SessionRecord → α} (hr : record ∈ directory) :
    ∃ found ∈ directory, directory.find? (f · = f record) = some found ∧ f found = f record := by
  cases hfind : directory.find? (f · = f record) with
  | none => simpa using List.find?_eq_none.mp hfind _ hr
  | some found => exact ⟨found, (find_field hfind).1, rfl, (find_field hfind).2⟩

section

variable (h : Addressed directory)

include h

theorem Addressed.find_key (hr : record ∈ directory) :
    directory.find? (·.key = record.key) = some record := by
  obtain ⟨found, hmem, hfind, hkey⟩ := exists_find_field (f := SessionRecord.key) hr
  rw [hfind, eq_of_key_eq h.nodup hmem hr (congrArg Prod.fst hkey)]

theorem Addressed.load (hr : record ∈ directory) :
    loadSessionRecord directory record.id = .ok record := by
  obtain ⟨found, hmem, hfind, hid⟩ := exists_find_field (f := SessionRecord.id) hr
  unfold loadSessionRecord
  rw [h.valid record hr, hfind, eq_of_key_eq h.nodup hmem hr hid]
  rfl

/-! ## The walk of `reaches` -/

theorem onChain_iff {start : SessionRef} {key : Key} :
    OnChain directory start key ↔
      ∃ n ref, chainRef directory n start = some ref ∧ ref.key = key := by
  constructor
  · intro hchain
    unfold OnChain at hchain
    generalize hstart : start.key = a at hchain
    induction hchain using ReflTransGen.head_induction_on generalizing start with
    | refl => exact ⟨0, start, rfl, hstart⟩
    | head hab _ ih =>
      obtain ⟨r, hr, hkey, ref, hparent, hb⟩ := hab
      obtain ⟨n, last, hlast, hkey'⟩ := ih hb
      refine ⟨n + 1, last, ?_, hkey'⟩
      have hfind := h.find_key hr
      rw [hkey, ← hstart] at hfind
      simp only [chainRef, hfind, hparent, hlast]
  · rintro ⟨n, ref, hn, rfl⟩
    induction n generalizing start with
    | zero =>
      rw [Option.some.inj hn]
      exact .refl
    | succ n ih =>
      rw [chainRef] at hn
      split at hn
      next => cases hn
      next record hfind =>
        split at hn
        next => cases hn
        next next_ hparent =>
          obtain ⟨hmem, hkey⟩ := find_field hfind
          exact .head ⟨record, hmem, hkey, next_, hparent, rfl⟩ (ih hn)

/-- A session on the chain is found, if it is near enough. -/
theorem reachesWithin_of_chainRef {n : Nat}
    (hnm : n < m) {start ref : SessionRef} (hn : chainRef directory n start = some ref)
    (hkey : ref.key = (id, createdAt)) :
    reachesWithin directory id createdAt m (some start) = true := by
  induction n generalizing m start with
  | zero =>
    obtain ⟨m, rfl⟩ : ∃ m', m = m' + 1 := ⟨m - 1, by omega⟩
    rw [Option.some.inj hn]
    rw [reachesWithin, if_pos ⟨congrArg Prod.fst hkey, congrArg Prod.snd hkey⟩]
  | succ n ih =>
    obtain ⟨m, rfl⟩ : ∃ m', m = m' + 1 := ⟨m - 1, by omega⟩
    rw [chainRef] at hn
    split at hn
    next => cases hn
    next record hfind =>
      split at hn
      next => cases hn
      next next_ hparent =>
        obtain ⟨hmem, hrecord⟩ := find_field hfind
        have hload := h.load hmem
        rw [show record.id = start.sessionId from congrArg Prod.fst hrecord] at hload
        have hcreated : record.createdAt = start.sessionCreatedAt := congrArg Prod.snd hrecord
        rw [reachesWithin]
        split
        · rfl
        · simp only [hload, hcreated, ne_eq, not_true, if_false, hparent]
          exact ih (by omega) hn

end

def WholeIds (directory : Directory) (start : SessionRef) : Prop :=
  ∀ n ref record, chainRef directory n start = some ref →
    loadSessionRecord directory ref.sessionId = .ok record →
      record.createdAt = ref.sessionCreatedAt → record.id = ref.sessionId

theorem WholeIds.next {start next_ : SessionRef} (h : WholeIds directory start)
    (hfind : directory.find? (·.key = start.key) = some record)
    (hparent : effectiveParent record = some next_) : WholeIds directory next_ := by
  intro n ref loaded hn
  refine h (n + 1) ref loaded ?_
  simp only [chainRef, hfind, hparent, hn]

theorem chainRef_of_reachesWithin (h : Addressed directory)
    {start : SessionRef} (hwhole : WholeIds directory start)
    (hreach : reachesWithin directory id createdAt m (some start) = true) :
    ∃ n < m, ∃ ref, chainRef directory n start = some ref ∧ ref.key = (id, createdAt) := by
  induction m generalizing start with
  | zero => cases hreach
  | succ m ih =>
    rw [reachesWithin] at hreach
    split at hreach
    next hhere => exact ⟨0, Nat.succ_pos m, start, rfl, Prod.ext hhere.1 hhere.2⟩
    next =>
      split at hreach
      next => cases hreach
      next record hload =>
        split at hreach
        next => cases hreach
        next hcreated =>
          have hcreated : record.createdAt = start.sessionCreatedAt := not_not.mp hcreated
          have hid := hwhole 0 start record rfl hload hcreated
          have hfind := h.find_key (mem_of_load hload)
          rw [show record.key = start.key from Prod.ext hid hcreated] at hfind
          cases hparent : effectiveParent record with
          | none =>
            rw [hparent] at hreach
            cases m <;> cases hreach
          | some next_ =>
            rw [hparent] at hreach
            obtain ⟨n, hn, ref, hchain, hkey⟩ := ih (hwhole.next hfind hparent) hreach
            refine ⟨n + 1, Nat.succ_lt_succ hn, ref, ?_, hkey⟩
            simp only [chainRef, hfind, hparent, hchain]

theorem reaches_exact_iff (h : Addressed directory) {start : SessionRef}
    (hwhole : WholeIds directory start) :
    (reaches directory start id createdAt = true ↔ OnChain directory start (id, createdAt)) ↔
      WithinReach directory start (id, createdAt) := by
  constructor
  · intro hexact hchain
    obtain ⟨n, hn, hrest⟩ := chainRef_of_reachesWithin h hwhole (hexact.mpr hchain)
    exact ⟨n, Nat.le_of_lt_succ hn, hrest⟩
  · intro hwithin
    constructor
    · intro hreach
      obtain ⟨n, -, ref, hchain, hkey⟩ := chainRef_of_reachesWithin h hwhole hreach
      exact (onChain_iff h).mpr ⟨n, ref, hchain, hkey⟩
    · intro hchain
      obtain ⟨n, hn, ref, href, hkey⟩ := hwithin hchain
      exact reachesWithin_of_chainRef h (Nat.lt_succ_of_le hn) href hkey

/-! ## The steps -/

theorem start_eq (h : start seed id createdAt launchId directory = .ok directory') :
    validateId id = .ok () ∧ (∀ r ∈ directory, r.id ≠ id) ∧
      directory' = directory ++ [newRecord seed id createdAt launchId] := by
  unfold start at h
  split at h
  next => cases h
  next hvalid =>
    split at h
    next => cases h
    next hnew =>
      refine ⟨hvalid, fun r hr hid => hnew ?_, (Except.ok.inj h).symm⟩
      exact List.any_eq_true.mpr ⟨r, hr, decide_eq_true hid⟩

theorem adoptRecord_eq {steward : Option SessionRef} {ifRevision : Option Nat}
    (h : adoptRecord directory steward ifRevision now record = .ok record') :
    (∀ s, steward = some s → reaches directory s record.id record.createdAt = false) ∧
      ∃ revision, record' =
        { record with lineageAdoption := some ⟨steward, revision, now⟩, updatedAt := now } := by
  unfold adoptRecord at h
  split at h
  next => cases h
  next hfree =>
    dsimp only at h
    split at h
    next => cases h
    next =>
      refine ⟨?_, _, (Except.ok.inj h).symm⟩
      rintro s rfl
      simpa using hfree

theorem adopt_eq {machineIdentity : String} {caller : Caller} {args : LineageAdoptArgs}
    (h : adopt isTimestamp machineIdentity caller args now directory = .ok directory') :
    ∃ steward child revision,
      namedSteward isTimestamp machineIdentity directory args = .ok steward ∧
      loadSessionRecord directory args.child = .ok child ∧
      (∀ s, steward = some s → reaches directory s child.id child.createdAt = false) ∧
      directory' = directory.write
        { child with lineageAdoption := some ⟨steward, revision, now⟩, updatedAt := now } := by
  unfold adopt at h
  cases hvalid : validateId args.child with
  | error e => rw [hvalid] at h; cases h
  | ok =>
    cases hsteward : namedSteward isTimestamp machineIdentity directory args with
    | error e => rw [hvalid, hsteward] at h; cases h
    | ok steward =>
      cases hmay : mayAdopt caller args steward with
      | false => simp [hvalid, hsteward, hmay, bind, Except.bind] at h
      | true =>
        cases hload : loadSessionRecord directory args.child with
        | error e => simp [hvalid, hsteward, hmay, hload, bind, Except.bind] at h
        | ok child =>
          cases hadopt : adoptRecord directory steward args.ifRevision now child with
          | error e => simp [hvalid, hsteward, hmay, hload, hadopt, bind, Except.bind] at h
          | ok record =>
            simp only [hvalid, hsteward, hmay, hload, hadopt, bind, Except.bind, if_true, pure,
              Except.pure, Except.ok.injEq] at h
            obtain ⟨hfree, revision, rfl⟩ := adoptRecord_eq hadopt
            exact ⟨steward, child, revision, rfl, rfl, hfree, h.symm⟩

theorem parent_write {a b : Key} (h : Parent (directory.write record') a b) :
    Parent directory a b ∨
      a = record'.key ∧ ∃ ref, effectiveParent record' = some ref ∧ ref.key = b := by
  obtain ⟨r, hr, rfl, ref, hparent, rfl⟩ := h
  obtain ⟨old, hold, rfl⟩ := List.mem_map.mp hr
  split at hparent
  next hid =>
    rw [if_pos hid]
    exact .inr ⟨rfl, ref, hparent, rfl⟩
  next hid =>
    rw [if_neg hid]
    exact .inl ⟨old, hold, rfl, ref, hparent, rfl⟩

theorem Addressed.write (h : Addressed directory) (hr : record ∈ directory)
    (hid : record'.id = record.id) :
    Addressed (directory.write record') := by
  have hids : (directory.write record').map (·.id) = directory.map (·.id) := by
    rw [Directory.write, List.map_map]
    refine List.map_congr_left fun r _ => ?_
    rw [Function.comp_apply]
    split
    next heq => exact heq.symm
    next => rfl
  refine ⟨fun r hr' => ?_, by rw [hids]; exact h.nodup⟩
  obtain ⟨old, hold, rfl⟩ := List.mem_map.mp hr'
  split
  next =>
    rw [hid]
    exact h.valid record hr
  next => exact h.valid old hold

theorem Addressed.start (h : Addressed directory) (hvalid : validateId id = .ok ())
    (hnew : ∀ r ∈ directory, r.id ≠ id) :
    Addressed (directory ++ [newRecord seed id createdAt launchId]) := by
  refine ⟨fun r hr => ?_, ?_⟩
  · rcases List.mem_append.mp hr with hr | hr
    · exact h.valid r hr
    · rw [List.mem_singleton.mp hr]
      exact hvalid
  · rw [List.map_append, List.map_singleton]
    refine List.nodup_append.mpr ⟨h.nodup, List.nodup_singleton _, ?_⟩
    rintro _ hmem _ hlast rfl
    obtain ⟨r, hr, hid⟩ := List.mem_map.mp hmem
    exact hnew r hr (hid.trans (List.mem_singleton.mp hlast))

theorem addressed_step (h : Addressed directory)
    (hstep : LineageStep isTimestamp label directory directory') : Addressed directory' := by
  cases hstep with
  | start _ hstart =>
    obtain ⟨hvalid, hnew, rfl⟩ := start_eq hstart
    exact h.start hvalid hnew
  | adopt hadopt =>
    obtain ⟨_, child, _, -, hload, -, rfl⟩ := adopt_eq hadopt
    exact h.write (mem_of_load hload) rfl

theorem acyclic_start (hacyclic : Acyclic (Parent directory))
    (hnamed : ∀ r ∈ directory, ∀ ref, effectiveParent r = some ref → ref.key ≠ (id, createdAt))
    (hown : ∀ link, seed.parent = some link → link.parent.key ≠ (id, createdAt)) :
    Acyclic (Parent (directory ++ [newRecord seed id createdAt launchId])) := by
  refine hacyclic.redirect (x := (id, createdAt))
    (T := fun b => ∃ link, seed.parent = some link ∧ link.parent.key = b) ?_ ?_
  · rintro a b ⟨r, hr, rfl, ref, hparent, rfl⟩
    rcases List.mem_append.mp hr with hr | hr
    · exact .inl ⟨r, hr, rfl, ref, hparent, rfl⟩
    · rw [List.mem_singleton.mp hr] at hparent ⊢
      refine .inr ⟨rfl, ?_⟩
      cases hseed : seed.parent with
      | none => simp [effectiveParent, newRecord, LineageSeed.finalize, hseed] at hparent
      | some link =>
        simp only [effectiveParent, newRecord, LineageSeed.finalize, hseed, Option.bind_some,
          Option.some.injEq] at hparent
        exact ⟨link, rfl, by rw [hparent]⟩
  · rintro _ ⟨link, hlink, rfl⟩ hreach
    -- no edge leads to the new session, so it would be its own parent
    rcases ReflTransGen.cases_tail hreach with heq | ⟨_, -, r, hr, -, ref, hparent, hkey⟩
    · exact hown link hlink heq.symm
    · exact hnamed r hr ref hparent hkey

/-- A step that meets the condition makes no cycle. -/
theorem acyclic_step (h : Addressed directory)
    (hacyclic : Acyclic (Parent directory)) (hsafe : Safe isTimestamp label directory)
    (hstep : LineageStep isTimestamp label directory directory') :
    Acyclic (Parent directory') := by
  cases hstep with
  | start _ hstart =>
    obtain ⟨-, -, rfl⟩ := start_eq hstart
    exact acyclic_start hacyclic hsafe.1 hsafe.2
  | adopt hadopt =>
    obtain ⟨steward, child, revision, hsteward, hload, hfree, rfl⟩ := adopt_eq hadopt
    have hchild := hsafe steward child hsteward hload
    refine hacyclic.redirect (fun a b hab => parent_write hab) ?_
    rintro _ ⟨ref, hparent, rfl⟩ hchain
    cases steward with
    | some steward =>
      have href : ref = steward := (Option.some.inj hparent).symm
      subst href
      obtain ⟨n, hn, last, hlast, hkey⟩ := hchild hchain
      have hfound := reachesWithin_of_chainRef h (Nat.lt_succ_of_le hn) hlast hkey
      exact absurd (hfree ref rfl) (by rw [reaches, hfound]; simp)
    | none => exact hchild ref hparent hchain

/-- In a run whose steps all meet the condition, no session is its own effective ancestor, and
`reaches` is exact where it goes far enough. -/
theorem effective_parents_acyclic
    (h : ((lineageSystem isTimestamp).restrict (Safe isTimestamp)).Reach directory) :
    (∀ r ∈ directory, ¬ TransGen (Parent directory) r.key r.key) ∧
      ∀ start id createdAt, WholeIds directory start →
        ((reaches directory start id createdAt = true ↔ OnChain directory start (id, createdAt)) ↔
          WithinReach directory start (id, createdAt)) := by
  have hinv : Addressed directory ∧ Acyclic (Parent directory) := by
    refine Lts.Reach.invariant
      (I := fun directory : Directory => Addressed directory ∧ Acyclic (Parent directory)) ?_ ?_ h
    · rintro _ rfl
      refine ⟨⟨by simp, List.nodup_nil⟩, fun a hcycle => ?_⟩
      obtain ⟨_, ⟨r, hr, -⟩, -⟩ := TransGen.head'_iff.mp hcycle
      cases hr
    · rintro label directory directory' ⟨haddressed, hacyclic⟩ ⟨hsafe, hstep⟩
      exact ⟨addressed_step haddressed hstep, acyclic_step haddressed hacyclic hsafe hstep⟩
  exact ⟨fun r _ => hinv.2 r.key, fun start id createdAt hwhole => reaches_exact_iff hinv.1 hwhole⟩

end

/-! ## An example -/

def sampleRoot : LineageSeed := .root "host" "operator" "cli"

/-- A child of the root session `a`. -/
def sampleChild : LineageSeed where
  machine := "host"
  parent := some
    { parent := ⟨"host", "a", "2026-01-01T00:00:00Z", some "la"⟩
      root := ⟨"host", "a", "2026-01-01T00:00:00Z", none⟩
      depth := 1 }
  starter := ⟨"session", "cli"⟩

def sampleDirectory : Directory :=
  [newRecord sampleRoot "a" "2026-01-01T00:00:00Z" "la",
    newRecord sampleChild "b" "2026-01-01T00:00:01Z" "lb",
    newRecord sampleRoot "c" "2026-01-01T00:00:02Z" "lc"]

def sampleArgs (child : String) (steward : Option String) : LineageAdoptArgs :=
  ⟨child, steward, none, none, none⟩

/-- An operator's command. -/
def sampleAdopt (child : String) (steward : Option String) (directory : Directory) :
    Except CliError Directory :=
  adopt (fun _ => true) "host" .operator (sampleArgs child steward) "2026-01-02T00:00:00Z" directory

def sampleClear : Except CliError Directory := do
  let adopted ← sampleAdopt "b" (some "c") sampleDirectory
  let moved ← sampleAdopt "a" (some "b") adopted
  sampleAdopt "b" none moved

theorem seeded_sampleChild : Seeded sampleChild := by
  have hchild : LineageSeed.childOf "host" "host" (newRecord sampleRoot "a" "2026-01-01T00:00:00Z" "la")
      "session" "cli" = .ok sampleChild := by
    have hlaunch : launchIdOf (newRecord sampleRoot "a" "2026-01-01T00:00:00Z" "la") = some "la" := by
      decide
    simp only [LineageSeed.childOf, SessionRef.of, hlaunch]
    rfl
  exact .child hchild

theorem reach_start {directory : Directory}
    (h : ((lineageSystem fun _ => true).restrict (Safe fun _ => true)).Reach directory)
    (directory' : Directory) (seed : LineageSeed) (id createdAt launchId : String)
    (hseed : Seeded seed)
    (hnamed : ∀ r ∈ directory, ∀ ref, effectiveParent r = some ref → ref.key ≠ (id, createdAt))
    (hown : ∀ link, seed.parent = some link → link.parent.key ≠ (id, createdAt))
    (hstart : start seed id createdAt launchId directory = .ok directory') :
    ((lineageSystem fun _ => true).restrict (Safe fun _ => true)).Reach directory' :=
  h.next (l := LineageLabel.start seed id createdAt launchId) ⟨⟨hnamed, hown⟩, .start hseed hstart⟩

theorem reach_sampleDirectory :
    ((lineageSystem fun _ => true).restrict (Safe fun _ => true)).Reach sampleDirectory := by
  have hempty : ((lineageSystem fun _ => true).restrict (Safe fun _ => true)).Reach
      ([] : Directory) := .init rfl
  have hroot : ∀ link, sampleRoot.parent = some link → False := by
    simp [sampleRoot, LineageSeed.root]
  have hfirst := reach_start hempty (sampleDirectory.take 1) sampleRoot "a" "2026-01-01T00:00:00Z"
    "la" (.root _ _ _) (by simp) (fun link hlink => (hroot link hlink).elim) (by decide)
  have hsecond := reach_start hfirst (sampleDirectory.take 2) sampleChild "b"
    "2026-01-01T00:00:01Z" "lb" seeded_sampleChild
    (by simp [sampleDirectory, newRecord, effectiveParent, LineageSeed.finalize, sampleRoot,
      LineageSeed.root]) (by simp [sampleChild, SessionRef.key]) (by decide)
  exact reach_start hsecond sampleDirectory sampleRoot "c" "2026-01-01T00:00:02Z" "lc"
    (.root _ _ _) (by simp [sampleDirectory, newRecord, effectiveParent, LineageSeed.finalize,
      sampleRoot, LineageSeed.root, sampleChild, SessionRef.key])
    (fun link hlink => (hroot link hlink).elim) (by decide)

/-- `b` may go to `c`, which leads nowhere. -/
theorem safe_sampleAdopt : Safe (fun _ => true)
    (.adopt "host" .operator (sampleArgs "b" (some "c")) "2026-01-02T00:00:00Z") sampleDirectory := by
  intro steward child hsteward hload
  have hnamed : namedSteward (fun _ => true) "host" sampleDirectory (sampleArgs "b" (some "c")) =
      .ok (some ⟨"host", "c", "2026-01-01T00:00:02Z", some "lc"⟩) := by decide
  have hchild : loadSessionRecord sampleDirectory (sampleArgs "b" (some "c")).child =
      .ok (newRecord sampleChild "b" "2026-01-01T00:00:01Z" "lb") := by decide
  cases hnamed.symm.trans hsteward
  cases hchild.symm.trans hload
  intro hchain
  rcases ReflTransGen.cases_head hchain with heq | ⟨_, ⟨r, hr, hkey, ref, hparent, -⟩, -⟩
  · exact absurd heq (by decide)
  · have hroot : ∀ r ∈ sampleDirectory, r.key = ("c", "2026-01-01T00:00:02Z") →
        effectiveParent r = none := by decide
    rw [hroot r hr hkey] at hparent
    cases hparent

theorem effective_parents_acyclic_sample :
    ∃ directory : Directory, sampleAdopt "b" (some "c") sampleDirectory = .ok directory ∧
      ∀ r ∈ directory, ¬ TransGen (Parent directory) r.key r.key := by
  cases hadopt : sampleAdopt "b" (some "c") sampleDirectory with
  | error e =>
    have hok : (sampleAdopt "b" (some "c") sampleDirectory).toBool = true := by decide
    rw [hadopt] at hok
    cases hok
  | ok directory =>
    exact ⟨directory, rfl, (effective_parents_acyclic
      (reach_sampleDirectory.next ⟨safe_sampleAdopt, .adopt hadopt⟩)).1⟩

theorem clearing_makes_cycle : ∃ directory : Directory, (lineageSystem fun _ => true).Reach directory ∧
    ∃ r ∈ directory, TransGen (Parent directory) r.key r.key := by
  have hkeys : (sampleClear.toOption.map fun directory =>
      directory.map fun r => (r.key, (effectiveParent r).map (·.key))) =
        some [(("a", "2026-01-01T00:00:00Z"), some ("b", "2026-01-01T00:00:01Z")),
          (("b", "2026-01-01T00:00:01Z"), some ("a", "2026-01-01T00:00:00Z")),
          (("c", "2026-01-01T00:00:02Z"), none)] := by decide
  unfold sampleClear at hkeys
  cases hadopted : sampleAdopt "b" (some "c") sampleDirectory with
  | error e => rw [hadopted] at hkeys; cases hkeys
  | ok adopted =>
    cases hmoved : sampleAdopt "a" (some "b") adopted with
    | error e => simp [hadopted, hmoved, bind, Except.bind, Except.toOption] at hkeys
    | ok moved =>
      cases hcleared : sampleAdopt "b" none moved with
      | error e => simp [hadopted, hmoved, hcleared, bind, Except.bind, Except.toOption] at hkeys
      | ok directory =>
        simp only [hadopted, hmoved, hcleared, bind, Except.bind, Except.toOption, Option.map_some,
          Option.some.injEq] at hkeys
        have hreach : (lineageSystem fun _ => true).Reach directory :=
          ((reach_sampleDirectory.of_restrict.next (.adopt hadopted)).next (.adopt hmoved)).next
            (.adopt hcleared)
        have hparent : ∀ a b, (a, some b) ∈ directory.map
            (fun r => (r.key, (effectiveParent r).map (·.key))) → Parent directory a b := by
          intro a b hmem
          obtain ⟨r, hr, heq⟩ := List.mem_map.mp hmem
          obtain ⟨ref, href, hb⟩ := Option.map_eq_some_iff.mp (congrArg Prod.snd heq)
          exact ⟨r, hr, congrArg Prod.fst heq, ref, href, hb⟩
        have hab := hparent ("a", "2026-01-01T00:00:00Z") ("b", "2026-01-01T00:00:01Z")
          (by rw [hkeys]; simp)
        have hba := hparent ("b", "2026-01-01T00:00:01Z") ("a", "2026-01-01T00:00:00Z")
          (by rw [hkeys]; simp)
        have hbegin := hab
        obtain ⟨r, hr, hkey, -⟩ := hbegin
        refine ⟨directory, hreach, r, hr, ?_⟩
        rw [hkey]
        exact .tail (.single hab) hba

end NilsCli.Lineage
