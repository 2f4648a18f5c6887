import NilsCli.FinishLine.Ownership

/-!
# The owner file

The main file on the disk says nothing of the owners of its sessions; they are in a file of their
own, which binds each owner to the capability and the incarnation of its session.
-/

namespace NilsCli.FinishLine

open Lib List

variable {valid : OwnerProcess → Prop}

variable (host : Host) (parsesUuid : String → Bool)

/-! ## Bindings -/

structure OwnerBinding where
  sessionKey : String
  capabilityDigest : String
  incarnation : Nat
  owner : OwnerProcess

abbrev OwnerRegistry := Table String OwnerBinding

def OwnerProcess.wellFormed (owner : OwnerProcess) : Bool :=
  owner.pid ≠ 0 && owner.pid ≤ 2 ^ 31 - 1 && owner.startTicks ≠ 0 && owner.namespaceIno ≠ 0 &&
    parsesUuid owner.bootId

/-- The key of a binding. -/
def OwnerBinding.key (binding : OwnerBinding) : String :=
  host.releasedSessionKey binding.sessionKey binding.capabilityDigest

/-- The binding of a session that has an owner. -/
def SessionState.binding (key : String) (session : SessionState) : Option OwnerBinding :=
  match session.ownerProcess, session.runnerCapabilityDigest,
      session.runnerCapabilityIncarnation with
  | some owner, some digest, some incarnation => some ⟨key, digest, incarnation, owner⟩
  | _, _, _ => none

def bindingOf (registry : OwnerRegistry) (key : String) (session : SessionState) :
    Option OwnerBinding :=
  match session.runnerCapabilityDigest, session.runnerCapabilityIncarnation with
  | some digest, some incarnation =>
    (registry.lookup (host.releasedSessionKey key digest)).filter fun binding =>
      binding.sessionKey = key && binding.capabilityDigest = digest &&
        binding.incarnation = incarnation
  | _, _ => none

def State.bindings (main : State) (f : String → SessionState → Option OwnerBinding) :
    List (String × OwnerBinding) :=
  main.sessions.entries.filterMap fun row =>
    (f row.1 row.2).map fun binding => (binding.key host, binding)

/-! ## The store -/

structure Disk where
  main : State
  owners : OwnerRegistry

/-- The owner is not serialized. -/
def SessionState.stored (session : SessionState) : SessionState :=
  { session with ownerProcess := none }

/-- The main state as it is written. -/
def State.stored (main : State) : State :=
  { main with sessions := main.sessions.mapVal fun _ session => session.stored }

/-- The session with the owner of its binding. -/
def SessionState.attach (session : SessionState) (binding : Option OwnerBinding) : SessionState :=
  match binding with
  | some binding => { session with ownerProcess := some binding.owner }
  | none => session

def ownerUnavailable : HookError :=
  hookError "finish-line-owner-invalid"
    "finish-line owner must be a verifiable live same-user caller ancestor"

/-- `Store::open`, with `owner::load`: the main state with its owners, and the bindings that
match. -/
def Disk.open (disk : Disk) : Except HookError (State × OwnerRegistry) := do
  ensure (disk.owners.size ≤ maxSessions * 2) ownerUnavailable
  ensure (∀ binding ∈ disk.owners.values,
    binding.owner.wellFormed parsesUuid ∧ binding.incarnation ≠ 0) ownerUnavailable
  .ok ({ disk.main with
      sessions := disk.main.sessions.mapVal fun key session =>
        session.attach (bindingOf host disk.owners key session) },
    Table.insertAll (disk.main.bindings host (bindingOf host disk.owners)) ∅)

/-- The bindings of `owner::save`. -/
def prospective (initial : OwnerRegistry) (main : State) : OwnerRegistry :=
  initial.insertAll (main.bindings host SessionState.binding)

/-- `Store::save`, with `owner::save`, where `initial` are the bindings that matched at the
opening. -/
def Disk.save (initial : OwnerRegistry) (main : State) : Durable Disk HookError Unit := do
  Durable.lift (ensure ((prospective host initial main).size ≤ maxSessions * 2) ownerUnavailable)
  Durable.write fun disk => { disk with owners := prospective host initial main }
  Durable.write fun disk => { disk with main := main.stored }

/-! ## Runs -/

/-- The disk, and the main states that have been saved to their end, the last one first. -/
structure SaveHistory where
  disk : Disk
  commits : List State

variable {history : SaveHistory}

def SaveHistory.start : SaveHistory := ⟨⟨.new, ∅⟩, [.new]⟩

structure Saving where
  call : Call
  /-- The acceptance file that the call finds. -/
  acceptance : AcceptanceState
  /-- Which of the states that the call leaves is saved. -/
  moment : Nat
  /-- How many of the writes of the save are made. -/
  writes : Nat

/-- What a save of `main` leaves. -/
def SaveHistory.save (history : SaveHistory) (initial : OwnerRegistry) (main : State) (writes : Nat) :
    SaveHistory :=
  let (trace, result) := Disk.save host initial main history.disk
  { disk := Durable.lastOf (trace.take writes) history.disk
    commits := if result.toBool ∧ trace.length ≤ writes then main :: history.commits
      else history.commits }

def SaveHistory.saved (history : SaveHistory) (saving : Saving) :
    Option (State × OwnerRegistry) :=
  match history.disk.open host parsesUuid with
  | .ok (main, initial) =>
    if saving.call.owner.all (·.wellFormed parsesUuid) then
      (saving.call.run host ⟨main, saving.acceptance⟩).1[saving.moment]?.map fun files =>
        (files.main, initial)
    else none
  | .error _ => none

def SaveHistory.next (history : SaveHistory) (saving : Saving) : Option SaveHistory :=
  (history.saved host parsesUuid saving).map fun found =>
    history.save host found.2 found.1 saving.writes

def ownerFile : Lts where
  State := SaveHistory
  Label := Saving
  init history := history = .start
  step saving history history' := history.next host parsesUuid saving = some history'

/-! ## What the bindings say -/

section
variable {host parsesUuid} {main main' : State} {key : String} {session : SessionState}
  {binding : OwnerBinding}

theorem SessionState.binding_eq_some :
    session.binding key = some binding ↔ key = binding.sessionKey ∧
      session.ownership =
        (some binding.owner, some binding.capabilityDigest, some binding.incarnation) := by
  unfold SessionState.binding SessionState.ownership
  constructor
  · intro h
    split at h
    · rename_i howner hdigest hincarnation
      cases h
      exact ⟨rfl, by rw [howner, hdigest, hincarnation]⟩
    · cases h
  · rintro ⟨rfl, h⟩
    rw [Prod.mk.injEq, Prod.mk.injEq] at h
    rw [h.1, h.2.1, h.2.2]

theorem State.mem_bindings {f : String → SessionState → Option OwnerBinding}
    {row : String × OwnerBinding} : row ∈ main.bindings host f ↔ ∃ key session,
      main.sessions.lookup key = some session ∧ f key session = some row.2 ∧
        row.1 = row.2.key host := by
  unfold State.bindings
  rw [mem_filterMap]
  constructor
  · rintro ⟨entry, hentry, h⟩
    obtain ⟨binding, hbinding, rfl⟩ := Option.map_eq_some_iff.mp h
    exact ⟨entry.1, entry.2, Table.lookup_eq_some_iff.mpr hentry, hbinding, rfl⟩
  · rintro ⟨key, session, hsession, hbinding, hkey⟩
    refine ⟨⟨key, session⟩, Table.lookup_eq_some_iff.mp hsession, ?_⟩
    rw [hbinding, Option.map_some, ← hkey]

theorem State.bindings_length (main : State) (host : Host)
    (f : String → SessionState → Option OwnerBinding) : (main.bindings host f).length ≤ main.sessions.size :=
  length_filterMap_le _ _

def State.registry (host : Host) (main : State) : OwnerRegistry :=
  Table.insertAll (main.bindings host SessionState.binding) ∅

/-- The registry has, for each session, the binding that the session itself asks for. -/
def Exact (host : Host) (registry : OwnerRegistry) (main : State) : Prop :=
  ∀ key session, main.sessions.lookup key = some session →
    bindingOf host registry key session = session.binding key

/-- The bindings that match are those of the main state. -/
theorem Exact.bindings_eq {registry : OwnerRegistry} (h : Exact host registry main) :
    main.stored.bindings host (bindingOf host registry) =
      main.bindings host SessionState.binding := by
  unfold State.bindings State.stored Table.mapVal
  rw [filterMap_map]
  refine filterMap_congr fun row hrow => ?_
  have hrow' := h row.1 row.2 (Table.lookup_eq_some_iff.mpr hrow)
  show (bindingOf host registry row.1 row.2.stored).map _ = _
  rw [← hrow']
  rfl

/-- A session that has an owner has a capability. -/
theorem State.Evolves.owner_eq_none
    (h : main.Evolves host valid .new) (hsession : main.sessions.lookup key = some session)
    (hbinding : session.binding key = none) : session.ownerProcess = none := by
  cases h.sessions key session hsession with
  | kept hold _ => cases hold
  | unbound h => exact congrArg (·.1) h
  | @granted owner token incarnation _ _ h _ =>
    cases owner with
    | none => exact congrArg (·.1) h
    | some owner =>
      have hsome : session.binding key = some ⟨key, _, incarnation, owner⟩ :=
        SessionState.binding_eq_some.mpr ⟨rfl, h⟩
      cases hbinding.symm.trans hsome

theorem SessionState.attach_binding (h : session.binding key = none → session.ownerProcess = none) :
    session.stored.attach (session.binding key) = session := by
  cases hbinding : session.binding key with
  | none =>
    have howner := h hbinding
    show session.stored = session
    unfold SessionState.stored
    rw [← howner]
  | some binding =>
    have hownership := (SessionState.binding_eq_some.mp hbinding).2
    have howner : session.ownerProcess = some binding.owner := congrArg (·.1) hownership
    show ({ session.stored with ownerProcess := some binding.owner } : SessionState) = session
    rw [← howner]
    rfl

theorem Exact.attached {registry : OwnerRegistry}
    (h : Exact host registry main) (hmain : main.Evolves host valid .new) :
    (main.stored.sessions.mapVal fun key session =>
      session.attach (bindingOf host registry key session)) = main.sessions := by
  refine AList.ext ?_
  show (main.sessions.entries.map _).map _ = _
  rw [map_map]
  refine (map_congr_left fun row hrow => ?_).trans (map_id _)
  obtain ⟨key, session⟩ := row
  have hsession := Table.lookup_eq_some_iff.mpr hrow
  have hbinding : bindingOf host registry key session.stored = session.binding key :=
    h key session hsession
  show (⟨key, session.stored.attach (bindingOf host registry key session.stored)⟩ :
    Sigma fun _ : String => SessionState) = ⟨key, session⟩
  rw [hbinding, SessionState.attach_binding (hmain.owner_eq_none hsession)]

/-- A registry that may be opened: within the limit, with owners that are well formed. -/
structure Sound (parsesUuid : String → Bool) (registry : OwnerRegistry) : Prop where
  size : registry.size ≤ maxSessions * 2
  wellFormed : ∀ binding ∈ registry.values,
    binding.owner.wellFormed parsesUuid ∧ binding.incarnation ≠ 0

theorem Exact.open {registry : OwnerRegistry}
    (h : Exact host registry main) (hmain : main.Evolves host valid .new)
    (hsound : Sound parsesUuid registry) :
    Disk.open host parsesUuid ⟨main.stored, registry⟩ = .ok (main, main.registry host) := by
  unfold Disk.open
  rw [ensure_bind_ok, ensure_bind_ok]
  refine ⟨hsound.size, hsound.wellFormed, ?_⟩
  dsimp only
  rw [h.attached hmain, h.bindings_eq]
  rfl

/-! ## Both states of a save -/

def AgreeWith (main main' : State) : Prop :=
  ∀ key session session' digest, main.sessions.lookup key = some session →
    main'.sessions.lookup key = some session' → session.runnerCapabilityDigest = some digest →
      session'.runnerCapabilityDigest = some digest → session.ownership = session'.ownership

theorem AgreeWith.symm (h : AgreeWith main main') : AgreeWith main' main :=
  fun key session session' digest hsession hsession' hdigest hdigest' =>
    (h key session' session digest hsession' hsession hdigest' hdigest).symm

theorem AgreeWith.refl (main : State) : AgreeWith main main :=
  fun _ _ _ _ hsession hsession' _ _ => by
    cases hsession.symm.trans hsession'
    rfl

theorem lookup_prospective {found : String}
    (h : (prospective host (main.registry host) main').lookup found = some binding) :
    ∃ m, (m = main ∨ m = main') ∧ ∃ key session, m.sessions.lookup key = some session ∧
      session.binding key = some binding ∧ found = binding.key host := by
  rcases Table.lookup_insertAll h with hnew | hinitial
  · exact ⟨main', .inr rfl, State.mem_bindings.mp hnew⟩
  · rcases Table.lookup_insertAll hinitial with hold | hnone
    · exact ⟨main, .inl rfl, State.mem_bindings.mp hold⟩
    · cases hnone

theorem isSome_prospective {m : State} (hm : m = main ∨ m = main')
    (hsession : m.sessions.lookup key = some session)
    (hbinding : session.binding key = some binding) :
    ((prospective host (main.registry host) main').lookup (binding.key host)).isSome := by
  have hrow : binding.key host ∈ (m.bindings host SessionState.binding).map (·.1) :=
    List.mem_map.mpr ⟨(binding.key host, binding),
      State.mem_bindings.mpr ⟨key, session, hsession, hbinding, rfl⟩, rfl⟩
  rcases hm with rfl | rfl
  · exact Table.isSome_lookup_insertAll (.inr (Table.isSome_lookup_insertAll (.inl hrow)))
  · exact Table.isSome_lookup_insertAll (.inl hrow)

theorem prospective_exact (hkeys : ∀ key digest key' digest', host.releasedSessionKey key digest =
      host.releasedSessionKey key' digest' → key = key' ∧ digest = digest')
    (hagree : AgreeWith main main') {m : State} (hm : m = main ∨ m = main') :
    Exact host (prospective host (main.registry host) main') m := by
  intro key session hsession
  cases hdigest : session.runnerCapabilityDigest with
  | none => simp [bindingOf, SessionState.binding, hdigest]
  | some digest =>
    cases hincarnation : session.runnerCapabilityIncarnation with
    | none => simp [bindingOf, SessionState.binding, hdigest, hincarnation]
    | some incarnation =>
      unfold bindingOf
      rw [hdigest, hincarnation]
      dsimp only
      cases hfound : (prospective host (main.registry host) main').lookup
          (host.releasedSessionKey key digest) with
      | none =>
        cases hbinding : session.binding key with
        | none => rfl
        | some binding =>
          -- a session with an owner would have been found
          have hsome : ((prospective host (main.registry host) main').lookup
            (binding.key host)).isSome := isSome_prospective hm hsession hbinding
          obtain ⟨hkey, hownership⟩ := SessionState.binding_eq_some.mp hbinding
          have hsame := Option.some.inj (hdigest.symm.trans (congrArg (·.2.1) hownership))
          rw [OwnerBinding.key, ← hkey, ← hsame, hfound] at hsome
          cases hsome
      | some binding =>
        obtain ⟨m', hm', key', session', hsession', hbinding, hfoundKey⟩ := lookup_prospective hfound
        obtain ⟨hkey', hownership⟩ := SessionState.binding_eq_some.mp hbinding
        obtain ⟨rfl, rfl⟩ := hkeys _ _ _ _ hfoundKey
        rw [hkey'] at hsession'
        have hdigest' : session'.runnerCapabilityDigest = some binding.capabilityDigest :=
          congrArg (·.2.1) hownership
        have hsame : session.ownership = session'.ownership := by
          rcases hm with rfl | rfl <;> rcases hm' with rfl | rfl
          · exact AgreeWith.refl _ _ _ _ _ hsession hsession' hdigest hdigest'
          · exact hagree _ _ _ _ hsession hsession' hdigest hdigest'
          · exact hagree.symm _ _ _ _ hsession hsession' hdigest hdigest'
          · exact AgreeWith.refl _ _ _ _ _ hsession hsession' hdigest hdigest'
        have hequal := hsame.trans hownership
        have hincarnation' := Option.some.inj
          (hincarnation.symm.trans (congrArg (·.2.2) hequal))
        rw [SessionState.binding_eq_some.mpr ⟨rfl, hequal⟩]
        simp [Option.filter, hincarnation']

theorem prospective_sound (hmain : main.Evolves host (·.wellFormed parsesUuid) .new)
    (hmain' : main'.Evolves host (·.wellFormed parsesUuid) .new) :
    Sound parsesUuid (prospective host (main.registry host) main') where
  size := by
    have hold : (main.registry host).size ≤ 0 + _ := Table.size_insertAll_le _ _
    have hnew : (prospective host (main.registry host) main').size ≤ _ + _ :=
      Table.size_insertAll_le _ _
    have hlength := main.bindings_length host SessionState.binding
    have hlength' := main'.bindings_length host SessionState.binding
    have hsize : main.sessions.size ≤ maxSessions := hmain.size
    have hsize' : main'.sessions.size ≤ maxSessions := hmain'.size
    omega
  wellFormed binding hbinding := by
    obtain ⟨found, hfound⟩ := Table.mem_values_iff.mp hbinding
    obtain ⟨m, hm, key, session, hsession, hbinding, -⟩ := lookup_prospective hfound
    have hm' : m.Evolves host (·.wellFormed parsesUuid) .new := by
      rcases hm with rfl | rfl
      · exact hmain
      · exact hmain'
    have hownership := (SessionState.binding_eq_some.mp hbinding).2
    cases hm'.sessions key session hsession with
    | kept hold _ => cases hold
    | unbound h => cases h.symm.trans hownership
    | granted hlow _ h hvalid =>
      have hsame := h.symm.trans hownership
      have hincarnation := Option.some.inj (congrArg (·.2.2) hsame)
      refine ⟨hvalid _ (congrArg (·.1) hsame), ?_⟩
      have hpos := Nat.lt_of_le_of_lt (Nat.zero_le _) hlow
      omega

/-! ## Every run -/

structure SaveHistory.Consistent (host : Host) (parsesUuid : String → Bool)
    (history : SaveHistory) (main : State) : Prop where
  last : history.commits.head? = some main
  disk : history.disk.main = main.stored
  exact : Exact host history.disk.owners main
  sound : Sound parsesUuid history.disk.owners
  commits : ∀ commit ∈ history.commits, commit.Evolves host (·.wellFormed parsesUuid) .new ∧
    main.Evolves host (·.wellFormed parsesUuid) commit

theorem SaveHistory.Consistent.main_evolves (h : history.Consistent host parsesUuid main) :
    main.Evolves host (·.wellFormed parsesUuid) .new := (h.commits main (mem_of_mem_head? h.last)).1

theorem SaveHistory.Consistent.open (h : history.Consistent host parsesUuid main) :
    history.disk.open host parsesUuid = .ok (main, main.registry host) := by
  have hopen := h.exact.open h.main_evolves h.sound
  rwa [← h.disk] at hopen

theorem SaveHistory.Consistent.start :
    SaveHistory.start.Consistent host parsesUuid .new where
  last := rfl
  disk := rfl
  exact key session h := by cases h
  sound := ⟨Nat.zero_le _, fun binding h => by cases h⟩
  commits commit h := by
    rw [List.mem_singleton.mp h]
    exact ⟨.refl _, .refl _⟩

theorem SaveHistory.Consistent.saved_evolves
    (h : history.Consistent host parsesUuid main) {saving : Saving} {initial : OwnerRegistry}
    (hsaved : history.saved host parsesUuid saving = some (main', initial)) :
    initial = main.registry host ∧ main'.Evolves host (·.wellFormed parsesUuid) main := by
  unfold SaveHistory.saved at hsaved
  rw [h.open] at hsaved
  dsimp only at hsaved
  split at hsaved
  · rename_i hvalid
    obtain ⟨files, hfiles, hsame⟩ := Option.map_eq_some_iff.mp hsaved
    cases hsame
    refine ⟨rfl, Call.written_evolves (fun process hprocess => ?_) (mem_of_getElem? hfiles)⟩
    rw [Option.mem_def.mp hprocess] at hvalid
    simpa using hvalid
  · cases hsaved

/-- A save that is not refused, with its two writes. -/
theorem Disk.save_apply {initial : OwnerRegistry} (disk : Disk)
    (hsize : (prospective host initial main).size ≤ maxSessions * 2) :
    Disk.save host initial main disk =
      ([{ disk with owners := prospective host initial main },
        ⟨main.stored, prospective host initial main⟩], .ok ()) := by
  unfold Disk.save
  have hensure : (Durable.lift (ensure ((prospective host initial main).size ≤ maxSessions * 2)
      ownerUnavailable) : Durable Disk HookError Unit) disk = ([], .ok ()) := by
    rw [ensure_eq_ok.mpr hsize]
    rfl
  rw [Durable.bind_apply_of_eq hensure]
  rfl

variable (hkeys : ∀ key digest key' digest', host.releasedSessionKey key digest =
    host.releasedSessionKey key' digest' → key = key' ∧ digest = digest')
  (hdigests : ∀ key attemptToken incarnation key' attemptToken' incarnation',
    host.capability key attemptToken incarnation =
      host.capability key' attemptToken' incarnation' → key = key' ∧ incarnation = incarnation')

include hdigests

theorem SaveHistory.Consistent.agree (h : history.Consistent host parsesUuid main)
    (hevolves : main'.Evolves host (·.wellFormed parsesUuid) main) : AgreeWith main main' :=
  fun _ _ _ _ hsession hsession' hdigest hdigest' =>
    (hevolves.ownership_eq hdigests h.main_evolves hsession' hsession hdigest' hdigest).symm

include hkeys

theorem SaveHistory.Consistent.save (h : history.Consistent host parsesUuid main)
    (hevolves : main'.Evolves host (·.wellFormed parsesUuid) main) (writes : Nat) :
    ∃ m, (history.save host (main.registry host) main' writes).Consistent host parsesUuid m := by
  have hmain' := hevolves.trans h.main_evolves
  have hsound := prospective_sound h.main_evolves hmain'
  have hexact : ∀ m, m = main ∨ m = main' →
      Exact host (prospective host (main.registry host) main') m := fun m hm =>
    prospective_exact hkeys (h.agree hdigests hevolves) hm
  unfold SaveHistory.save
  rw [Disk.save_apply history.disk hsound.size]
  dsimp only
  rcases writes with _ | _ | writes
  · exact ⟨main, h⟩
  · -- the owner file has been written, the main file has not
    exact ⟨main, h.last, h.disk, hexact main (.inl rfl), hsound, h.commits⟩
  · rw [take_of_length_le (by simp), if_pos ⟨rfl, by simp⟩]
    refine ⟨main', rfl, rfl, hexact main' (.inr rfl), hsound, fun commit hcommit => ?_⟩
    rcases List.mem_cons.mp hcommit with rfl | hcommit
    · exact ⟨hmain', .refl _⟩
    · have hold := h.commits commit hcommit
      exact ⟨hold.1, hevolves.trans hold.2⟩

theorem reach_consistent (h : (ownerFile host parsesUuid).Reach history) :
    ∃ main, history.Consistent host parsesUuid main := by
  refine Lts.Reach.invariant (S := ownerFile host parsesUuid)
    (I := fun history => ∃ main, SaveHistory.Consistent host parsesUuid history main) ?_ ?_ h
  · rintro _ rfl
    exact ⟨.new, .start⟩
  · rintro saving before after ⟨main, hbefore⟩ hstep
    obtain ⟨⟨main', initial⟩, hsaved, rfl⟩ := Option.map_eq_some_iff.mp hstep
    obtain ⟨rfl, hevolves⟩ := hbefore.saved_evolves hsaved
    exact hbefore.save hkeys hdigests hevolves _

end

/-- After any run, the store opens. Each session has the owner that it had whenever its capability
was saved with this incarnation, which has happened; a session without a capability has none. The
owner file is within its limit, and no save is refused for it. -/
theorem owners_are_exact
    (hkeys : ∀ key digest key' digest', host.releasedSessionKey key digest =
      host.releasedSessionKey key' digest' → key = key' ∧ digest = digest')
    (hdigests : ∀ key attemptToken incarnation key' attemptToken' incarnation',
      host.capability key attemptToken incarnation =
        host.capability key' attemptToken' incarnation' → key = key' ∧ incarnation = incarnation')
    {history : SaveHistory} (h : (ownerFile host parsesUuid).Reach history) :
    ∃ main initial, history.disk.open host parsesUuid = .ok (main, initial) ∧
      (∀ key session, main.sessions.lookup key = some session →
        (session.runnerCapabilityDigest = none → session.ownerProcess = none) ∧
        ∀ digest incarnation, session.runnerCapabilityDigest = some digest →
          session.runnerCapabilityIncarnation = some incarnation →
            (∃ commit ∈ history.commits, ∃ committed, commit.sessions.lookup key = some committed ∧
              committed.runnerCapabilityDigest = some digest ∧
              committed.runnerCapabilityIncarnation = some incarnation) ∧
            ∀ commit ∈ history.commits, ∀ committed, commit.sessions.lookup key = some committed →
              committed.runnerCapabilityDigest = some digest →
              committed.runnerCapabilityIncarnation = some incarnation →
                session.ownerProcess = committed.ownerProcess) ∧
      history.disk.owners.size ≤ maxSessions * 2 ∧
      ∀ saving saved, history.saved host parsesUuid saving = some (saved, initial) →
        (Disk.save host initial saved).result history.disk = .ok () := by
  obtain ⟨main, hconsistent⟩ := reach_consistent hkeys hdigests h
  refine ⟨main, main.registry host, hconsistent.open, fun key session hsession => ⟨?_, ?_⟩,
    hconsistent.sound.size, ?_⟩
  · intro hdigest
    refine hconsistent.main_evolves.owner_eq_none hsession ?_
    simp [SessionState.binding, hdigest]
  · intro digest incarnation hdigest hincarnation
    refine ⟨⟨main, List.mem_of_mem_head? hconsistent.last, session, hsession, hdigest,
      hincarnation⟩, fun commit hcommit committed hcommitted hdigest' _ => ?_⟩
    have hold := hconsistent.commits commit hcommit
    exact congrArg (·.1)
      (hold.2.ownership_eq hdigests hold.1 hsession hcommitted hdigest hdigest')
  · intro saving saved hsaved
    obtain ⟨-, hevolves⟩ := hconsistent.saved_evolves hsaved
    have hsound := prospective_sound hconsistent.main_evolves
      (hevolves.trans hconsistent.main_evolves)
    rw [Durable.result, Disk.save_apply history.disk hsound.size]

/-! ## A sample -/

/-- A text after a number. -/
def marked (n : Nat) (text : String) : String :=
  String.ofList (List.replicate n 'i' ++ 'x' :: text.toList)

/-- Two texts in one. -/
def joined (text text' : String) : String := marked text.length (text ++ text')

theorem replicate_append_inj {n m : Nat} {rest rest' : List Char}
    (h : replicate n 'i' ++ 'x' :: rest = replicate m 'i' ++ 'x' :: rest') :
    n = m ∧ rest = rest' := by
  induction n generalizing m with
  | zero =>
    cases m with
    | zero => exact ⟨rfl, (List.cons.inj h).2⟩
    | succ m =>
      rw [replicate_succ] at h
      exact absurd (List.cons.inj h).1 (by decide)
  | succ n ih =>
    cases m with
    | zero =>
      rw [replicate_succ] at h
      exact absurd (List.cons.inj h).1 (by decide)
    | succ m =>
      rw [replicate_succ, replicate_succ] at h
      obtain ⟨hn, hrest⟩ := ih (List.cons.inj h).2
      exact ⟨congrArg Nat.succ hn, hrest⟩

theorem marked_inj {n m : Nat} {text text' : String} (h : marked n text = marked m text') :
    n = m ∧ text = text' := by
  unfold marked at h
  rw [String.ofList_inj] at h
  obtain ⟨hn, htext⟩ := replicate_append_inj h
  exact ⟨hn, String.toList_inj.mp htext⟩

theorem joined_inj {a b a' b' : String} (h : joined a b = joined a' b') : a = a' ∧ b = b' := by
  obtain ⟨hlength, happend⟩ := marked_inj h
  rw [← String.toList_inj, String.toList_append, String.toList_append] at happend
  rw [← String.length_toList, ← String.length_toList] at hlength
  obtain ⟨ha, hb⟩ := append_inj happend hlength
  exact ⟨String.toList_inj.mp ha, String.toList_inj.mp hb⟩

def keepingHost : Host := { sampleHost with
  releasedSessionKey := joined
  openRunnerCapability := fun _ attemptToken incarnation =>
    marked (incarnation.getD 0) attemptToken
  runnerCapabilityDigest := joined }

/-- A session is opened with an owner. -/
def sampleSaving (writes : Nat) : Saving :=
  ⟨.open sampleIdentity "a" (some ⟨1, 1, "b", 0, 1, 0⟩) 0, .new, 0, writes⟩

def sampleHistory : Option SaveHistory :=
  [sampleSaving 1, sampleSaving 2].foldlM (SaveHistory.next keepingHost fun _ => true) .start

theorem owners_are_exact_sample : ∃ history main initial, sampleHistory = some history ∧
    history.disk.open keepingHost (fun _ => true) = .ok (main, initial) ∧
      history.disk.owners.size ≤ maxSessions * 2 := by
  obtain ⟨history, hhistory⟩ :=
    Option.isSome_iff_exists.mp (show sampleHistory.isSome by decide +kernel)
  have hreach : (ownerFile keepingHost fun _ => true).Reach history :=
    Lts.Reach.of_foldlM (S := ownerFile keepingHost fun _ => true)
      (fun _ saving _ h => ⟨saving, h⟩) hhistory (.init rfl)
  have hdigests : ∀ key attemptToken incarnation key' attemptToken' incarnation',
      keepingHost.capability key attemptToken incarnation =
        keepingHost.capability key' attemptToken' incarnation' →
          key = key' ∧ incarnation = incarnation' := by
    intro key token incarnation key' token' incarnation' h
    obtain ⟨hkey, hcapability⟩ := joined_inj h
    exact ⟨hkey, (marked_inj hcapability).1⟩
  obtain ⟨main, initial, hopen, -, hsize, -⟩ := owners_are_exact keepingHost (fun _ => true)
    (fun _ _ _ _ h => joined_inj h) hdigests hreach
  exact ⟨history, main, initial, hhistory, hopen, hsize⟩

end NilsCli.FinishLine
