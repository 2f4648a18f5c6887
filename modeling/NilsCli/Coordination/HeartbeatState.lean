import NilsCli.Lib.Guard
import NilsCli.Lib.Transition
import NilsCli.Coordination.Registry

/-!
# The heartbeat index

`heartbeat_state.rs`: a small file beside the registry that a heartbeat reads without the lock.
-/

namespace NilsCli.Coordination.HeartbeatState

open Lib

variable {state : State} {stamp : RegistryStamp} {files' : Files}

variable {registry : Registry} {files : Files}

/-! ## The two files -/

structure Owner where
  incarnation : String
  generation : Nat
  capabilityDigest : TextDigest
  state : BrokerState
  runtimeIdentityDigest : String

def Owner.sameAuthority (owner other : Owner) : Bool :=
  owner.incarnation = other.incarnation && owner.generation = other.generation &&
    owner.capabilityDigest = other.capabilityDigest

structure RegistryStamp where
  device : Nat
  inode : Nat
  bytes : Nat
  modifiedSeconds : Int
  modifiedNanoseconds : Int
  deriving DecidableEq

/-- `State`, the content of the index file. -/
structure State where
  owners : Table String Owner
  completionPending : Bool
  completionRegistry : Option RegistryStamp

structure Files where
  registry : Option (Registry × RegistryStamp)
  index : Option State

def Files.registryStamp (files : Files) : Option RegistryStamp := files.registry.map (·.2)

/-- The registry that a locked section reads: a missing file is the empty registry. -/
def Files.committed (files : Files) : Registry := (files.registry.map (·.1)).getD Registry.empty

/-- The stamp that the index stores. -/
def Files.storedStamp (files : Files) : Option RegistryStamp :=
  files.index.bind (·.completionRegistry)

/-! ## The index of a registry -/

def liveState : BrokerState → Bool
  | .starting | .recovering | .ready => true
  | .stopped | .degraded => false

def ownerOf (broker : BrokerRecord) : Option Owner :=
  if liveState broker.state then
    broker.capabilityDigest.map fun digest =>
      { incarnation := broker.incarnation
        generation := broker.generation
        capabilityDigest := digest
        state := broker.state
        runtimeIdentityDigest := broker.runtimeIdentityDigest }
  else none

def State.fromRegistry (registry : Registry) : State where
  owners := registry.brokers.filterMapVal fun _ broker => ownerOf broker
  completionPending := !registry.completionEvents.isEmpty
  completionRegistry := none

def State.observed (registry : Registry) (stamp : Option RegistryStamp) : State :=
  { State.fromRegistry registry with completionRegistry := stamp }

/-! ## Reading -/

def storeUnavailable : CliError :=
  .runtimeErr "coordination-unavailable" "coordination store is unavailable"

def load (files : Files) : Except CliError State :=
  match files.index with
  | some state => .ok state
  | none =>
    match files.registry with
    | some (registry, _) => .ok (State.fromRegistry registry)
    | none => .error storeUnavailable

def completionDrainNeeded (files : Files) : Except CliError Bool := do
  let state ← load files
  return state.completionPending || state.completionRegistry.isNone ||
    state.completionRegistry ≠ files.registryStamp

/-! ## Writing -/

/-- `persist`, its first write: a missing index is seeded from the committed registry. -/
def seed (files : Files) : Files :=
  match files.index, files.registry with
  | none, some (registry, stamp) =>
    { files with index := some (State.observed registry (some stamp)) }
  | _, _ => files

/-- The index that stands while the registry is replaced by one with the index `next`. -/
def fenced (previous next : State) : State where
  owners := previous.owners.filter fun id owner =>
    (next.owners.lookup id).any owner.sameAuthority
  completionPending := previous.completionPending || next.completionPending
  completionRegistry := previous.completionRegistry

/-- `persist`, its second write. -/
def fence (registry : Registry) (files : Files) : Files :=
  { files with
    index := some (fenced (files.index.getD ⟨∅, false, none⟩) (State.fromRegistry registry)) }

/-- `persist`, its third write: the registry file is replaced, and gets this stamp. -/
def commitFile (registry : Registry) (stamp : RegistryStamp) (files : Files) : Files :=
  { files with registry := some (registry, stamp) }

/-- `persist`, its last write. -/
def publishNext (registry : Registry) (files : Files) : Files :=
  { files with index := some (State.observed registry files.registryStamp) }

/-- The writes of `persist`. -/
def persistWrites (registry : Registry) (stamp : RegistryStamp) : List (Files → Files) :=
  [seed, fence registry, commitFile registry stamp, publishNext registry]

/-- `initialize`, on the committed registry. -/
def initializeIndex (files : Files) : Files :=
  match files.index with
  | some _ => files
  | none => { files with index := some (State.observed files.committed files.registryStamp) }

def refreshCompletion (files : Files) : Files :=
  { files with
    index := some { files.index.getD (State.fromRegistry files.committed) with
      completionPending := !files.committed.completionEvents.isEmpty
      completionRegistry := files.registryStamp } }

inductive HeartbeatAuthorization
  | authorized
  | revoked
  | unknown
  deriving DecidableEq

def heartbeatOwnerAuthorization (token : Option String) (available : TextDigest → Bool)
    (session incarnation : String) (generation : Nat) (files : Files) : HeartbeatAuthorization :=
  match token, load files with
  | none, _ => .revoked
  | some _, .error _ => .unknown
  | some token, .ok state =>
    if (state.owners.lookup session).any fun owner =>
        owner.incarnation = incarnation && owner.generation = generation &&
          liveState owner.state && available owner.capabilityDigest &&
          owner.capabilityDigest = digestBytes token then .authorized
    else .revoked

inductive Call
  | persist (registry : Registry) (stamp : RegistryStamp)
  | initializeIndex
  | refreshCompletion

/-- Any sequence of calls, each of which stops after any of its writes. -/
def indexSystem : Lts where
  State := Files
  Label := Call
  init files := files.index = none ∨ ∃ registry stamp, files.registry = some (registry, stamp) ∧
    files.index = some (State.fromRegistry registry)
  step
    | .persist registry stamp, files, files' => (seed files).storedStamp ≠ some stamp ∧
      Interrupted (persistWrites registry stamp) files files'
    | .initializeIndex, files, files' => Interrupted [initializeIndex] files files'
    | .refreshCompletion, files, files' => Interrupted [refreshCompletion] files files'

/-! ## The index and the committed registry -/

def Authorizes (registry : Registry) (id : String) (owner : Owner) : Prop :=
  ∃ broker, registry.brokers.lookup id = some broker ∧ liveState broker.state ∧
    broker.incarnation = owner.incarnation ∧ broker.generation = owner.generation ∧
    broker.capabilityDigest = some owner.capabilityDigest

def Within (registry : Registry) (state : State) : Prop :=
  ∀ id owner, state.owners.lookup id = some owner → Authorizes registry id owner

/-- The invariant of the two files. -/
structure Coherent (files : Files) : Prop where
  within : ∀ state, files.index = some state → Within files.committed state
  drained : ∀ state stamp, files.index = some state → state.completionRegistry = some stamp →
    files.registryStamp = some stamp → state.completionPending = false →
    files.committed.completionEvents = []

theorem authorizes_of_sameAuthority {id : String} {owner other : Owner}
    (h : (State.fromRegistry registry).owners.lookup id = some other)
    (hsame : owner.sameAuthority other) : Authorizes registry id owner := by
  rw [State.fromRegistry, Table.lookup_filterMapVal] at h
  obtain ⟨broker, hb, hother⟩ := Option.bind_eq_some_iff.mp h
  rw [ownerOf] at hother
  split at hother
  next hlive =>
    obtain ⟨digest, hd, rfl⟩ := Option.map_eq_some_iff.mp hother
    simp only [Owner.sameAuthority, Bool.and_eq_true, decide_eq_true_eq] at hsame
    exact ⟨broker, hb, hlive, hsame.1.1.symm, hsame.1.2.symm, hsame.2 ▸ hd⟩
  next => cases hother

theorem within_fromRegistry (registry : Registry) :
    Within registry (State.fromRegistry registry) := fun id owner h =>
  authorizes_of_sameAuthority h (by simp [Owner.sameAuthority])

/-- An index that was written from the committed registry. -/
theorem coherent_observed (stamp : Option RegistryStamp)
    (h : files.index = some (State.observed files.committed stamp)) : Coherent files where
  within state hs := by
    obtain rfl := Option.some.inj (hs.symm.trans h)
    exact within_fromRegistry files.committed
  drained state stamp' hs _ _ hp := by
    obtain rfl := Option.some.inj (hs.symm.trans h)
    simpa [State.observed, State.fromRegistry] using hp

theorem coherent_seed (h : Coherent files) : Coherent (seed files) := by
  unfold seed
  split
  next registry stamp hi hr =>
    refine coherent_observed (some stamp) ?_
    simp [Files.committed, hr]
  next => exact h

theorem coherent_fence (h : Coherent files) (registry : Registry) :
    Coherent (fence registry files) := by
  cases hi : files.index with
  | none =>
    refine ⟨fun state hs id owner howner => ?_, fun state stamp hs hstamp => ?_⟩ <;>
      obtain rfl := Option.some.inj hs
    · rw [fenced, Table.lookup_filter, hi] at howner
      simp at howner
    · simp [fenced, hi] at hstamp
  | some previous =>
    refine ⟨fun state hs id owner howner => ?_, fun state stamp hs hstamp hreg hp => ?_⟩ <;>
      obtain rfl := Option.some.inj hs
    · rw [fenced, Table.lookup_filter, hi] at howner
      exact h.within previous hi id owner (Option.filter_eq_some_iff.mp howner).1
    · simp only [fenced, hi, Option.getD_some, Bool.or_eq_false_iff] at hstamp hp
      exact h.drained previous stamp hi hstamp hreg hp.1

theorem within_fence (registry : Registry) (files : Files)
    (h : (fence registry files).index = some state) : Within registry state := by
  obtain rfl := Option.some.inj h
  intro id owner howner
  rw [fenced, Table.lookup_filter] at howner
  obtain ⟨other, hother, hsame⟩ :=
    (Option.any_eq_true _ _).mp (Option.filter_eq_some_iff.mp howner).2
  exact authorizes_of_sameAuthority hother hsame

theorem coherent_commitFile (hwithin : ∀ state, files.index = some state → Within registry state)
    (hstamp : files.storedStamp ≠ some stamp) : Coherent (commitFile registry stamp files) where
  within := hwithin
  drained state stamp' hs hstored hreg _ := by
    obtain rfl : stamp = stamp' := Option.some.inj hreg
    have hindex : files.index = some state := hs
    rw [Files.storedStamp, hindex] at hstamp
    exact absurd hstored hstamp

theorem storedStamp_fence :
    (fence registry files).storedStamp = files.storedStamp := by
  cases h : files.index <;> simp [fence, fenced, Files.storedStamp, h]

theorem coherent_persist (h : Coherent files) (hstamp : (seed files).storedStamp ≠ some stamp)
    (hcall : Interrupted (persistWrites registry stamp) files files') : Coherent files' := by
  have hseed := coherent_seed h
  have hfence := coherent_fence hseed registry
  have hcommit : Coherent (commitFile registry stamp (fence registry (seed files))) := by
    refine coherent_commitFile (fun _ => within_fence registry (seed files)) ?_
    rwa [storedStamp_fence]
  exact hcall.holds ⟨h, hseed, hfence, hcommit, coherent_observed (some stamp) rfl⟩

theorem coherent_initializeIndex (h : Coherent files) :
    Coherent (initializeIndex files) := by
  unfold initializeIndex
  split
  · exact h
  · exact coherent_observed files.registryStamp rfl

theorem coherent_refreshCompletion (h : Coherent files) :
    Coherent (refreshCompletion files) where
  within state hs := by
    obtain rfl := Option.some.inj hs
    cases hi : files.index with
    | none => exact within_fromRegistry files.committed
    | some previous => exact h.within previous hi
  drained state stamp hs _ _ hp := by
    obtain rfl := Option.some.inj hs
    show files.committed.completionEvents = []
    simpa using hp

theorem coherent_step {call : Call} (h : Coherent files)
    (hstep : indexSystem.step call files files') : Coherent files' := by
  cases call with
  | persist registry stamp => exact coherent_persist h hstep.1 hstep.2
  | initializeIndex => exact Interrupted.holds hstep ⟨h, coherent_initializeIndex h⟩
  | refreshCompletion => exact Interrupted.holds hstep ⟨h, coherent_refreshCompletion h⟩

theorem coherent_init (h : indexSystem.init files) : Coherent files := by
  rcases h with hnone | ⟨registry, stamp, hr, hi⟩
  · exact ⟨fun state hs => by simp [hnone] at hs, fun state stamp hs => by simp [hnone] at hs⟩
  · refine coherent_observed none ?_
    rw [hi, Files.committed, hr]
    rfl

theorem coherent_of_reach (h : indexSystem.Reach files) : Coherent files :=
  h.invariant (fun _ => coherent_init) fun _ _ _ => coherent_step

theorem Coherent.within_load (h : Coherent files)
    (hload : load files = .ok state) : Within files.committed state := by
  unfold load at hload
  split at hload
  next hi => exact h.within _ (hi.trans (congrArg some (Except.ok.inj hload)))
  next =>
    split at hload
    next registry stamp hr =>
      obtain rfl := Except.ok.inj hload
      simpa [Files.committed, hr] using within_fromRegistry registry
    next => cases hload

theorem Coherent.drained_of_not_needed (h : Coherent files)
    (hneeded : completionDrainNeeded files = .ok false) :
    files.committed.completionEvents = [] := by
  obtain ⟨state, hload, hpure⟩ := bind_eq_ok.mp hneeded
  have hbits := Except.ok.inj hpure
  simp only [Bool.or_eq_false_iff, decide_eq_false_iff_not, ne_eq, not_not] at hbits
  obtain ⟨⟨hpending, hsome⟩, hstamp⟩ := hbits
  obtain ⟨stamp, hstored⟩ := Option.isSome_iff_exists.mp (Option.isNone_eq_false_iff.mp hsome)
  cases hi : files.index with
  | some index =>
    obtain rfl : index = state := by simpa [load, hi] using hload
    exact h.drained index stamp hi hstored (hstamp ▸ hstored) hpending
  | none =>
    -- an index that was not written yet has no stamp
    cases hr : files.registry with
    | none => simp [load, hi, hr] at hload
    | some file =>
      obtain rfl : State.fromRegistry file.1 = state := by simpa [load, hi, hr] using hload
      simp [State.fromRegistry] at hstored

theorem Coherent.authorized (h : Coherent files) {token : Option String}
    {available : TextDigest → Bool} {session incarnation : String} {generation : Nat}
    (hauth : heartbeatOwnerAuthorization token available session incarnation generation files =
      .authorized) :
    ∃ broker text, token = some text ∧ files.committed.brokers.lookup session = some broker ∧
      liveState broker.state ∧ broker.incarnation = incarnation ∧
      broker.generation = generation ∧ broker.capabilityDigest = some (digestBytes text) := by
  unfold heartbeatOwnerAuthorization at hauth
  split at hauth
  next => cases hauth
  next => cases hauth
  next text state hload =>
    split at hauth
    next hany =>
      obtain ⟨owner, howner, hmatch⟩ := (Option.any_eq_true _ _).mp hany
      simp only [Bool.and_eq_true, decide_eq_true_eq] at hmatch
      obtain ⟨⟨⟨⟨hinc, hgen⟩, -⟩, -⟩, hdigest⟩ := hmatch
      obtain ⟨broker, hb, hlive, hbinc, hbgen, hbdigest⟩ := h.within_load hload session owner howner
      exact ⟨broker, text, rfl, hb, hlive, hbinc.trans hinc, hbgen.trans hgen, hdigest ▸ hbdigest⟩
    next => cases hauth

/-- After any calls, each interrupted anywhere, every owner that the index lists has its authority
in the committed registry, and a heartbeat that skips the drain skips an empty queue. -/
theorem index_within_registry {files : Files} (h : indexSystem.Reach files) :
    (∀ state, load files = .ok state → ∀ id owner, state.owners.lookup id = some owner →
      ∃ broker, files.committed.brokers.lookup id = some broker ∧ liveState broker.state ∧
        broker.incarnation = owner.incarnation ∧ broker.generation = owner.generation ∧
        broker.capabilityDigest = some owner.capabilityDigest) ∧
    (∀ token available session incarnation generation,
      heartbeatOwnerAuthorization token available session incarnation generation files =
        .authorized →
      ∃ broker text, token = some text ∧ files.committed.brokers.lookup session = some broker ∧
        liveState broker.state ∧ broker.incarnation = incarnation ∧
        broker.generation = generation ∧ broker.capabilityDigest = some (digestBytes text)) ∧
    (completionDrainNeeded files = .ok false → files.committed.completionEvents = []) :=
  have hc := coherent_of_reach h
  ⟨fun _ => hc.within_load, fun _ _ _ _ _ => hc.authorized, hc.drained_of_not_needed⟩

def readyRegistry (session : String) : Registry :=
  { Registry.empty with
    brokers := AList.singleton session
      { sessionId := session
        incarnation := "inc"
        capabilityDigest := some (digestBytes "token")
        generation := 1
        state := .ready
        heartbeatEpoch := 0
        runtimeIdentity := none
        runtimeIdentityDigest := ""
        lostSinceEpoch := none } }

def replacedUpTo (done : Nat) : Files :=
  writeAll ((persistWrites (readyRegistry "b") ⟨1, 2, 3, 4, 6⟩).take done)
    (writeAll (persistWrites (readyRegistry "a") ⟨1, 2, 3, 4, 5⟩) ⟨none, none⟩)

theorem reach_replacedUpTo (done : Nat) : indexSystem.Reach (replacedUpTo done) := by
  have hfirst : indexSystem.step (.persist (readyRegistry "a") ⟨1, 2, 3, 4, 5⟩) ⟨none, none⟩
      (writeAll (persistWrites (readyRegistry "a") ⟨1, 2, 3, 4, 5⟩) ⟨none, none⟩) :=
    ⟨by decide, interrupted_writeAll _ _⟩
  have hinit : indexSystem.Reach ⟨none, none⟩ := .init (.inl rfl)
  refine (hinit.next hfirst).next (l := .persist (readyRegistry "b") ⟨1, 2, 3, 4, 6⟩) ?_
  exact ⟨by decide, interrupted_take done _ _⟩

/-- Before the replacement `a` is accepted; between the fence and the last write nobody is; after it
only `b` is, and an accepted token is the token of the committed broker. -/
theorem index_within_registry_sample :
    (∃ broker text, some "token" = some text ∧
      (replacedUpTo 0).committed.brokers.lookup "a" = some broker ∧ liveState broker.state ∧
      broker.incarnation = "inc" ∧ broker.generation = 1 ∧
      broker.capabilityDigest = some (digestBytes text)) ∧
    (replacedUpTo 4).committed.completionEvents = [] ∧
    (replacedUpTo 3).index.map (·.owners.keys) = some [] ∧
    (replacedUpTo 4).index.map (·.owners.keys) = some ["b"] :=
  ⟨(index_within_registry (reach_replacedUpTo 0)).2.1 (some "token") (fun _ => true) "a" "inc" 1
      (by decide),
    (index_within_registry (reach_replacedUpTo 4)).2.2 (by decide), by decide, by decide⟩

end NilsCli.Coordination.HeartbeatState
