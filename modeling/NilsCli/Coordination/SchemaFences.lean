import Mathlib.Order.Bounds.Basic
import NilsCli.Coordination.Registry

/-!
# Schema fences

The version a file is saved with tells older readers to keep away. A version that was written once, or
that something in the file needs, is never gone below.
-/

namespace NilsCli.Coordination

open Lib

/-! ## The registry -/

/-- The supported values of the registry's `schema_version`, `v1` to `v7`. -/
inductive RegistryVersion
  | registry
  | legacy
  | suppression
  | delegation
  | notificationHistory
  | coalescing
  | quota
  deriving DecidableEq

def RegistryVersion.number : RegistryVersion → Nat
  | .registry => 1
  | .legacy => 2
  | .suppression => 3
  | .delegation => 4
  | .notificationHistory => 5
  | .coalescing => 6
  | .quota => 7

instance : LinearOrder RegistryVersion :=
  LinearOrder.lift' RegistryVersion.number fun a b h => by cases a <;> cases b <;> first | rfl | cases h

/-- What `LockedRegistry` reads and saves. An empty `schema_version` counts as `v1`. -/
structure RegistryFile (Delegation Audit : Type) where
  schemaVersion : RegistryVersion
  registry : Registry
  delegations : List Delegation
  delegationAudit : List Audit

variable {Delegation Audit : Type} (fits : RegistryFile Delegation Audit → Bool)
  (disk file : RegistryFile Delegation Audit)

namespace RegistryFile

def hasQuota : Bool :=
  !file.registry.quotaRejections.isEmpty ||
    file.registry.notifications.values.any (·.quota.isSome)

def coalesces : Bool :=
  file.registry.notifications.values.any fun receipt =>
    decide (receipt.routineIntervalSeconds ≠ 0) || receipt.prompt.isSome ||
      receipt.attemptedPrompt.isSome

def hasHistory : Bool :=
  file.registry.notifications.values.any fun receipt => !receipt.attemptHistory.isEmpty

def delegates : Bool :=
  !file.delegations.isEmpty || !file.delegationAudit.isEmpty

def suppresses : Bool :=
  file.registry.messages.any (·.notificationSuppressed)

end RegistryFile

open RegistryVersion in
def fenceRegistry : RegistryFile Delegation Audit :=
  if file.schemaVersion = quota || file.hasQuota then { file with schemaVersion := quota }
  else if file.schemaVersion = coalescing || file.coalesces then { file with schemaVersion := coalescing }
  else if file.schemaVersion = notificationHistory || file.hasHistory then
    { file with schemaVersion := notificationHistory }
  else if file.schemaVersion = delegation || file.delegates then { file with schemaVersion := delegation }
  else if file.suppresses then { file with schemaVersion := suppression }
  else file

/-- What a version is needed for. -/
def RegistryFile.Demands : RegistryVersion → Prop
  | .quota => file.hasQuota
  | .coalescing => file.coalesces
  | .notificationHistory => file.hasHistory
  | .delegation => file.delegates
  | .suppression => file.suppresses
  | .legacy | .registry => False

/-- `LockedRegistry::save`: the saved file, if it is not too large. -/
def saveRegistry : Option (RegistryFile Delegation Audit) :=
  if fits (fenceRegistry file) then some (fenceRegistry file) else none

abbrev RegistryChange (Delegation Audit : Type) :=
  Registry × List Delegation × List Audit → Registry × List Delegation × List Audit

/-- No process changes the `schema_version` that it has read. -/
def RegistryFile.change (f : RegistryChange Delegation Audit) : RegistryFile Delegation Audit :=
  let changed := f (file.registry, file.delegations, file.delegationAudit)
  ⟨file.schemaVersion, changed.1, changed.2.1, changed.2.2⟩

/-- A process changes what it has read and saves it. -/
def registryTurn (f : RegistryChange Delegation Audit) : RegistryFile Delegation Audit :=
  (saveRegistry fits (disk.change f)).getD disk

theorem fenceRegistry_contents :
    fenceRegistry file = { file with schemaVersion := (fenceRegistry file).schemaVersion } := by
  unfold fenceRegistry
  split_ifs <;> rfl

theorem fenceRegistry_isGreatest :
    IsGreatest {v | v = file.schemaVersion ∨ file.Demands v} (fenceRegistry file).schemaVersion := by
  unfold fenceRegistry
  obtain ⟨version, registry, delegations, audit⟩ := file
  split_ifs with hquota hcoalescing hhistory hdelegation hsuppression
  all_goals
    refine ⟨?_, fun v hv => ?_⟩
    · cases version <;> simp_all [RegistryFile.Demands]
    · change v.number ≤ RegistryVersion.number _
      cases version <;> cases v <;> simp_all [RegistryFile.Demands, RegistryVersion.number]

theorem fenceRegistry_idem :
    fenceRegistry (fenceRegistry file) = fenceRegistry file := by
  have hgreatest := fenceRegistry_isGreatest file
  rw [fenceRegistry_contents file] at *
  generalize (fenceRegistry file).schemaVersion = version at hgreatest ⊢
  have hagain := fenceRegistry_isGreatest { file with schemaVersion := version }
  rw [fenceRegistry_contents]
  refine congrArg (RegistryFile.mk · _ _ _) (le_antisymm ?_ (hagain.2 (.inl rfl)))
  rcases hagain.1 with h | h
  · exact h.le
  · exact hgreatest.2 (.inr h)

theorem le_registryTurn (f : RegistryChange Delegation Audit) :
    disk.schemaVersion ≤ (registryTurn fits disk f).schemaVersion := by
  unfold registryTurn
  cases hsaved : saveRegistry fits (disk.change f) with
  | none => exact le_rfl
  | some saved =>
    obtain ⟨-, hsaved⟩ := Option.ite_none_right_eq_some.mp hsaved
    obtain rfl := Option.some.inj hsaved
    exact (fenceRegistry_isGreatest (disk.change f)).2 (.inl rfl)

/-! ## The journal -/

/-- The values of the journal's `schema_version`, `v1` to `v6`. -/
inductive JournalVersion
  | legacy
  | journal
  | extended
  | audit
  | refusal
  | suppression
  deriving DecidableEq

def JournalVersion.number : JournalVersion → Nat
  | .legacy => 1
  | .journal => 2
  | .extended => 3
  | .audit => 4
  | .refusal => 5
  | .suppression => 6

instance : LinearOrder JournalVersion :=
  LinearOrder.lift' JournalVersion.number fun a b h => by cases a <;> cases b <;> first | rfl | cases h

/-- A waiting message of the outbox. `receiptSuppressed` is `receipt["notification_suppressed"]`. -/
structure Journal.Outbox (Refusal : Type) where
  fromService : Bool
  createdAtEpoch : Int
  expiresAtEpoch : Int
  category : Option MessageCategory
  forwarding : Option Provenance
  state : String
  lastAttemptAtEpoch : Option Int
  stateChangedAtEpoch : Option Int
  receiptSuppressed : Option Bool
  refusalDetails : Option Refusal

/-- What is kept of a message that ended. -/
structure Journal.Retained (Refusal : Type) where
  expiresAtEpoch : Int
  createdAtEpoch : Option Int
  lastAttemptAtEpoch : Option Int
  stateChangedAtEpoch : Option Int
  state : String
  refusalDetails : Option Refusal
  notificationSuppressed : Option Bool
  category : Option MessageCategory
  forwarding : Option Provenance

structure Journal (Refusal : Type) where
  schemaVersion : JournalVersion
  remoteOutbox : List (Journal.Outbox Refusal)
  retained : List (Journal.Retained Refusal)

variable {Refusal : Type}

def Journal.Outbox.retainsFailedServiceBody (now : Int) (item : Journal.Outbox Refusal) : Bool :=
  item.fromService && decide (item.state = "rejected" ∨ item.state = "delivery-unknown") &&
    decide (now < item.expiresAtEpoch)

def Journal.Outbox.identity (item : Journal.Outbox Refusal) : Journal.Retained Refusal where
  expiresAtEpoch := item.expiresAtEpoch
  createdAtEpoch := some item.createdAtEpoch
  lastAttemptAtEpoch := item.lastAttemptAtEpoch
  stateChangedAtEpoch := item.stateChangedAtEpoch
  state := item.state
  refusalDetails := item.refusalDetails
  notificationSuppressed := item.receiptSuppressed
  category := item.category
  forwarding := item.forwarding

namespace Journal

variable (journal : Journal Refusal)

/-- Messages that ended give up their bodies, and identities go a day after they expire. -/
def compact (now : Int) (journal : Journal Refusal) : Journal Refusal :=
  let (queued, terminal) := journal.remoteOutbox.partition fun item =>
    decide (item.state = "queued") || item.retainsFailedServiceBody now
  { journal with
    remoteOutbox := queued.filter fun item => now < i64Add item.expiresAtEpoch 86400
    retained := (journal.retained ++ terminal.map Journal.Outbox.identity).filter fun item =>
      now < i64Add item.expiresAtEpoch 86400 }

def refuses : Bool :=
  journal.remoteOutbox.any (·.refusalDetails.isSome) || journal.retained.any (·.refusalDetails.isSome)

def audits : Bool :=
  (journal.remoteOutbox.any fun entry =>
    entry.lastAttemptAtEpoch.isSome || entry.stateChangedAtEpoch.isSome) ||
  journal.retained.any fun entry => entry.createdAtEpoch.isSome || entry.lastAttemptAtEpoch.isSome ||
    entry.stateChangedAtEpoch.isSome

def extends_ : Bool :=
  (journal.remoteOutbox.any fun entry => entry.category.isSome || entry.forwarding.isSome) ||
  journal.retained.any fun entry => entry.category.isSome || entry.forwarding.isSome

def suppresses : Bool :=
  journal.retained.any (·.notificationSuppressed.isSome) ||
    journal.remoteOutbox.any (·.receiptSuppressed.isSome)

open JournalVersion in
/-- `journal_version::select`. -/
def select : JournalVersion :=
  if journal.schemaVersion = suppression || journal.suppresses then suppression
  else if journal.schemaVersion = refusal || journal.refuses then refusal
  else if journal.schemaVersion = audit || journal.audits then audit
  else if journal.schemaVersion = extended || journal.extends_ then extended
  else .journal

def Demands : JournalVersion → Prop
  | .suppression => journal.suppresses
  | .refusal => journal.refuses
  | .audit => journal.audits
  | .extended => journal.extends_
  | .journal | .legacy => False

/-- What `LockedJournal::encode` writes. -/
def encode (now : Int) (journal : Journal Refusal) : Journal Refusal :=
  { journal.compact now with schemaVersion := (journal.compact now).select }

theorem select_isGreatest :
    IsGreatest {v | v = journal.schemaVersion ∨ v = .journal ∨ journal.Demands v} journal.select := by
  unfold select
  obtain ⟨version, outbox, retained⟩ := journal
  split_ifs with hsuppression hrefusal haudit hextended
  all_goals
    refine ⟨?_, fun v hv => ?_⟩
    · cases version <;> simp_all [Demands]
    · change v.number ≤ JournalVersion.number _
      cases version <;> cases v <;> simp_all [Demands, JournalVersion.number]

theorem select_idem : { journal with schemaVersion := journal.select }.select = journal.select := by
  have hgreatest := journal.select_isGreatest
  have hagain := { journal with schemaVersion := journal.select : Journal Refusal }.select_isGreatest
  refine le_antisymm ?_ (hagain.2 (.inl rfl))
  rcases hagain.1 with h | h | h
  · exact h.le
  · exact h.le.trans (hgreatest.2 (.inr (.inl rfl)))
  · exact hgreatest.2 (.inr (.inr h))

end Journal

abbrev JournalChange (Refusal : Type) :=
  List (Journal.Outbox Refusal) × List (Journal.Retained Refusal) → List (Journal.Outbox Refusal) × List (Journal.Retained Refusal)

def Journal.change (journal : Journal Refusal) (f : JournalChange Refusal) : Journal Refusal :=
  let changed := f (journal.remoteOutbox, journal.retained)
  ⟨journal.schemaVersion, changed.1, changed.2⟩

/-- A process changes the entries it has read and saves them at some time, if they fit. -/
def journalTurn (fits : Journal Refusal → Bool) (disk : Journal Refusal)
    (turn : Int × JournalChange Refusal) : Journal Refusal :=
  let saved := (disk.change turn.2).encode turn.1
  if fits saved then saved else disk

theorem le_journalTurn (fits : Journal Refusal → Bool) (disk : Journal Refusal)
    (turn : Int × JournalChange Refusal) :
    disk.schemaVersion ≤ (journalTurn fits disk turn).schemaVersion := by
  unfold journalTurn
  dsimp only
  split
  · exact ((disk.change turn.2).compact turn.1).select_isGreatest.2 (.inl rfl)
  · exact le_rfl

/-! ## Both fences -/

theorem le_foldl {State Step V : Type} [Preorder V] {version : State → V} {turn : State → Step → State}
    (hturn : ∀ state step, version state ≤ version (turn state step)) (steps : List Step)
    (state : State) : version state ≤ version (steps.foldl turn state) := by
  induction steps generalizing state with
  | nil => exact le_rfl
  | cons step steps ih => exact (hturn state step).trans (ih _)

/-- A journal that demands nothing keeps the version it has. -/
theorem legacy_journal_raised : ¬ ∀ (Refusal : Type) (journal : Journal Refusal),
    IsGreatest {v | v = journal.schemaVersion ∨ journal.Demands v} journal.select := by
  intro h
  rcases (h Unit ⟨.legacy, [], []⟩).1 with hsame | hdemands
  · cases hsame
  · cases hdemands

/-- What is saved has the highest version of what was there, what the contents need and, for a journal,
`v2`; the fence changes nothing the second time; and no sequence of saves goes back. -/
theorem fences_only_rise (Delegation Audit Refusal : Type) :
    (∀ file : RegistryFile Delegation Audit,
      IsGreatest {v | v = file.schemaVersion ∨ file.Demands v} (fenceRegistry file).schemaVersion ∧
      fenceRegistry (fenceRegistry file) = fenceRegistry file) ∧
    (∀ journal : Journal Refusal,
      IsGreatest {v | v = journal.schemaVersion ∨ v = .journal ∨ journal.Demands v} journal.select ∧
      { journal with schemaVersion := journal.select }.select = journal.select) ∧
    (∀ (fits : RegistryFile Delegation Audit → Bool) (turns : List (RegistryChange Delegation Audit))
      (disk : RegistryFile Delegation Audit),
      disk.schemaVersion ≤ (turns.foldl (registryTurn fits) disk).schemaVersion) ∧
    ∀ (fits : Journal Refusal → Bool) (turns : List (Int × JournalChange Refusal))
      (disk : Journal Refusal),
      disk.schemaVersion ≤ (turns.foldl (journalTurn fits) disk).schemaVersion :=
  ⟨fun file => ⟨fenceRegistry_isGreatest file, fenceRegistry_idem file⟩,
    fun journal => ⟨journal.select_isGreatest, journal.select_idem⟩,
    fun fits => le_foldl (le_registryTurn fits), fun fits => le_foldl (le_journalTurn fits)⟩

end NilsCli.Coordination
