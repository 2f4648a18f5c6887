import NilsCli.Activity.Consistency

/-!
# Runs of an activity document

The document of a session in any run: calls that may stop after any write, activations, operators,
rebinds and unhealthy runtimes (`lifeSystem`).
-/

namespace NilsCli.Activity

open Lib Lib.Durable
open Coordination (CliError)

variable {codec : Codec} {document : Document}

/-! ## Accepted events -/

def ClearsOpen (call : Call) (document : Document) : Prop :=
  call.event.kind = .attentionCleared →
    (settleClaudeCompletion document call.receivedAt).state.currentTurn ≠ none

/-- The document that an accepted event leaves agrees. -/
theorem Consistent.accept (h : Consistent document) (journal : List JournalLine) (call : Call)
    (hopen : ClearsOpen call document) (hrevision : document.state.revision < u64Max) :
    Consistent (acceptEvent codec journal document call).1 := by
  have hcount := h.counted
  obtain ⟨hsettled, hroom⟩ := h.settle call.receivedAt (by omega)
  obtain ⟨hrestored, -, hfew, hstill⟩ := hsettled.restore codec.lineBytes journal call.event
  have hreduced := hrestored.reduce call.event call.receivedAt
    (fun hcleared => hstill (hopen hcleared)) (by omega)
  unfold acceptEvent
  dsimp only
  split
  swap
  · exact hsettled
  split
  swap
  · exact hreduced
  split
  · exact hreduced.of_eq rfl rfl rfl rfl rfl
  · exact hreduced.of_eq rfl rfl rfl rfl rfl

theorem Consistent.raises (h : Consistent document) {journal : List JournalLine} {call : Call}
    (hrevision : document.state.revision < u64Max)
    (happlied : (acceptEvent codec journal document call).2 = true) :
    document.state.revision < (acceptEvent codec journal document call).1.state.revision := by
  have hcount := h.counted
  obtain ⟨hsettled, -⟩ := h.settle call.receivedAt (by omega)
  obtain ⟨-, hsame, -, -⟩ := hsettled.restore codec.lineBytes journal call.event
  have hrises := @revision_settle_le document call.receivedAt
  unfold acceptEvent at happlied ⊢
  dsimp only at happlied ⊢
  split at happlied
  swap
  · cases happlied
  rename_i hadmitted
  rw [if_pos hadmitted]
  split at happlied
  swap
  · cases happlied
  rename_i hreduced
  have hraised := revision_reduce hreduced
  rw [hsame] at hraised
  have hstrict : document.state.revision < (Activity.reduce (restoreProgressTurn codec.lineBytes
      journal (settleClaudeCompletion document call.receivedAt) call.event) call.event
      call.receivedAt).1.state.revision := by
    rw [hraised]
    unfold u64Succ
    split <;> omega
  rw [if_pos hreduced]
  split
  · exact hstrict
  · exact hstrict

/-! ## Calls -/

def Transactional (J : Document → Prop) : Prop :=
  ∀ document, J document → J { document with pendingJournal := none }

def Untabled (I : Store → Prop) : Prop := ∀ store table file, I store → I (store.setTable table file)

theorem untabled_document (J : Document → Prop) : Untabled fun s => J s.document := by
  intro store table file h
  rw [setTable_document]
  exact h

section
variable {I : Store → Prop} (hI : Untabled I)
include hI

theorem resetReplayTable_keeps (table : Nat) : Keeps I (resetReplayTable table) :=
  .write fun s hs => hI s table _ hs

theorem openForInsert_keeps (table : Nat) : Keeps I (openForInsert table) := by
  unfold openForInsert
  refine .load_bind fun s hs => Keeps.at ?_ hs
  split
  · exact .ret _
  · exact .ite (.bind (resetReplayTable_keeps hI table) fun _ => .ret _) (.lift _)

theorem writeSlots_keeps (table : Nat) (slots : Slots DedupeKey) :
    Keeps I (writeSlots table slots) := .write fun s hs => hI s table _ hs

theorem insertOpened_keeps (table : Nat) (key : DedupeKey) :
    Keeps I (insertOpened codec table key) := by
  unfold insertOpened
  refine .bind (openForInsert_keeps hI table) fun slots => ?_
  split
  · exact writeSlots_keeps hI table _
  · refine .bind (resetReplayTable_keeps hI table) fun _ => ?_
    split
    · exact writeSlots_keeps hI table _
    · exact .lift _

theorem replayInsert_keeps (eventIndex : Nat) (key : DedupeKey) :
    Keeps I (replayInsert codec eventIndex key) := by
  unfold replayInsert
  dsimp only
  split
  · exact .bind (resetReplayTable_keeps hI _) fun _ => insertOpened_keeps hI _ key
  · exact insertOpened_keeps hI _ key

theorem openTableZero_keeps : Keeps I openTableZero := by
  unfold openTableZero
  refine .load_bind fun s hs => Keeps.at ?_ hs
  exact .ite (.bind (resetReplayTable_keeps hI 0) fun _ => .ret _) (.lift _)

theorem replayContains_keeps (key : DedupeKey) : Keeps I (replayContains codec key) := by
  unfold replayContains
  refine .bind (openTableZero_keeps hI) fun slots =>
    .ite (.ret _) (.load_bind fun s hs => Keeps.at ?_ hs)
  refine .ite (.ret _) ?_
  split
  · exact .ret _
  · exact .ite (.ret _) (.lift _)

theorem seenExactly_keeps (event : TurnEvent) : Keeps I (seenExactly codec event) := by
  unfold seenExactly
  exact .ite (replayContains_keeps hI _) (.ret _)

end

section
variable {J : Document → Prop}

theorem finishTransaction_keeps (hJ : Transactional J) (entry : JournalEntry) :
    Keeps (fun s => J s.document) (finishTransaction codec entry) := by
  have hclose : Keeps (fun s => J s.document)
      (appendJournal codec entry >>= fun _ => closeTransaction) :=
    .bind (.write fun _ hs => hs) fun _ => .write fun s hs => hJ s.document hs
  unfold finishTransaction
  refine .load_bind fun s hs => Keeps.at ?_ hs
  split
  · exact .bind (replayInsert_keeps (untabled_document J) _ _) fun _ => hclose
  · exact hclose

theorem repairPendingTransaction_keeps (hJ : Transactional J) :
    Keeps (fun s => J s.document) (repairPendingTransaction codec) := by
  unfold repairPendingTransaction
  refine .load_bind fun s hs => Keeps.at ?_ hs
  split
  · exact .ret _
  · exact finishTransaction_keeps hJ _

end

theorem consistent_transactional : Transactional Consistent := fun _ h => h.of_eq rfl rfl rfl rfl rfl

/-- What a call needs of the document. -/
structure Ready (call : Call) (document : Document) : Prop where
  consistent : Consistent document
  clearsOpen : ClearsOpen call document
  room : document.state.revision < u64Max

theorem reduce_currentTurn_transactional {event : TurnEvent} (at_ : Int)
    (hkind : event.kind = .turnCompleted) :
    (reduce { document with pendingJournal := none } event at_).1.state.currentTurn =
      (reduce document event at_).1.state.currentTurn := by
  have hsame : completionApplies { document with pendingJournal := none } event =
      completionApplies document event := rfl
  unfold reduce
  rw [hsame]
  split
  · rfl
  · unfold reduceKind
    rw [hkind]
    rfl

theorem settle_currentTurn_transactional (at_ : Int) :
    (settleClaudeCompletion { document with pendingJournal := none } at_).state.currentTurn =
      (settleClaudeCompletion document at_).state.currentTurn := by
  unfold settleClaudeCompletion
  dsimp only
  split
  · rfl
  split
  · rfl
  · exact reduce_currentTurn_transactional _ rfl

theorem ready_transactional (call : Call) : Transactional (Ready call) := by
  intro document h
  refine ⟨consistent_transactional document h.consistent, fun hcleared => ?_, h.room⟩
  rw [settle_currentTurn_transactional]
  exact h.clearsOpen hcleared

/-- A computation that keeps what the call needs. -/
theorem keeps_consistent {α : Type} {call : Call} {m : Durable Store CliError α}
    (h : Keeps (fun s => Ready call s.document) m) :
    Triple (fun s => Ready call s.document) m (fun _ s => Ready call s.document)
      (fun _ s => Consistent s.document) (fun s => Consistent s.document) :=
  h.weaken (fun _ hs => hs) (fun _ _ hs => hs) (fun _ _ hs => hs.consistent)
    fun _ hs => hs.consistent

theorem reportDuplicate_keeps {J : Document → Prop} (call : Call) (exact : Bool) :
    Keeps (fun s => J s.document) (reportDuplicate codec call exact) := by
  unfold reportDuplicate
  refine .load_bind fun s hs => Keeps.at ?_ hs
  dsimp only
  split
  · exact .bind (.lift _) fun _ => .ret _
  · exact .ret _

theorem commitEvent_ends {J : Document → Prop} (hJ : Transactional J) {P : Store → Prop}
    {call : Call} {accepted : Document × Bool} (haccepted : ∀ seenEventCount pendingJournal,
      J { accepted.1 with seenEventCount, pendingJournal }) :
    Triple P (commitEvent codec call accepted)
      (fun result s => J s.document ∧ result.duplicate = false) (fun _ s => J s.document)
      (fun s => J s.document) := by
  unfold commitEvent
  refine .bind (R := fun _ (s : Store) => J s.document)
    (.write fun s _ => ⟨haccepted _ _, haccepted _ _⟩) fun _ =>
    .bind (finishTransaction_keeps hJ _) fun _ => .each fun s hs => .load_bind ?_
  have hend : Triple (· = s) (pure ⟨s.document.state, false⟩ : Durable Store CliError ActivityResult)
      (fun result s => J s.document ∧ result.duplicate = false) (fun _ s => J s.document)
      (fun s => J s.document) := .ret (by rintro t rfl; exact ⟨hs, rfl⟩)
  dsimp only
  split
  · exact .bind (R := fun _ => (· = s)) ((Keeps.lift _).weaken (fun _ ht => ht) (fun _ _ ht => ht)
      (by rintro _ t rfl; exact hs) (by rintro t rfl; exact hs)) fun _ => hend
  · exact hend

theorem ingestNew_consistent (call : Call) :
    Triple (fun s => Ready call s.document) (ingestNew codec call)
      (fun _ s => Consistent s.document) (fun _ s => Consistent s.document)
      (fun s => Consistent s.document) := by
  unfold ingestNew
  refine .each fun s hs => .load_bind ?_
  have haccepted : Consistent (acceptEvent codec s.journal s.document call).1 :=
    hs.consistent.accept s.journal call hs.clearsOpen hs.room
  have hcommit : ∀ {P : Store → Prop}, Triple P
      (commitEvent codec call (acceptEvent codec s.journal s.document call))
      (fun _ s => Consistent s.document) (fun _ s => Consistent s.document)
      (fun s => Consistent s.document) :=
    (commitEvent_ends consistent_transactional
      fun _ _ => haccepted.of_eq rfl rfl rfl rfl rfl).weaken
      (fun _ hs => hs) (fun _ _ hs => hs.1) (fun _ _ hs => hs) fun _ hs => hs
  dsimp only
  split
  · exact .bind (Keeps.at (resetReplayTable_keeps (untabled_document Consistent) _) hs.consistent)
      fun _ => hcommit
  · exact hcommit

theorem ingestAdmitted_consistent (call : Call) :
    Triple (fun s => Ready call s.document) (ingestAdmitted codec call)
      (fun _ s => Consistent s.document) (fun _ s => Consistent s.document)
      (fun s => Consistent s.document) := by
  have hreport : ∀ exact, Triple (fun s => Ready call s.document) (reportDuplicate codec call exact)
      (fun _ s => Consistent s.document) (fun _ s => Consistent s.document)
      (fun s => Consistent s.document) := fun exact =>
    (keeps_consistent (reportDuplicate_keeps call exact)).weaken (fun _ hs => hs)
      (fun _ _ hs => hs.consistent) (fun _ _ hs => hs) fun _ hs => hs
  have hseen : Keeps (fun s => Ready call s.document) (seenExactly codec call.event) :=
    seenExactly_keeps (untabled_document _) call.event
  unfold ingestAdmitted
  refine .each fun store hstore => .load_bind ?_
  refine Triple.weaken (.bind (keeps_consistent hseen) fun seen => ?_)
    (by rintro s rfl; exact hstore) (fun _ _ hs => hs) (fun _ _ hs => hs) fun _ hs => hs
  split
  · exact hreport true
  · split
    · exact hreport false
    · exact ingestNew_consistent call

/-- Wherever a call stops, the document agrees. -/
theorem ingestEvent_consistent (call : Call) :
    Triple (fun s => Ready call s.document) (ingestEvent codec call)
      (fun _ s => Consistent s.document) (fun _ s => Consistent s.document)
      (fun s => Consistent s.document) := by
  unfold ingestEvent
  refine .bind (keeps_consistent (.lift _)) fun _ => .each fun s hs => .load_bind ?_
  split
  · exact (keeps_consistent (.lift _)).weaken (by rintro t rfl; exact hs)
      (fun _ _ ht => ht.consistent) (fun _ _ ht => ht) fun _ ht => ht
  · refine Triple.weaken (.bind (keeps_consistent
      (repairPendingTransaction_keeps (ready_transactional call))) fun _ => ?_)
      (by rintro t rfl; exact hs) (fun _ _ ht => ht) (fun _ _ ht => ht) fun _ ht => ht
    refine .each fun s hs => .load_bind ?_
    split
    · exact (keeps_consistent (.lift _)).weaken (by rintro t rfl; exact hs)
        (fun _ _ ht => ht.consistent) (fun _ _ ht => ht) fun _ ht => ht
    · exact (keeps_consistent (.ret _)).weaken (by rintro t rfl; exact hs)
        (fun _ _ ht => ht.consistent) (fun _ _ ht => ht) fun _ ht => ht
    · exact (ingestAdmitted_consistent call).weaken (by rintro t rfl; exact hs)
        (fun _ _ ht => ht) (fun _ _ ht => ht) fun _ ht => ht

/-! ## The other changes -/

theorem consistent_newDocument (existing : Option Document) (runtime : Runtime)
    (hbounded : ∀ document, existing = some document → document.state.revision ≤ u64Max) :
    Consistent (newDocument existing runtime) := by
  refine ⟨agrees_of_quiet rfl ?_ ?_ ?_ ?_, Nat.zero_le _, ?_⟩
  · rintro _ ⟨⟩
  · simp [newDocument, documentForRuntime, startingState]
  · intro hphase
    simp [newDocument, documentForRuntime, startingState] at hphase
  · intro hphase
    simp [newDocument, documentForRuntime, startingState] at hphase
  · cases existing with
    | none => exact (by decide : 1 ≤ u64Max)
    | some document => exact u64Succ_le (hbounded document rfl)

theorem activateRuntime_keeps (runtime : Runtime) :
    Keeps (fun s => Consistent s.document) (activateRuntime codec runtime) := by
  unfold activateRuntime
  refine .bind (repairPendingTransaction_keeps consistent_transactional) fun _ =>
    .load_bind fun s hs => Keeps.at ?_ hs
  refine .ite (.write fun s hs => hs.of_eq rfl rfl rfl rfl rfl) ?_
  refine .bind (.write fun s hs => hs) fun _ => .write fun s hs => ?_
  exact consistent_newDocument _ runtime (by rintro _ ⟨⟩; exact hs.bounded)

theorem Consistent.reconcile (h : Consistent document) {lines : List JournalLine}
    {input : ReconcileInput} {document' : Document}
    (hok : operatorReconcile codec lines document input = .ok document') : Consistent document' := by
  unfold operatorReconcile at hok
  simp only [ensure_bind_ok, orErr_bind_ok] at hok
  obtain ⟨-, -, -, -, current, -, -, hstopped, hok⟩ := hok
  cases Except.ok.inj hok
  have hquiet : document.quiet = true := by
    simp only [stoppedExactly, Bool.and_eq_true] at hstopped
    exact hstopped.1.2
  refine ⟨agrees_of_quiet hquiet ?_ ?_ ?_ ?_, ?_, u64Succ_le h.bounded⟩
  · rintro _ ⟨⟩
  · simp [reconciled]
  · simp [reconciled]
  · simp [reconciled]
  · have hcount : (reconciled document current input).pendingCount = 0 :=
      pendingCount_of_quiet hquiet
    rw [hcount]
    exact Nat.zero_le _

theorem Consistent.rebind (h : Consistent document) (runtime : Runtime) (agent : Provider)
    (at_ : Int) : Consistent (conversationRebind document runtime agent at_) := by
  refine ⟨agrees_of_quiet rfl ?_ ?_ ?_ ?_, Nat.zero_le _, u64Succ_le h.bounded⟩
  · rintro _ ⟨⟩
  · simp [conversationRebind, documentForRuntime]
  · simp [conversationRebind, documentForRuntime]
  · intro _
    rfl

structure Degraded (state : TurnState) : Prop where
  phase : state.phase = .unknown
  attention : ∀ current, state.currentTurn = some current → current.attention = none
  bounded : state.revision ≤ u64Max

theorem degraded_degradedState {state : TurnState} (hbounded : state.revision ≤ u64Max)
    (at_ : Int) : Degraded (degradedState state at_) where
  phase := rfl
  attention current hcurrent := by
    simp only [degradedState, Option.map_eq_some_iff] at hcurrent
    obtain ⟨before, -, rfl⟩ := hcurrent
    rfl
  bounded := u64Succ_le hbounded

theorem Consistent.marker (h : Consistent document) (runtime : Runtime) (at_ : Int) :
    Degraded (markerState document runtime at_) := by
  unfold markerState
  split
  · split
    · rename_i hunknown
      refine ⟨hunknown.2, fun current hcurrent => ?_, h.bounded⟩
      -- an unknown phase asks for no input, so nothing is pending
      have hquiet : document.quiet = true := by
        cases hq : document.quiet with
        | true => rfl
        | false =>
          have hphase := h.needsInput.mpr hq
          rw [hunknown.2] at hphase
          cases hphase
      rw [h.attention current hcurrent, attentionView_of_quiet hquiet]
    · exact degraded_degradedState h.bounded at_
  · exact ⟨rfl, by rintro _ ⟨⟩, Nat.zero_le _⟩

theorem Degraded.consistent {marker : TurnState} (hmarker : Degraded marker)
    (h : Consistent document) (reason : String) (at_ : Int) :
    Consistent (unhealthyDocument document reason marker at_) := by
  have hdegraded : Degraded (if document.state.revision < marker.revision then marker
      else degradedState document.state at_) := by
    split
    · exact hmarker
    · exact degraded_degradedState h.bounded at_
  refine ⟨agrees_of_quiet rfl hdegraded.attention ?_ ?_ ?_, Nat.zero_le _, hdegraded.bounded⟩
  · simp [unhealthyDocument, hdegraded.phase]
  · simp [unhealthyDocument, hdegraded.phase]
  · simp [unhealthyDocument, hdegraded.phase]

theorem markRuntimeUnhealthy_keeps {marker : TurnState} (hmarker : Degraded marker)
    (runtime : Runtime) (reason : String) (at_ : Int) :
    Keeps (fun s => Consistent s.document)
      (markRuntimeUnhealthy codec runtime reason marker at_) := by
  unfold markRuntimeUnhealthy
  refine .bind (repairPendingTransaction_keeps consistent_transactional) fun _ =>
    .load_bind fun s hs => Keeps.at ?_ hs
  exact .ite (.lift _) (.ite (.ret _) (.write fun s hs => hmarker.consistent hs reason at_))

/-! ## Runs -/

structure Life where
  store : Store
  marker : Option TurnState

inductive LifeLabel
  | ingest (call : Call)
  | activate (runtime : Runtime)
  | reconcile (input : ReconcileInput)
  | rebind (runtime : Runtime) (agent : Provider) (at_ : Int)
  | observe (runtime : Runtime) (at_ : Int)
  | degrade (runtime : Runtime) (reason : String) (at_ : Int)

inductive LifeStep (codec : Codec) : LifeLabel → Life → Life → Prop
  | ingest {call : Call} {life : Life} {store : Store}
      (h : (ingestEvent codec call).Stops life.store store) :
      LifeStep codec (.ingest call) life { life with store }
  | activate {runtime : Runtime} {life : Life} {store : Store}
      (h : (activateRuntime codec runtime).Stops life.store store) :
      LifeStep codec (.activate runtime) life { life with store }
  | reconcile {input : ReconcileInput} {life : Life} {document : Document}
      (h : operatorReconcile codec life.store.journal life.store.document input = .ok document) :
      LifeStep codec (.reconcile input) life { life with store := { life.store with document } }
  | rebind {runtime : Runtime} {agent : Provider} {at_ : Int} {life : Life} :
      LifeStep codec (.rebind runtime agent at_) life { life with store := { life.store with
        document := conversationRebind life.store.document runtime agent at_ } }
  | observe {runtime : Runtime} {at_ : Int} {life : Life} :
      LifeStep codec (.observe runtime at_) life
        { life with marker := some (markerState life.store.document runtime at_) }
  | degrade {runtime : Runtime} {reason : String} {at_ : Int} {life : Life} {marker : TurnState}
      {store : Store} (hmarker : life.marker = some marker)
      (h : (markRuntimeUnhealthy codec runtime reason marker at_).Stops life.store store) :
      LifeStep codec (.degrade runtime reason at_) life { life with store }

def lifeSystem (codec : Codec) : Lts where
  State := Life
  Label := LifeLabel
  init life := life.marker = none ∧ ∃ runtime, life.store.document = newDocument none runtime
  step := LifeStep codec

def Tame : LifeLabel → Life → Prop
  | .ingest call, life =>
    ClearsOpen call life.store.document ∧ life.store.document.state.revision < u64Max
  | _, _ => True

/-- The document agrees, and the state that marks it degraded shows nothing as pending. -/
structure Steady (life : Life) : Prop where
  document : Consistent life.store.document
  marker : ∀ marker, life.marker = some marker → Degraded marker

theorem steady_step (label : LifeLabel) (life life' : Life) (h : Steady life)
    (htame : Tame label life) (hstep : LifeStep codec label life life') : Steady life' := by
  cases hstep with
  | ingest hstop =>
    refine ⟨?_, h.marker⟩
    exact (ingestEvent_consistent _).stops ⟨h.document, htame.1, htame.2⟩ h.document hstop
  | activate hstop => exact ⟨(activateRuntime_keeps _).stops h.document hstop, h.marker⟩
  | reconcile hok => exact ⟨h.document.reconcile hok, h.marker⟩
  | rebind => exact ⟨h.document.rebind _ _ _, h.marker⟩
  | observe => exact ⟨h.document, by rintro _ ⟨⟩; exact h.document.marker _ _⟩
  | degrade hmarker hstop =>
    exact ⟨(markRuntimeUnhealthy_keeps (h.marker _ hmarker) _ _ _).stops h.document hstop, h.marker⟩

/-- In every run that clears questions only while a turn is open: the phase is needs-input exactly
when something is pending, the current turn shows what is pending and counts it, a working or asking
session has a turn, a waiting one has none and nothing pending, and an applied event raises the
revision. -/
theorem turn_state_consistent {life : Life} (h : ((lifeSystem codec).restrict Tame).Reach life) :
    (life.store.document.state.phase = .needsInput ↔
      life.store.document.pendingAttention ≠ [] ∨ life.store.document.overflowAttention ≠ none) ∧
    (∀ current, life.store.document.state.currentTurn = some current →
      current.attention = attentionView life.store.document.pendingAttention
        life.store.document.overflowAttention ∧
      ∀ view, current.attention = some view →
        view.pendingCount = life.store.document.pendingCount) ∧
    (life.store.document.state.phase = .working ∨ life.store.document.state.phase = .needsInput →
      life.store.document.state.currentTurn ≠ none) ∧
    (life.store.document.state.phase = .waiting → life.store.document.state.currentTurn = none ∧
      life.store.document.pendingAttention = [] ∧ life.store.document.overflowAttention = none) ∧
    ∀ journal call, life.store.document.state.revision < u64Max →
      (acceptEvent codec journal life.store.document call).2 = true →
        life.store.document.state.revision <
          (acceptEvent codec journal life.store.document call).1.state.revision := by
  obtain ⟨hconsistent, -⟩ : Steady life := h.invariant
    (fun life hinit => ⟨by
      obtain ⟨-, runtime, hdocument⟩ := hinit
      rw [hdocument]
      exact consistent_newDocument none runtime (by rintro _ ⟨⟩), by
      obtain ⟨hmarker, -⟩ := hinit
      rw [hmarker]
      rintro _ ⟨⟩⟩)
    fun label s t hs (hst : Tame label s ∧ LifeStep codec label s t) =>
      steady_step label s t hs hst.1 hst.2
  have hcount := le_trans hconsistent.counted hconsistent.bounded
  refine ⟨?_, fun current hcurrent => ?_, hconsistent.opened, fun hwaiting => ?_,
    fun journal call hroom happlied => hconsistent.raises hroom happlied⟩
  · rw [hconsistent.needsInput, ← Bool.not_eq_true, quiet_iff, not_and_or]
  · have hattention := hconsistent.attention current hcurrent
    exact ⟨hattention, fun view hview => attentionView_count (hattention.symm.trans hview) hcount⟩
  · obtain ⟨hnone, hquiet⟩ := hconsistent.waiting hwaiting
    exact ⟨hnone, quiet_iff.mp hquiet⟩

/-! ## Samples -/

/-- A session that was just activated. -/
def sampleLife : Life :=
  let document := newDocument none ⟨"r", 1, 0, none⟩
  ⟨{ document, journal := [], tableZero := some document.freshTable, tableOne := none
     counted := [], applied := [] }, none⟩

/-- The session after these calls. -/
def lifeAfter (calls : List Call) : Life :=
  calls.foldl
    (fun life call => { life with store := (ingestEvent sampleCodec call).after life.store }) sampleLife

theorem reach_lifeAfter (calls : List Call) : (lifeSystem sampleCodec).Reach (lifeAfter calls) := by
  have hstart : (lifeSystem sampleCodec).Reach sampleLife := .init ⟨rfl, _, rfl⟩
  unfold lifeAfter
  generalize sampleLife = life at hstart
  induction calls generalizing life with
  | nil => exact hstart
  | cons call calls ih => exact ih _ (hstart.next (.ingest (stops_after _ life.store)))

/-- A question that is cleared after its turn ended leaves a working session without a turn. -/
theorem cleared_after_completion : ¬ ∀ life, (lifeSystem sampleCodec).Reach life →
    life.store.document.state.phase = .working ∨ life.store.document.state.phase = .needsInput →
      life.store.document.state.currentTurn ≠ none := by
  intro hopened
  refine hopened (lifeAfter [sampleCall "a" "t1" .turnStarted 1,
    sampleCall "b" "t1" .attentionRequested 2, sampleCall "c" "t1" .turnCompleted 3,
    sampleCall "d" "t1" .attentionCleared 4]) (reach_lifeAfter _) (.inl ?_) ?_
  · decide
  · decide

instance (call : Call) (document : Document) : Decidable (ClearsOpen call document) :=
  inferInstanceAs (Decidable (_ → _))

/-- The steps of calls, each of which is tame. -/
theorem reach_tame {life : Life} (h : ((lifeSystem sampleCodec).restrict Tame).Reach life)
    (call : Call) (htame : Tame (.ingest call) life) :
    ((lifeSystem sampleCodec).restrict Tame).Reach
      { life with store := (ingestEvent sampleCodec call).after life.store } :=
  h.next ⟨htame, .ingest (stops_after _ life.store)⟩

theorem turn_state_consistent_sample :
    (lifeAfter [sampleCall "a" "t1" .turnStarted 1, sampleCall "b" "t1" .attentionRequested 2,
      sampleCall "c" "t1" .attentionCleared 3]).store.document.state.currentTurn ≠ none := by
  have hstart : ((lifeSystem sampleCodec).restrict Tame).Reach sampleLife := .init ⟨rfl, _, rfl⟩
  have hstarted := reach_tame hstart (sampleCall "a" "t1" .turnStarted 1)
    ⟨by decide, by decide⟩
  have hasked := reach_tame hstarted (sampleCall "b" "t1" .attentionRequested 2)
    ⟨by decide, by decide⟩
  have hcleared := reach_tame hasked (sampleCall "c" "t1" .attentionCleared 3)
    ⟨by decide, by decide⟩
  obtain ⟨-, -, hopened, -, -⟩ := turn_state_consistent hcleared
  exact hopened (.inl (by decide))

end NilsCli.Activity
