import NilsCli.Activity.Dedupe
import NilsCli.Activity.Lifecycle

/-!
# Consistency of the turn state

The phase, the current turn and the pending questions of a document agree (`Consistent`): in every
state that events, activations, operators and rebinds lead to, as long as no question is cleared
while no turn is open (`Opened`).
-/

namespace NilsCli.Activity

open Lib Lib.Durable
variable (event : TurnEvent) (at_ : Int)

open Coordination (CliError)

def Document.pendingCount (document : Document) : Nat :=
  document.pendingAttention.length + document.overflowAttention.elim 0 (·.count)

structure Agrees (document : Document) : Prop where
  needsInput : document.state.phase = .needsInput ↔ document.quiet = false
  attention : ∀ current, document.state.currentTurn = some current →
    current.attention = attentionView document.pendingAttention document.overflowAttention
  opened : document.state.phase = .working ∨ document.state.phase = .needsInput →
    document.state.currentTurn ≠ none
  waiting : document.state.phase = .waiting →
    document.state.currentTurn = none ∧ document.quiet = true

structure Consistent (document : Document) : Prop extends Agrees document where
  counted : document.pendingCount ≤ document.state.revision
  bounded : document.state.revision ≤ u64Max

variable {document document' : Document}

/-! ## Questions -/

theorem quiet_iff : document.quiet = true ↔
    document.pendingAttention = [] ∧ document.overflowAttention = none := by
  simp [Document.quiet]

theorem attentionView_of_quiet (h : document.quiet = true) :
    attentionView document.pendingAttention document.overflowAttention = none := by
  obtain ⟨hpending, hoverflow⟩ := quiet_iff.mp h
  rw [hpending, hoverflow]
  rfl

theorem pendingCount_of_quiet (h : document.quiet = true) : document.pendingCount = 0 := by
  obtain ⟨hpending, hoverflow⟩ := quiet_iff.mp h
  simp [Document.pendingCount, hpending, hoverflow]

theorem attentionView_count {view : AttentionView}
    (h : attentionView document.pendingAttention document.overflowAttention = some view)
    (hcount : document.pendingCount ≤ u64Max) : view.pendingCount = document.pendingCount := by
  unfold Document.pendingCount at hcount ⊢
  cases hpending : document.pendingAttention with
  | nil =>
    rw [hpending] at h
    cases hoverflow : document.overflowAttention with
    | none => simp [hoverflow, attentionView] at h
    | some overflow =>
      rw [hoverflow] at h
      cases h
      simp
  | cons first rest =>
    rw [hpending] at h hcount
    cases h
    exact Nat.min_eq_left hcount

theorem Agrees.of_eq (h : Agrees document) (hphase : document'.state.phase = document.state.phase)
    (hcurrent : document'.state.currentTurn = document.state.currentTurn)
    (hpending : document'.pendingAttention = document.pendingAttention)
    (hoverflow : document'.overflowAttention = document.overflowAttention) : Agrees document' := by
  have hquiet : document'.quiet = document.quiet := by simp [Document.quiet, hpending, hoverflow]
  constructor
  · rw [hphase, hquiet]
    exact h.needsInput
  · rw [hcurrent, hpending, hoverflow]
    exact h.attention
  · rw [hphase, hcurrent]
    exact h.opened
  · rw [hphase, hcurrent, hquiet]
    exact h.waiting

theorem Agrees.quiet_of_none (h : Agrees document) (hnone : document.state.currentTurn = none) :
    document.quiet = true := by
  cases hquiet : document.quiet with
  | true => rfl
  | false => exact absurd hnone (h.opened (.inr (h.needsInput.mpr hquiet)))

theorem agrees_of_quiet (hquiet : document.quiet = true)
    (hattention : ∀ current, document.state.currentTurn = some current → current.attention = none)
    (hneeds : document.state.phase ≠ .needsInput)
    (hworking : document.state.phase = .working → document.state.currentTurn ≠ none)
    (hwaiting : document.state.phase = .waiting → document.state.currentTurn = none) :
    Agrees document where
  needsInput := by simp [hneeds, hquiet]
  attention current hcurrent := by
    rw [attentionView_of_quiet hquiet]
    exact hattention current hcurrent
  opened hphase := by
    rcases hphase with hphase | hphase
    · exact hworking hphase
    · exact absurd hphase hneeds
  waiting hphase := ⟨hwaiting hphase, hquiet⟩

/-! ## Kinds of events -/

@[simp] theorem quiet_refreshAttention : (refreshAttention document).quiet = document.quiet := rfl

/-- After a refresh the phase follows from what is pending. -/
theorem agrees_refreshed (hopen : document.state.currentTurn ≠ none) :
    Agrees ((refreshAttention document).withPhase
      (if document.quiet then .working else .needsInput)) := by
  obtain ⟨current, hcurrent⟩ := Option.ne_none_iff_exists'.mp hopen
  have hquiet : ∀ phase, ((refreshAttention document).withPhase phase).quiet = document.quiet :=
    fun _ => rfl
  constructor
  · rw [hquiet]
    cases hq : document.quiet <;> simp [Document.withPhase]
  · intro refreshed hrefreshed
    simp only [Document.withPhase, refreshAttention, hcurrent, Option.map_some,
      Option.some.injEq] at hrefreshed
    rw [← hrefreshed]
    rfl
  · intro _
    simp [Document.withPhase, refreshAttention, hcurrent]
  · intro hphase
    cases hq : document.quiet <;> simp [Document.withPhase, hq] at hphase

theorem agrees_turnStarted (id : Option String) (at_ : Int) :
    Agrees ((openProviderTurn document id at_).withPhase .working) := by
  refine agrees_of_quiet rfl ?_ (by simp [Document.withPhase]) ?_ ?_
  · rintro current hcurrent
    simp only [Document.withPhase, openProviderTurn, Option.some.injEq] at hcurrent
    rw [← hcurrent]
  · intro _
    simp [Document.withPhase, openProviderTurn]
  · intro hphase
    simp [Document.withPhase] at hphase

theorem agrees_closeTurn : Agrees (closeTurn document event at_) :=
  agrees_of_quiet rfl (by simp [closeTurn]) (by simp [closeTurn]) (by simp [closeTurn])
    (by simp [closeTurn])

theorem quiet_requestAttention : (requestAttention document event at_).quiet = false := by
  unfold requestAttention Document.quiet
  dsimp only
  split
  · rename_i hany
    cases hpending : document.pendingAttention with
    | nil => simp [hpending] at hany
    | cons first rest => rfl
  · split
    · simp
    · split <;> simp

theorem currentTurn_requestAttention :
    (requestAttention document event at_).state = document.state := by
  unfold requestAttention
  dsimp only
  split
  · rfl
  split
  · rfl
  split <;> rfl

theorem agrees_attentionRequested : Agrees (reduceAttentionRequested document event at_) := by
  have hrequest : ∀ turned : Document, turned.state.currentTurn ≠ none →
      Agrees ((refreshAttention (requestAttention turned event at_)).withPhase .needsInput) := by
    intro turned hturned
    have hrequested : (requestAttention turned event at_).state.currentTurn ≠ none := by
      rw [currentTurn_requestAttention]
      exact hturned
    have hagrees := agrees_refreshed hrequested
    rw [quiet_requestAttention] at hagrees
    exact hagrees
  unfold reduceAttentionRequested
  apply hrequest
  split
  · simp [Document.withCurrentTurn]
  · rename_i current hcurrent
    split
    · simp [Document.withCurrentTurn]
    · intro hnone
      rw [hcurrent] at hnone
      cases hnone

theorem agrees_attentionCleared (hopen : document.state.currentTurn ≠ none) :
    Agrees (reduceAttentionCleared document event at_) := by
  unfold reduceAttentionCleared
  dsimp only
  refine agrees_refreshed ?_
  split
  · simpa [Document.withCurrentTurn] using hopen
  · exact hopen

theorem advanceLastProgressAt_attention (current : CurrentTurn) (at_ : Int) :
    (advanceLastProgressAt current at_).attention = current.attention := by
  unfold advanceLastProgressAt
  split <;> rfl

theorem Agrees.progress (h : Agrees document) (event : TurnEvent) (at_ : Int) :
    Agrees (reduceProgress document event at_) := by
  obtain ⟨current, hcurrent, hattention⟩ : ∃ current,
      document.state.currentTurn.getD (turnOfEvent event at_) = current ∧
        current.attention = attentionView document.pendingAttention document.overflowAttention := by
    refine ⟨_, rfl, ?_⟩
    cases hturn : document.state.currentTurn with
    | none => exact (attentionView_of_quiet (h.quiet_of_none hturn)).symm
    | some current => exact h.attention current hturn
  have hprogress : ∀ progressed : CurrentTurn, progressed.attention = current.attention →
      Agrees (if document.quiet then (document.withCurrentTurn (some progressed)).withPhase .working
        else document.withCurrentTurn (some progressed)) := by
    intro progressed hsame
    cases hquiet : document.quiet with
    | true =>
      refine agrees_of_quiet hquiet ?_ (by simp [Document.withPhase])
        (by simp [Document.withPhase, Document.withCurrentTurn]) (by simp [Document.withPhase])
      rintro _ ⟨⟩
      rw [hsame, hattention, attentionView_of_quiet hquiet]
    | false =>
      have hneeds := h.needsInput.mpr hquiet
      simp only [Bool.false_eq_true, if_false]
      exact
        { needsInput := h.needsInput
          attention := by rintro _ ⟨⟩; exact hsame.trans hattention
          opened := fun _ => by simp [Document.withCurrentTurn]
          waiting := fun hphase => by
            have hwaiting : document.state.phase = .waiting := hphase
            rw [hneeds] at hwaiting
            cases hwaiting }
  unfold reduceProgress
  dsimp only
  rw [hcurrent]
  by_cases hhook : event.sourceKind = .providerHook
  · simp only [if_pos hhook]
    exact hprogress _ (advanceLastProgressAt_attention current at_)
  · simp only [if_neg hhook]
    exact hprogress current rfl

theorem observeStop_induction {P : Document → Prop} (event : TurnEvent) (at_ : Int)
    (hsame : P document)
    (hcleared : document.state.currentTurn ≠ none → ∀ p : PendingAttention → Bool,
      ∀ cleared, cleared = refreshAttention
          { document with pendingAttention := document.pendingAttention.filter p } →
        P (if cleared.quiet then cleared.withPhase .working else cleared))
    (hcandidate : ∀ stopped pendingCompletion, P stopped → P { stopped with pendingCompletion }) :
    P (observeStop document event at_) := by
  have hremembered : ∀ (stopped : Document) (c : Prop) [Decidable c], P stopped →
      P (if c then { stopped with pendingCompletion := some ⟨at_, event, some true⟩ }
        else stopped) := by
    intro stopped c _ hstopped
    split
    · exact hcandidate stopped _ hstopped
    · exact hstopped
  unfold observeStop
  apply hremembered
  split
  · rename_i hmatches
    refine hcleared ?_ _ _ rfl
    intro hnone
    cases hid : event.providerTurnId <;> simp [hid, TurnState.currentTurnId, hnone] at hmatches
  · exact hsame

theorem Agrees.observeStop (h : Agrees document) (event : TurnEvent) (at_ : Int) :
    Agrees (observeStop document event at_) := by
  refine observeStop_induction event at_ h ?_ fun _ _ hstopped => hstopped.of_eq rfl rfl rfl rfl
  rintro hopen p cleared rfl
  obtain ⟨filtered, hfiltered⟩ : ∃ filtered : Document, filtered =
      { document with pendingAttention := document.pendingAttention.filter p } := ⟨_, rfl⟩
  have hcurrent : filtered.state = document.state := by rw [hfiltered]
  have hagrees : Agrees ((refreshAttention filtered).withPhase
      (if filtered.quiet then .working else .needsInput)) := agrees_refreshed (hcurrent ▸ hopen)
  rw [← hfiltered, quiet_refreshAttention]
  cases hquiet : filtered.quiet with
  | true =>
    rw [hquiet] at hagrees
    exact hagrees
  | false =>
    rw [hquiet] at hagrees
    -- what is still pending was pending before
    have hbefore : document.quiet = false := by
      cases hq : document.quiet with
      | false => rfl
      | true =>
        obtain ⟨hnone, hoverflow⟩ := quiet_iff.mp hq
        simp [Document.quiet, hfiltered, hnone, hoverflow] at hquiet
    have hphase : filtered.state.phase = .needsInput := by
      rw [hcurrent]
      exact h.needsInput.mpr hbefore
    exact hagrees.of_eq hphase rfl rfl rfl

theorem Agrees.reduceKind (h : Agrees document) (event : TurnEvent) (at_ : Int)
    (hopen : event.kind = .attentionCleared → document.state.currentTurn ≠ none) :
    Agrees (reduceKind document event at_) := by
  unfold Activity.reduceKind
  cases hkind : event.kind with
  | turnStarted => exact agrees_turnStarted event.providerTurnId at_
  | attentionRequested => exact agrees_attentionRequested event at_
  | attentionCleared => exact agrees_attentionCleared event at_ (hopen hkind)
  | progress => exact h.progress event at_
  | stopObserved => exact h.observeStop event at_
  | turnCompleted => exact agrees_closeTurn event at_
  | turnFailed => exact agrees_closeTurn event at_

/-! ## Revision and count -/

theorem revision_reduceKind :
    (reduceKind document event at_).state.revision = document.state.revision := by
  unfold reduceKind
  cases event.kind with
  | turnStarted => rfl
  | attentionRequested =>
    simp only [reduceAttentionRequested, Document.withPhase, refreshAttention,
      currentTurn_requestAttention]
    split
    · split <;> rfl
    · split
      · split <;> rfl
      · split <;> rfl
  | attentionCleared =>
    simp only [reduceAttentionCleared, Document.withPhase, refreshAttention]
    split <;> rfl
  | progress =>
    simp only [reduceProgress]
    split <;> split <;> rfl
  | stopObserved =>
    refine observeStop_induction (P := fun stopped => stopped.state.revision = _) event at_ rfl ?_
      fun _ _ hstopped => hstopped
    rintro - p cleared rfl
    split <;> rfl
  | turnCompleted => rfl
  | turnFailed => rfl

theorem pendingCount_requestAttention :
    (requestAttention document event at_).pendingCount ≤ document.pendingCount + 1 := by
  unfold requestAttention Document.pendingCount
  dsimp only
  split
  · omega
  split
  · simp only [List.length_append, List.length_singleton]
    omega
  split
  · rename_i overflow hoverflow
    simp only [hoverflow, Option.elim_some, u64Succ]
    split <;> omega
  · rename_i hoverflow
    simp [hoverflow]

theorem pendingCount_mono {pending : List PendingAttention}
    (h : pending.length ≤ document.pendingAttention.length) :
    Document.pendingCount { document with pendingAttention := pending } ≤ document.pendingCount :=
  Nat.add_le_add_right h _

theorem pendingCount_reduceKind :
    (reduceKind document event at_).pendingCount ≤ document.pendingCount + 1 := by
  have hfilter : ∀ p : PendingAttention → Bool,
      Document.pendingCount { document with pendingAttention := document.pendingAttention.filter p } ≤
        document.pendingCount := fun p => pendingCount_mono (List.length_filter_le p _)
  unfold reduceKind
  cases event.kind with
  | turnStarted => exact Nat.zero_le _
  | attentionRequested =>
    have hrequest : ∀ turned : Document, turned.pendingCount ≤ document.pendingCount →
        (requestAttention turned event at_).pendingCount ≤ document.pendingCount + 1 :=
      fun turned hturned => le_trans (pendingCount_requestAttention event at_)
        (Nat.add_le_add_right hturned 1)
    apply hrequest
    have hopened : (if event.provider = .claude && event.providerTurnId.isSome &&
          document.state.currentTurnId.any (fun current => some current ≠ event.providerTurnId) then
        openProviderTurn document event.providerTurnId at_ else document).pendingCount ≤
          document.pendingCount := by
      split
      · exact Nat.zero_le _
      · exact Nat.le_refl _
    split
    · exact hopened
    · split
      · exact hopened
      · exact hopened
  | attentionCleared =>
    refine Nat.le_succ_of_le ?_
    have hcleared : ∀ cleared : Document, cleared.pendingCount ≤ document.pendingCount →
        ((refreshAttention cleared).withPhase
          (if (refreshAttention cleared).quiet then .working else .needsInput)).pendingCount ≤
            document.pendingCount := fun _ h => h
    apply hcleared
    split
    · exact hfilter _
    · exact hfilter _
  | progress =>
    refine Nat.le_succ_of_le (Nat.le_of_eq ?_)
    simp only [reduceProgress]
    split <;> split <;> rfl
  | stopObserved =>
    refine Nat.le_succ_of_le (observeStop_induction
      (P := fun stopped => stopped.pendingCount ≤ document.pendingCount) event at_ (Nat.le_refl _) ?_
      fun _ _ hstopped => hstopped)
    rintro - p cleared rfl
    split
    · exact hfilter p
    · exact hfilter p
  | turnCompleted => exact Nat.zero_le _
  | turnFailed => exact Nat.zero_le _

theorem u64Succ_le {n : Nat} (h : n ≤ u64Max) : u64Succ n ≤ u64Max := by
  unfold u64Succ
  split <;> omega

/-! ## Reduced documents -/

theorem Consistent.of_eq (h : Consistent document)
    (hphase : document'.state.phase = document.state.phase)
    (hcurrent : document'.state.currentTurn = document.state.currentTurn)
    (hrevision : document'.state.revision = document.state.revision)
    (hpending : document'.pendingAttention = document.pendingAttention)
    (hoverflow : document'.overflowAttention = document.overflowAttention) :
    Consistent document' where
  toAgrees := h.toAgrees.of_eq hphase hcurrent hpending hoverflow
  counted := by
    have hcount : document'.pendingCount = document.pendingCount := by
      simp [Document.pendingCount, hpending, hoverflow]
    rw [hcount, hrevision]
    exact h.counted
  bounded := hrevision ▸ h.bounded

theorem Consistent.reduce (h : Consistent document) (event : TurnEvent) (at_ : Int)
    (hopen : event.kind = .attentionCleared → document.state.currentTurn ≠ none)
    (hroom : document.pendingCount < u64Max) : Consistent (reduce document event at_).1 := by
  unfold Activity.reduce
  split
  · exact h
  · have hbase : Agrees { document with pendingCompletion := none } :=
      h.toAgrees.of_eq rfl rfl rfl rfl
    have hcount : (reduceKind { document with pendingCompletion := none } event at_).pendingCount ≤
        document.pendingCount + 1 := pendingCount_reduceKind event at_
    refine ⟨(hbase.reduceKind event at_ hopen).of_eq rfl rfl rfl rfl, ?_, ?_⟩
    · have hrevision := h.counted
      show (reduceKind { document with pendingCompletion := none } event at_).pendingCount ≤
        u64Succ (reduceKind { document with pendingCompletion := none } event at_).state.revision
      rw [revision_reduceKind]
      show _ ≤ u64Succ document.state.revision
      unfold u64Succ
      split <;> omega
    · show u64Succ (reduceKind _ event at_).state.revision ≤ u64Max
      rw [revision_reduceKind]
      exact u64Succ_le h.bounded

theorem revision_reduce {event : TurnEvent} {at_ : Int} (h : (reduce document event at_).2 = true) :
    (reduce document event at_).1.state.revision = u64Succ document.state.revision := by
  unfold reduce at h ⊢
  split
  · rename_i hrefused
    rw [if_pos hrefused] at h
    cases h
  · show u64Succ (reduceKind _ event at_).state.revision = _
    rw [revision_reduceKind]

theorem revision_reduce_le :
    document.state.revision ≤ (reduce document event at_).1.state.revision := by
  cases happlied : (reduce document event at_).2 with
  | true =>
    rw [revision_reduce happlied]
    exact le_u64Succ _
  | false =>
    unfold reduce at happlied ⊢
    split
    · exact Nat.le_refl _
    · rename_i hadmitted
      rw [if_neg hadmitted] at happlied
      cases happlied

/-- Settling closes the turn, or changes nothing here. -/
theorem Consistent.settle (h : Consistent document) (at_ : Int)
    (hroom : document.pendingCount < u64Max) :
    Consistent (settleClaudeCompletion document at_) ∧
      (settleClaudeCompletion document at_).pendingCount < u64Max := by
  unfold settleClaudeCompletion
  split
  · exact ⟨h, hroom⟩
  · rename_i pending hpending
    split
    · exact ⟨h, hroom⟩
    · dsimp only
      generalize hcompletion : { pending.event with
        kind := TurnEventKind.turnCompleted
        completionCandidate := false
        completionCandidateReason := none } = completion
      have hkind : completion.kind = .turnCompleted := by rw [← hcompletion]
      refine ⟨(h.reduce completion _ (fun hcleared => ?_) hroom).of_eq rfl rfl rfl rfl rfl, ?_⟩
      · rw [hkind] at hcleared
        cases hcleared
      · show (Activity.reduce document completion _).1.pendingCount < u64Max
        unfold Activity.reduce
        split
        · exact hroom
        · show (reduceKind _ completion _).pendingCount < u64Max
          rw [Activity.reduceKind, hkind]
          exact Nat.lt_of_le_of_lt (Nat.zero_le _) (by decide : 0 < u64Max)

theorem revision_settle_le (at_ : Int) :
    document.state.revision ≤ (settleClaudeCompletion document at_).state.revision := by
  unfold settleClaudeCompletion
  split
  · exact Nat.le_refl _
  · split
    · exact Nat.le_refl _
    · exact revision_reduce_le _ _

/-- A restored turn is open, and nothing is pending in it. -/
theorem Consistent.restore (h : Consistent document) (lineBytes : JournalEntry → Nat)
    (lines : List JournalLine) (event : TurnEvent) :
    Consistent (restoreProgressTurn lineBytes lines document event) ∧
      (restoreProgressTurn lineBytes lines document event).state.revision =
        document.state.revision ∧
      (restoreProgressTurn lineBytes lines document event).pendingCount ≤ document.pendingCount ∧
      (document.state.currentTurn ≠ none →
        (restoreProgressTurn lineBytes lines document event).state.currentTurn ≠ none) := by
  unfold restoreProgressTurn
  split
  swap
  · exact ⟨h, rfl, Nat.le_refl _, id⟩
  split
  swap
  · exact ⟨h, rfl, Nat.le_refl _, id⟩
  dsimp only
  split
  swap
  · exact ⟨h, rfl, Nat.le_refl _, id⟩
  split
  swap
  · exact ⟨h, rfl, Nat.le_refl _, id⟩
  rename_i hrestorable
  have hphase : document.state.phase = .working := by
    have hchecks := hrestorable.1
    simp only [restorable, Bool.and_eq_true, decide_eq_true_eq] at hchecks
    exact hchecks.1.1.1.1.1.1.2
  refine ⟨⟨agrees_of_quiet rfl ?_ ?_ ?_ ?_, Nat.zero_le _, h.bounded⟩, rfl, Nat.zero_le _, ?_⟩
  · rintro _ ⟨⟩
    rfl
  · show document.state.phase ≠ .needsInput
    simp [hphase]
  · intro _
    simp [Document.withCurrentTurn, openProviderTurn]
  · intro hwaiting
    have hwaiting : document.state.phase = .waiting := hwaiting
    simp [hphase] at hwaiting
  · intro _
    simp [Document.withCurrentTurn, openProviderTurn]

end NilsCli.Activity
