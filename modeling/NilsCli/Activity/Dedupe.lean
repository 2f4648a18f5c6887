import NilsCli.Activity.Replay

/-!
# Exact deduplication

The calls of `ingest_event` within one runtime generation, each of which may stop after any of its
durable writes.
-/

namespace NilsCli.Activity

open Lib Lib.Durable List
variable {entry : JournalEntry} {accepted : Document × Bool}

variable {store' : Store} {call : Call}

variable (document : Document) (event : TurnEvent) (at_ : Int)

open Coordination (CliError)

variable {codec : Codec} {store : Store}

/-! ## What reducing keeps -/

def Document.run (document : Document) : String × Nat × Nat :=
  (document.runtimeId, document.runtimeGeneration, document.seenEventCount)

@[simp] theorem run_openProviderTurn (id : Option String) (at_ : Int) :
    (openProviderTurn document id at_).run = document.run := rfl

@[simp] theorem run_refreshAttention : (refreshAttention document).run = document.run := rfl

@[simp] theorem run_withCurrentTurn (current : Option CurrentTurn) :
    (document.withCurrentTurn current).run = document.run := rfl

@[simp] theorem run_withPhase (phase : TurnPhase) :
    (document.withPhase phase).run = document.run := rfl

@[simp] theorem run_closeTurn : (closeTurn document event at_).run = document.run := rfl

theorem run_ite {c : Prop} [Decidable c] {document document' other : Document}
    (h : document'.run = document.run) (h' : other.run = document.run) :
    (if c then document' else other).run = document.run := by
  split
  · exact h
  · exact h'

@[simp] theorem run_requestAttention :
    (requestAttention document event at_).run = document.run := by
  refine run_ite rfl (run_ite rfl ?_)
  cases document.overflowAttention <;> rfl

@[simp] theorem run_reduceAttentionRequested : (reduceAttentionRequested document event at_).run = document.run := by
  simp only [reduceAttentionRequested, run_withPhase, run_refreshAttention, run_requestAttention]
  split
  · exact run_ite rfl rfl
  · exact run_ite (run_ite rfl rfl) (run_ite rfl rfl)

@[simp] theorem run_reduceAttentionCleared : (reduceAttentionCleared document event at_).run = document.run := by
  simp only [reduceAttentionCleared, run_withPhase, run_refreshAttention]
  exact run_ite rfl rfl

@[simp] theorem run_reduceProgress : (reduceProgress document event at_).run = document.run := by
  have hturn : ∀ current : Document, current.run = document.run →
      (if event.sourceKind = .providerHook then current.withCurrentTurn
        (current.state.currentTurn.map (advanceLastProgressAt · at_)) else current).run =
          document.run := fun current hcurrent => run_ite hcurrent hcurrent
  exact run_ite (hturn _ rfl) (hturn _ rfl)

@[simp] theorem run_observeStop : (observeStop document event at_).run = document.run := by
  have hcleared : ∀ (c : Prop) [Decidable c] (cleared : Document), cleared.run = document.run →
      (if c then (if cleared.quiet then cleared.withPhase .working else cleared)
        else document).run = document.run :=
    fun c _ cleared h => run_ite (run_ite h h) rfl
  exact run_ite (hcleared _ _ rfl) (hcleared _ _ rfl)

theorem run_reduceKind : (reduceKind document event at_).run = document.run := by
  unfold reduceKind
  cases event.kind <;> simp

theorem run_reduce : (reduce document event at_).1.run = document.run := by
  unfold reduce
  split
  · rfl
  · exact run_reduceKind _ event at_

theorem run_settleClaudeCompletion : (settleClaudeCompletion document at_).run = document.run := by
  unfold settleClaudeCompletion
  split
  · rfl
  · split
    · rfl
    · exact run_reduce document _ _

theorem run_restoreProgressTurn (journal : List JournalLine) (document : Document)
    (event : TurnEvent) :
    (restoreProgressTurn codec.lineBytes journal document event).run = document.run := by
  unfold restoreProgressTurn
  split
  · split
    · simp only
      split
      · split <;> rfl
      · rfl
    · rfl
  · rfl

theorem run_acceptEvent (codec : Codec) (journal : List JournalLine) (document : Document) (call : Call) :
    (acceptEvent codec journal document call).1.run = document.run := by
  have hsettled := run_settleClaudeCompletion document call.receivedAt
  simp only [acceptEvent]
  split
  · have hreduced := ((run_reduce (restoreProgressTurn codec.lineBytes journal
      (settleClaudeCompletion document call.receivedAt) call.event) call.event
      call.receivedAt).trans (run_restoreProgressTurn journal _ _)).trans hsettled
    split
    · split
      · exact hreduced
      · exact hreduced
    · exact hreduced
  · exact hsettled

/-! ## The invariant -/

/-- The exact event whose transaction is pending. -/
def Store.pendingExact (store : Store) : Option TurnEvent :=
  (store.document.pendingJournal.map (·.event)).filter usesExactReplayHorizon

/-- The tables, by what is pending. -/
def TablesFit (codec : Codec) (store : Store) : Prop :=
  match store.pendingExact with
  | none => TablesReady codec store
  | some event => (∃ earlier, store.counted = earlier ++ [event]) ∧ TablesPending codec store

def Spaced (events : List TurnEvent) : Prop :=
  ∀ i j event event', i < j → j ≤ i + maxDedupeEvents → events[i]? = some event →
    events[j]? = some event' → event.eventId ≠ event'.eventId

/-- What holds after every write. -/
structure Deduped (codec : Codec) (store : Store) : Prop where
  count : store.document.seenEventCount = store.counted.length
  runtime : ∀ event ∈ store.counted, event.runtimeId = store.document.runtimeId
  once : store.applied.Sublist store.counted
  spaced : Spaced store.counted
  tables : TablesFit codec store

structure Untouched (store store' : Store) : Prop where
  run : store'.document.run = store.document.run
  state : store'.document.state = store.document.state
  counted : store'.counted = store.counted
  applied : store'.applied = store.applied

theorem Untouched.refl (store : Store) : Untouched store store := ⟨rfl, rfl, rfl, rfl⟩

theorem Untouched.trans {store'' : Store} (h : Untouched store store')
    (h' : Untouched store' store'') : Untouched store store'' :=
  ⟨h'.run.trans h.run, h'.state.trans h.state, h'.counted.trans h.counted,
    h'.applied.trans h.applied⟩

theorem Retabled.untouched (h : Retabled store store') :
    Untouched store store' := by
  obtain ⟨zero, one, rfl⟩ := h
  exact ⟨rfl, rfl, rfl, rfl⟩

theorem Untouched.deduped (h : Untouched store store')
    (hstore : Deduped codec store) (htables : TablesFit codec store') : Deduped codec store' := by
  have hcount : store'.document.seenEventCount = store.document.seenEventCount :=
    congrArg (·.2.2) h.run
  have hruntime : store'.document.runtimeId = store.document.runtimeId := congrArg (·.1) h.run
  refine ⟨?_, ?_, ?_, ?_, htables⟩
  · rw [hcount, h.counted, hstore.count]
  · rw [hruntime, h.counted]
    exact hstore.runtime
  · rw [h.applied, h.counted]
    exact hstore.once
  · rw [h.counted]
    exact hstore.spaced

theorem pendingExact_of_none (h : store.document.pendingJournal = none) :
    store.pendingExact = none := by
  simp [Store.pendingExact, h]

theorem pendingExact_of_some (h : store.document.pendingJournal = some entry) :
    store.pendingExact = if usesExactReplayHorizon entry.event then some entry.event else none := by
  rw [Store.pendingExact, h, Option.map_some]
  by_cases hexact : usesExactReplayHorizon entry.event
  · simp [hexact]
  · simp [hexact]

theorem TablesReady.fit (h : TablesReady codec store) (hnone : store.pendingExact = none) :
    TablesFit codec store := by
  rw [TablesFit, hnone]
  exact h

theorem TablesFit.ready (h : TablesFit codec store) (hnone : store.pendingExact = none) :
    TablesReady codec store := by
  rwa [TablesFit, hnone] at h

/-! ## Finishing a transaction -/

/-- The transaction of the document is closed, and nothing else of the document changed. -/
def Closed (codec : Codec) (store store' : Store) : Prop :=
  Untouched store store' ∧ store'.document = { store.document with pendingJournal := none } ∧
    TablesReady codec store'

theorem SameTables.fit (hsame : SameTables store store')
    (hpending : store'.pendingExact = store.pendingExact) (hcounted : store'.counted = store.counted)
    (h : TablesFit codec store) : TablesFit codec store' := by
  have hkeys : store'.keys = store.keys := by rw [Store.keys, hcounted, Store.keys]
  unfold TablesFit at h ⊢
  rw [hpending]
  cases hevent : store.pendingExact with
  | none =>
    rw [hevent] at h
    exact hsame.ready hkeys h
  | some event =>
    rw [hevent] at h
    exact ⟨hcounted ▸ h.1, hsame.pending hkeys h.2⟩

theorem closing_triple (entry : JournalEntry) :
    Triple (fun s => Untouched store s ∧ s.document = store.document ∧ TablesReady codec s ∧
        TablesFit codec s)
      (appendJournal codec entry >>= fun _ => closeTransaction)
      (fun _ s => Closed codec store s) (fun _ _ => False)
      (fun s => Untouched store s ∧ TablesFit codec s) := by
  have happended : ∀ (s : Store) (journal : List JournalLine),
      SameTables s { s with journal := journal } := fun _ _ => ⟨rfl, rfl, rfl, rfl⟩
  refine .bind (R := fun _ s => Untouched store s ∧ s.document = store.document ∧
    TablesReady codec s) (.write ?_) fun _ => .write ?_
  · rintro s ⟨hsame, hdocument, hready, hfit⟩
    have hsame' : Untouched store { s with
        journal := appendJournalEntry codec.lineBytes s.journal entry } :=
      ⟨hsame.run, hsame.state, hsame.counted, hsame.applied⟩
    exact ⟨⟨hsame', (happended s _).fit rfl rfl hfit⟩, hsame', hdocument,
      (happended s _).ready rfl hready⟩
  · rintro s ⟨hsame, hdocument, hready⟩
    have hsame' : Untouched store s.withoutPending :=
      ⟨hsame.run, hsame.state, hsame.counted, hsame.applied⟩
    have htables : SameTables s s.withoutPending := ⟨rfl, rfl, rfl, rfl⟩
    have hready' : TablesReady codec s.withoutPending := htables.ready rfl hready
    exact ⟨⟨hsame', hready'.fit (pendingExact_of_none rfl)⟩, hsame',
      by rw [Store.withoutPending, hdocument], hready'⟩

theorem finishTransaction_triple (hcount : store.document.seenEventCount = store.counted.length)
    (hpending : store.document.pendingJournal = some entry) (hfit : TablesFit codec store) :
    Triple (· = store) (finishTransaction codec entry)
      (fun _ s => Closed codec store s) (fun _ _ => False)
      (fun s => Untouched store s ∧ TablesFit codec s) := by
  have hevent := pendingExact_of_some hpending
  rw [finishTransaction]
  refine .load_bind ?_
  by_cases hexact : usesExactReplayHorizon entry.event
  · rw [if_pos hexact] at hevent
    simp only [if_pos hexact]
    -- the pending event is the newest that was counted
    rw [TablesFit, hevent] at hfit
    obtain ⟨⟨earlier, hearlier⟩, htables⟩ := hfit
    have hkeys : store.keys = earlier.map (·.dedupeKey) ++ [entry.event.dedupeKey] := by
      simp [Store.keys, hearlier]
    have hindex : store.document.seenEventCount - 1 = (earlier.map (·.dedupeKey)).length := by
      simp [hcount, hearlier]
    have hfits : ∀ s, Retabled store s → TablesPending codec s → TablesFit codec s := by
      rintro s ⟨zero, one, rfl⟩ hs
      unfold TablesFit
      rw [show Store.pendingExact { store with tableZero := zero, tableOne := one } =
        some entry.event from hevent]
      exact ⟨⟨earlier, hearlier⟩, hs⟩
    rw [hindex]
    refine .bind ((replayInsert_triple hkeys).weaken ?_ ?_ (fun _ _ h => h) ?_)
      fun _ => closing_triple entry
    · rintro s rfl
      exact ⟨.refl s, htables⟩
    · rintro - s ⟨hsame, hdone⟩
      refine ⟨hsame.untouched, ?_, hdone.ready, hfits s hsame hdone.pending⟩
      obtain ⟨zero, one, rfl⟩ := hsame
      rfl
    · rintro s ⟨hsame, hpending⟩
      exact ⟨hsame.untouched, hfits s hsame hpending⟩
  · rw [if_neg hexact] at hevent
    simp only [hexact, Bool.false_eq_true, if_false]
    refine (closing_triple entry).weaken ?_ (fun _ _ h => h) (fun _ _ h => h) fun _ h => h
    rintro s rfl
    exact ⟨.refl s, rfl, hfit.ready hevent, hfit⟩

theorem repairPendingTransaction_triple (h : Deduped codec store) :
    Triple (· = store) (repairPendingTransaction codec)
      (fun _ s => Closed codec store s) (fun _ _ => False)
      (fun s => Untouched store s ∧ TablesFit codec s) := by
  rw [repairPendingTransaction]
  refine .load_bind ?_
  cases hpending : store.document.pendingJournal with
  | none =>
    refine .ret ?_
    rintro s rfl
    refine ⟨.refl s, ?_, h.tables.ready (pendingExact_of_none hpending)⟩
    rw [← hpending]
  | some entry => exact finishTransaction_triple h.count hpending h.tables

/-! ## Counting an event -/

theorem Spaced.append {events : List TurnEvent} {event : TurnEvent} (h : Spaced events)
    (hnew : ∀ earlier ∈ events.drop (events.length - maxDedupeEvents),
      earlier.eventId ≠ event.eventId) : Spaced (events ++ [event]) := by
  intro i j first second hij hj hfirst hsecond
  have hjlt : j < (events ++ [event]).length := (List.getElem?_eq_some_iff.mp hsecond).1
  rw [length_append, length_singleton] at hjlt
  rw [List.getElem?_append_left (by omega)] at hfirst
  rcases Nat.lt_or_ge j events.length with hlt | hge
  · rw [List.getElem?_append_left hlt] at hsecond
    exact h i j first second hij hj hfirst hsecond
  · obtain rfl : j = events.length := by omega
    rw [List.getElem?_concat_length] at hsecond
    obtain rfl := Option.some.inj hsecond
    exact hnew first (mem_drop_iff_getElem?.mpr ⟨i, by omega, hfirst⟩)

structure New (call : Call) (store : Store) : Prop where
  runtime : call.event.runtimeId = store.document.runtimeId
  key : usesExactReplayHorizon call.event → call.event.dedupeKey ∉ recent store.keys

theorem New.eventId_ne (h : New call store) (hstore : Deduped codec store)
    (hexact : usesExactReplayHorizon call.event) :
    ∀ earlier ∈ store.counted.drop (store.counted.length - maxDedupeEvents),
      earlier.eventId ≠ call.event.eventId := by
  intro earlier hearlier heq
  have hruntime := hstore.runtime earlier (mem_of_mem_drop hearlier)
  refine h.key hexact ?_
  have hkey : earlier.dedupeKey = call.event.dedupeKey := by
    rw [TurnEvent.dedupeKey, TurnEvent.dedupeKey, heq, hruntime, h.runtime]
  rw [recent, Store.keys, length_map, ← map_drop, ← hkey]
  exact mem_map_of_mem hearlier

/-- The first write of the document counts the event. -/
theorem opened_deduped (h : Deduped codec store)
    (hready : TablesReady codec store) (hnew : New call store)
    (hrun : accepted.1.run = store.document.run) :
    Deduped codec (store.opened call accepted) := by
  have hcount : accepted.1.seenEventCount = store.document.seenEventCount := congrArg (·.2.2) hrun
  have hruntime : accepted.1.runtimeId = store.document.runtimeId := congrArg (·.1) hrun
  have hsame : SameTables store (store.opened call accepted) :=
    ⟨hruntime, congrArg (·.2.1) hrun, rfl, rfl⟩
  have hentry : (store.opened call accepted).document.pendingJournal =
      some ⟨call.receivedAt, call.event, some accepted.2⟩ := rfl
  have hpending := pendingExact_of_some hentry
  by_cases hexact : usesExactReplayHorizon call.event
  · have hcounted : (store.opened call accepted).counted = store.counted ++ [call.event] :=
      if_pos hexact
    refine ⟨?_, ?_, ?_, ?_, ?_⟩
    · rw [hcounted, length_append, length_singleton, ← h.count, ← hcount]
      exact if_pos hexact
    · rw [hcounted]
      intro event hevent
      show event.runtimeId = accepted.1.runtimeId
      rw [hruntime]
      rcases List.mem_append.mp hevent with hevent | hevent
      · exact h.runtime event hevent
      · rw [List.mem_singleton.mp hevent, hnew.runtime]
    · rw [hcounted]
      show (if usesExactReplayHorizon call.event ∧ accepted.2 then store.applied ++ [call.event]
        else store.applied).Sublist _
      split
      · exact h.once.append (List.Sublist.refl _)
      · exact h.once.trans (sublist_append_left _ _)
    · rw [hcounted]
      exact h.spaced.append (hnew.eventId_ne h hexact)
    · rw [if_pos hexact] at hpending
      unfold TablesFit
      rw [hpending]
      have hkeys : (store.opened call accepted).keys = store.keys ++ [call.event.dedupeKey] := by
        rw [Store.keys, hcounted, map_append, map_singleton, Store.keys]
      exact ⟨⟨store.counted, hcounted⟩, hready.append hsame hkeys⟩
  · have hcounted : (store.opened call accepted).counted = store.counted := if_neg hexact
    have happlied : (store.opened call accepted).applied = store.applied :=
      if_neg fun hboth => hexact hboth.1
    have hkeys : (store.opened call accepted).keys = store.keys := by
      rw [Store.keys, hcounted, Store.keys]
    rw [if_neg hexact] at hpending
    refine ⟨?_, ?_, ?_, ?_, (hsame.ready hkeys hready).fit hpending⟩
    · rw [hcounted, ← h.count, ← hcount]
      exact if_neg hexact
    · rw [hcounted]
      show ∀ event ∈ store.counted, event.runtimeId = accepted.1.runtimeId
      rw [hruntime]
      exact h.runtime
    · rw [happlied, hcounted]
      exact h.once
    · rw [hcounted]
      exact h.spaced

theorem commitEvent_triple (h : Deduped codec store)
    (hready : TablesReady codec store) (hnew : New call store)
    (hrun : accepted.1.run = store.document.run) :
    Triple (· = store) (commitEvent codec call accepted)
      (fun _ _ => True) (fun e _ => call.armed = .error e)
      (fun s => Deduped codec s ∧ Untouched (store.opened call accepted) s) := by
  have hopened := opened_deduped h hready hnew hrun
  rw [commitEvent]
  refine .bind (R := fun _ s => s = store.opened call accepted) (.write ?_) fun _ =>
    .bind (R := fun _ _ => True) ?_ fun _ => ?_
  · rintro s rfl
    exact ⟨⟨hopened, .refl _⟩, rfl⟩
  · refine (finishTransaction_triple hopened.count rfl hopened.tables).weaken (fun _ h => h)
      (fun _ _ _ => trivial) (fun _ _ h => h.elim) ?_
    rintro s ⟨hsame, hfit⟩
    exact ⟨hsame.deduped hopened hfit, hsame⟩
  · refine .each fun s _ => .load_bind ?_
    split
    · refine .bind (R := fun _ _ => True) (.lift fun t _ => ?_) fun _ => .ret fun _ _ => trivial
      cases hcall : call.armed with
      | ok => trivial
      | error error => rfl
    · exact .ret fun _ _ => trivial

theorem Untouched.opened (h : Untouched store store') (call : Call) (accepted : Document × Bool) :
    Untouched (store.opened call accepted) (store'.opened call accepted) := by
  refine ⟨rfl, rfl, ?_, ?_⟩
  · simp only [Store.opened, h.counted]
  · simp only [Store.opened, h.applied]

/-- The table of the next window is reset. -/
def Store.nextWindow (store : Store) : Store :=
  store.setTable (replayTable store.document.seenEventCount) (store.runtimeTable fun _ => none)

theorem nextWindow_untouched (store : Store) : Untouched store store.nextWindow :=
  ((Retabled.refl store).setTable _ _).untouched

theorem nextWindow_document (store : Store) : store.nextWindow.document = store.document :=
  setTable_document _ _

theorem nextWindow_ready (h : Deduped codec store) (hready : TablesReady codec store)
    (hpos : store.document.seenEventCount > 0)
    (hmod : store.document.seenEventCount % maxDedupeEvents = 0) :
    TablesReady codec store.nextWindow := by
  have hcount : store.document.seenEventCount = store.keys.length := by
    rw [h.count, Store.keys, length_map]
  rw [Store.nextWindow, hcount]
  exact hready.reset (hcount ▸ hpos) (hcount ▸ hmod)

theorem ingestNew_triple (h : Deduped codec store)
    (hnone : store.document.pendingJournal = none) (hnew : New call store) :
    Triple (· = store) (ingestNew codec call)
      (fun _ _ => True) (fun e _ => call.armed = .error e)
      (fun s => Deduped codec s ∧ (Untouched store s ∨
        Untouched (store.opened call (acceptEvent codec store.journal store.document call)) s)) := by
  have hrun := run_acceptEvent codec store.journal store.document call
  have hready := h.tables.ready (pendingExact_of_none hnone)
  rw [ingestNew]
  refine .load_bind ?_
  by_cases hwindow : usesExactReplayHorizon call.event ∧ store.document.seenEventCount > 0 ∧
      store.document.seenEventCount % maxDedupeEvents = 0
  · -- the newest window is complete, and the table of the next one is reset
    simp only [if_pos hwindow]
    have hsame := nextWindow_untouched store
    have hready' := nextWindow_ready h hready hwindow.2.1 hwindow.2.2
    have hnone' : store.nextWindow.document.pendingJournal = none := by
      rw [nextWindow_document, hnone]
    have hdeduped := hsame.deduped h (hready'.fit (pendingExact_of_none hnone'))
    have hnew' : New call store.nextWindow := by
      refine ⟨?_, ?_⟩
      · rw [nextWindow_document, hnew.runtime]
      · rw [Store.nextWindow, setTable_keys]
        exact hnew.key
    refine .bind (R := fun _ s => s = store.nextWindow) (.write ?_) fun _ =>
      (commitEvent_triple hdeduped hready' hnew' (hrun.trans hsame.run.symm)).weaken
        (fun _ h => h) (fun _ _ h => h) (fun _ _ h => h) ?_
    · rintro s rfl
      exact ⟨⟨hdeduped, .inl hsame⟩, rfl⟩
    · rintro s ⟨hs, hopened⟩
      exact ⟨hs, .inr ((hsame.opened call _).trans hopened)⟩
  · simp only [if_neg hwindow]
    refine (commitEvent_triple h hready hnew hrun).weaken (fun _ h => h) (fun _ _ h => h)
      (fun _ _ h => h) ?_
    rintro s ⟨hs, hopened⟩
    exact ⟨hs, .inr hopened⟩

/-! ## One call -/

def Recent (call : Call) (store : Store) : Prop :=
  usesExactReplayHorizon call.event ∧
    ∃ earlier ∈ store.counted.drop (store.counted.length - maxDedupeEvents),
      earlier.eventId = call.event.eventId

theorem Recent.key (h : Recent call store) (hstore : Deduped codec store)
    (hruntime : call.event.runtimeId = store.document.runtimeId) :
    call.event.dedupeKey ∈ recent store.keys := by
  by_contra hkey
  obtain ⟨hexact, earlier, hearlier, heq⟩ := h
  exact New.eventId_ne ⟨hruntime, fun _ => hkey⟩ hstore hexact earlier hearlier heq

theorem reportDuplicate_triple (call : Call) (exact : Bool) {C : Store → Prop} :
    Triple (· = store) (reportDuplicate codec call exact)
      (fun r _ => r = ⟨store.document.state, true⟩) (fun e _ => call.armed = .error e) C := by
  rw [reportDuplicate]
  refine .load_bind ?_
  split
  · refine .bind (R := fun _ _ => True) (.lift fun t _ => ?_) fun _ => .ret fun _ _ => rfl
    cases hcall : call.armed with
    | ok => trivial
    | error error => rfl
  · exact .ret fun _ _ => rfl

theorem ingestAdmitted_triple (h : Deduped codec store)
    (hnone : store.document.pendingJournal = none)
    (hruntime : call.event.runtimeId = store.document.runtimeId) :
    Triple (· = store) (ingestAdmitted codec call)
      (fun r _ => Recent call store → r = ⟨store.document.state, true⟩)
      (fun e _ => call.armed = .error e)
      (fun s => Deduped codec s ∧ (Untouched store s ∨ ¬Recent call store ∧
        Untouched (store.opened call (acceptEvent codec store.journal store.document call)) s)) := by
  have hready := h.tables.ready (pendingExact_of_none hnone)
  obtain ⟨found, hfound, hkey⟩ := hready.contains h.count call.event.dedupeKey
  -- the lookup writes nothing and finds every recent key
  obtain ⟨seen, hseen, hlookup⟩ : ∃ seen, seenExactly codec call.event store = ([], .ok seen) ∧
      (usesExactReplayHorizon call.event → call.event.dedupeKey ∈ recent store.keys → seen) := by
    unfold seenExactly
    by_cases hexact : usesExactReplayHorizon call.event
    · exact ⟨found, by rw [if_pos hexact, hfound], fun _ => hkey⟩
    · exact ⟨false, by rw [if_neg hexact]; rfl, fun h => absurd h hexact⟩
  have hrecent : Recent call store → seen := fun hr => hlookup hr.1 (hr.key h hruntime)
  rw [ingestAdmitted]
  refine .load_bind (.bind_of_eq hseen ?_)
  cases hcase : seen with
  | true =>
    exact (reportDuplicate_triple call true).weaken (fun _ h => h) (fun _ _ h _ => h)
      (fun _ _ h => h) (fun _ h => h)
  | false =>
    simp only [Bool.false_eq_true, if_false]
    have hnot : ¬Recent call store := fun hr => by simpa [hcase] using hrecent hr
    split
    · exact (reportDuplicate_triple call false).weaken (fun _ h => h) (fun _ _ h _ => h)
        (fun _ _ h => h) (fun _ h => h)
    · have hnew : New call store := ⟨hruntime, fun hexact hmem => by
        simpa [hcase] using hlookup hexact hmem⟩
      refine (ingestNew_triple h hnone hnew).weaken (fun _ h => h) (fun _ _ _ hr => absurd hr hnot)
        (fun _ _ h => h) ?_
      rintro s ⟨hs, hsame | hopened⟩
      · exact ⟨hs, .inl hsame⟩
      · exact ⟨hs, .inr ⟨hnot, hopened⟩⟩

def Refuses (call : Call) (document : Document) (error : CliError) : Prop :=
  call.admitted = .error error ∨
    (document.runtimeId ≠ call.event.runtimeId ∨
      document.runtimeGeneration ≠ call.runtimeGeneration) ∧ error = runtimeIdMismatch ∨
    admission call document = .refused error ∨ call.armed = .error error

/-- The event of the call was counted, and reduced into the document of the repaired store. -/
def Counts (codec : Codec) (call : Call) (store store' : Store) : Prop :=
  ∃ journal, Untouched (store.opened call
    (acceptEvent codec journal { store.document with pendingJournal := none } call)) store'

theorem ingestEvent_triple (call : Call) (h : Deduped codec store) :
    Triple (· = store) (ingestEvent codec call)
      (fun r _ => Recent call store → r = ⟨store.document.state, true⟩)
      (fun e _ => Refuses call store.document e)
      (fun s => Deduped codec s ∧ (Untouched store s ∨
        ¬Recent call store ∧ Counts codec call store s)) := by
  rw [ingestEvent]
  refine .bind (R := fun _ s => s = store) (.lift ?_) fun _ => .load_bind ?_
  · rintro s rfl
    cases hcall : call.admitted with
    | ok => rfl
    | error error => exact .inl hcall
  split
  next hmismatch => exact .lift fun s _ => .inr (.inl ⟨hmismatch, rfl⟩)
  next hmatch =>
    refine .bind ((repairPendingTransaction_triple h).weaken (fun _ h => h) (fun _ _ h => h)
      (fun _ _ h => h.elim) fun s hs => ⟨hs.1.deduped h hs.2, .inl hs.1⟩) fun _ => .each ?_
    -- from here on the store is repaired; its document differs in what is pending only
    rintro repaired ⟨hsame, hdocument, hready⟩
    have hnone : repaired.document.pendingJournal = none := by rw [hdocument]
    have hdeduped := hsame.deduped h (hready.fit (pendingExact_of_none hnone))
    refine .load_bind ?_
    have hadmission : admission call repaired.document = admission call store.document := by
      rw [hdocument]
      rfl
    cases hcase : admission call repaired.document with
    | refused error =>
      exact .lift fun s _ => .inr (.inr (.inl (hadmission ▸ hcase)))
    | metadata => exact .ret fun s _ _ => by rw [hsame.state]
    | proceeds =>
      have hrecent : Recent call store ↔ Recent call repaired := by
        unfold Recent
        rw [hsame.counted]
      have hruntime : call.event.runtimeId = repaired.document.runtimeId := by
        push Not at hmatch
        rw [hdocument, hmatch.1]
      refine (ingestAdmitted_triple hdeduped hnone hruntime).weaken (fun _ h => h) ?_ ?_ ?_
      · intro r s hr hrecent'
        rw [hr (hrecent.mp hrecent'), hsame.state]
      · exact fun e s he => .inr (.inr (.inr he))
      · rintro s ⟨hs, hsame' | ⟨hnew, hopened⟩⟩
        · exact ⟨hs, .inl (hsame.trans hsame')⟩
        · refine ⟨hs, .inr ⟨fun hr => hnew (hrecent.mp hr), repaired.journal, ?_⟩⟩
          rw [← hdocument]
          exact (hsame.opened call _).trans hopened

/-! ## Runs -/

/-- The calls within one runtime generation. -/
def ingestSystem (codec : Codec) : Lts where
  State := Store
  Label := Call
  init store := store.document.seenEventCount = 0 ∧ store.document.pendingJournal = none ∧
    store.tableZero = some store.document.freshTable ∧ store.counted = [] ∧ store.applied = []
  step call store store' := (ingestEvent codec call).Stops store store'

theorem deduped_init (h : (ingestSystem codec).init store) : Deduped codec store := by
  obtain ⟨hcount, hpending, hzero, hcounted, happlied⟩ := h
  have hkeys : store.keys = [] := by rw [Store.keys, hcounted, map_nil]
  have hready : TablesReady codec store := by
    refine ⟨⟨_, hzero⟩, ?_, ?_⟩
    · rw [hkeys]
      exact ⟨_, hzero, represents_empty _ _⟩
    · rw [hkeys]
      exact fun hne => absurd rfl hne
  refine ⟨?_, ?_, ?_, ?_, hready.fit (pendingExact_of_none hpending)⟩
  · rw [hcount, hcounted, length_nil]
  · simp [hcounted]
  · rw [happlied]
    exact nil_sublist _
  · intro i j event event' _ _ hfirst
    rw [hcounted] at hfirst
    cases hfirst

theorem deduped_step (h : Deduped codec store)
    (hstep : (ingestSystem codec).step call store store') : Deduped codec store' :=
  ((ingestEvent_triple call h).stops rfl ⟨h, .inl (.refl store)⟩ hstep).1

theorem deduped_of_reach (h : (ingestSystem codec).Reach store) : Deduped codec store :=
  h.invariant (fun _ => deduped_init) fun _ _ _ => deduped_step

/-- Deduplication over every run with crashes anywhere. An event with the id of one of the last 4096
counted events is refused by a check before the replay lookup, or by the automatic resume that it
retries, or else reported as a duplicate; wherever its call stops, the turn state is the same. Every
other call leaves the turn state or counts its event, once. Counted events are applied at most once,
two with one id are more than 4096 apart, and no call ends with an error of the tables. -/
theorem dedupe_over_crashes (h : (ingestSystem codec).Reach store) (call : Call) :
    (Recent call store →
      ((ingestEvent codec call).result store = .ok ⟨store.document.state, true⟩ ∨
        ∃ error, (ingestEvent codec call).result store = .error error ∧
          Refuses call store.document error) ∧
      ∀ store', (ingestEvent codec call).Stops store store' → Untouched store store') ∧
    (∀ store', (ingestEvent codec call).Stops store store' →
      Untouched store store' ∨ Counts codec call store store') ∧
    (store.document.seenEventCount = store.counted.length ∧
      store.applied.Sublist store.counted ∧ Spaced store.counted) ∧
    ∀ error, (ingestEvent codec call).result store = .error error →
      Refuses call store.document error := by
  have hdeduped := deduped_of_reach h
  have htriple := ingestEvent_triple call hdeduped
  have hends := htriple.ends rfl
  have hstops : ∀ store', (ingestEvent codec call).Stops store store' → Untouched store store' ∨
      ¬Recent call store ∧ Counts codec call store store' := fun store' hstop =>
    (htriple.stops rfl ⟨hdeduped, .inl (.refl store)⟩ hstop).2
  refine ⟨fun hrecent => ⟨?_, fun store' hstop => ?_⟩, fun store' hstop => ?_,
    ⟨hdeduped.count, hdeduped.once, hdeduped.spaced⟩, fun error herror => ?_⟩
  · cases hresult : (ingestEvent codec call).result store with
    | ok result =>
      rw [hresult] at hends
      rw [hends hrecent]
      exact .inl rfl
    | error error =>
      rw [hresult] at hends
      exact .inr ⟨error, rfl, hends⟩
  · rcases hstops store' hstop with hsame | ⟨hnot, -⟩
    · exact hsame
    · exact absurd hrecent hnot
  · exact (hstops store' hstop).imp_right And.right
  · rw [herror] at hends
    exact hends

/-- Every key starts at slot 0. -/
def sampleCodec : Codec := ⟨fun _ => 0, fun _ => 100⟩

/-- A runtime that has just started. -/
def sampleStart : Store :=
  let document : Document :=
    { runtimeId := "r", runtimeGeneration := 1
      state :=
        { phase := .starting, phaseChangedAt := 0, revision := 0
          source := ⟨.runtime, none, .authoritative⟩
          semanticEvent := none, diagnostic := none, shadowObservation := none
          currentTurn := none, lastTurn := none }
      pendingAttention := [], overflowAttention := none, seenEventCount := 0
      lastSemanticEvent := none, lastSemanticEventAt := none, lastProviderEventKind := none
      lastProviderEventProvider := none, lastProviderEventAt := none
      lastProviderEventTurnId := none, providerSessionId := none, lastEventAt := none
      pendingJournal := none, pendingCompletion := none, runtimeUnhealthyReason := none }
  { document, journal := [], tableZero := some document.freshTable, tableOne := none
    counted := [], applied := [] }

def sampleCall (eventId turnId : String) (kind : TurnEventKind) (at_ : Int) : Call where
  event :=
    { eventId, runtimeId := "r", provider := .codex, providerSessionId := some "s"
      providerTurnId := some turnId, kind
      completionCandidate := false, completionCandidateReason := none, failureReason := none
      attentionId := some "question"
      attentionKind := some "clarification"
      attentionCorrelationAmbiguous := false, attentionCorrelationExact := false
      confidence := .authoritative, sourceKind := .providerHook }
  admitted := .ok ()
  runtimeGeneration := 1
  systemEphemeralHook := false
  receivedAt := at_ * nanosPerSecond
  armed := .ok ()

/-- The store after these calls. -/
def sampleRun (calls : List Call) : Store :=
  calls.foldl (fun store call => (ingestEvent sampleCodec call).after store) sampleStart

theorem reach_sampleRun (calls : List Call) : (ingestSystem sampleCodec).Reach (sampleRun calls) := by
  have hstart : (ingestSystem sampleCodec).Reach sampleStart := .init ⟨rfl, rfl, rfl, rfl, rfl⟩
  unfold sampleRun
  generalize sampleStart = store at hstart
  induction calls generalizing store with
  | nil => exact hstart
  | cons call calls ih => exact ih _ (hstart.next (stops_after _ store))

instance (call : Call) (store : Store) : Decidable (Recent call store) :=
  inferInstanceAs (Decidable (_ ∧ _))

theorem dedupe_over_crashes_sample :
    Recent (sampleCall "a" "t1" .turnStarted 9) (sampleRun [sampleCall "a" "t1" .turnStarted 1]) ∧
      ∀ store', (ingestEvent sampleCodec (sampleCall "a" "t1" .turnStarted 9)).Stops
        (sampleRun [sampleCall "a" "t1" .turnStarted 1]) store' →
          Untouched (sampleRun [sampleCall "a" "t1" .turnStarted 1]) store' := by
  have hrecent : Recent (sampleCall "a" "t1" .turnStarted 9)
      (sampleRun [sampleCall "a" "t1" .turnStarted 1]) := by decide +kernel
  exact ⟨hrecent, ((dedupe_over_crashes (reach_sampleRun _) _).1 hrecent).2⟩

/-- A question that is delivered again after the next turn started is refused, although it is among
the recent events. -/
theorem late_question_refused :
    (ingestSystem sampleCodec).Reach (sampleRun [sampleCall "a" "t1" .turnStarted 1,
        sampleCall "b" "t1" .attentionRequested 2, sampleCall "c" "t2" .turnStarted 3]) ∧
      Recent (sampleCall "b" "t1" .attentionRequested 4)
        (sampleRun [sampleCall "a" "t1" .turnStarted 1,
          sampleCall "b" "t1" .attentionRequested 2, sampleCall "c" "t2" .turnStarted 3]) ∧
      (ingestEvent sampleCodec (sampleCall "b" "t1" .attentionRequested 4)).result
        (sampleRun [sampleCall "a" "t1" .turnStarted 1,
          sampleCall "b" "t1" .attentionRequested 2, sampleCall "c" "t2" .turnStarted 3]) =
        .error providerTurnIdMismatch :=
  ⟨reach_sampleRun _, by decide +kernel, by decide +kernel⟩

end NilsCli.Activity
