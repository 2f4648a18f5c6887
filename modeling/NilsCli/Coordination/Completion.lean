import NilsCli.Coordination.WorkSafety

/-!
# Durable completion

A persisted completion event waits for the next drain of the queue.
-/

namespace NilsCli.Coordination

open Lib

variable {event : CompletionEvent} {lease x : OperationLease} {ids : List EventId}
  {error : CliError} {n : Nat}

variable {codec : Codec} {env : Env} {r r' : Registry} {now : Int}

def Matched (r : Registry) : Prop :=
  ∀ event ∈ r.completionEvents, ∀ lease ∈ r.operations, event.names lease → lease.nonterminal →
    event.accepts lease

/-- The lock of this section renews no lease that is past the revision of a pending event. -/
def RenewalsSafe (env : Env) (r : Registry) : Prop :=
  ∀ event ∈ r.completionEvents, ∀ lease ∈ r.operations, event.names lease →
    lease.revision ≠ event.ifRevision → ¬ leaseRenewable env r.brokers env.lockNow lease

instance (env : Env) (r : Registry) : Decidable (RenewalsSafe env r) :=
  inferInstanceAs (Decidable (∀ event ∈ r.completionEvents, ∀ lease ∈ r.operations,
    event.names lease → lease.revision ≠ event.ifRevision →
      ¬ leaseRenewable env r.brokers env.lockNow lease))

/-! ## Moves keep events matched -/

theorem accepts_iff :
    event.accepts lease ↔ (lease.revision = event.ifRevision ∨
      (lease.state = .completing ∨ lease.state = .reconcilePending) ∧
        lease.revision = u64Succ event.ifRevision) ∧
      lease.executionTokenDigest = event.executionTokenDigest ∧ lease.nonterminal := by
  simp [CompletionEvent.accepts, CompletionEvent.revisionMatches, and_assoc]

theorem LeaseStep.names_of {renews pends : OperationLease → Prop} {y : OperationLease}
    (h : LeaseStep renews pends x y) (hn : event.names y) :
    event.names x := by
  obtain ⟨hid, hsid, hinc, -⟩ := h.same
  rw [names_iff] at hn ⊢
  rwa [← hid, ← hsid, ← hinc]

theorem accepts_expired (hx : x.state = .active) (ha : event.accepts x) :
    event.accepts { x with state := .completing, revision := u64Succ x.revision } := by
  rw [accepts_iff] at ha ⊢
  obtain ⟨hrev | ⟨hstate, -⟩, htoken, -⟩ := ha
  · exact ⟨.inr ⟨.inl rfl, by rw [hrev]⟩, htoken, rfl⟩
  · rw [hx] at hstate
    simp at hstate

theorem Matched.evolve (h : Matched r)
    (he : Evolves (LeaseStep (fun _ => False) fun x => Undrained r x) r.operations r'.operations)
    (hsub : r'.completionEvents ⊆ r.completionEvents) : Matched r' := by
  intro event hevent y hy hnames hn
  obtain ⟨x, hx, hstep⟩ := he.mem hy
  have hnx : event.names x := hstep.names_of hnames
  have ha : event.accepts x := h event (hsub hevent) x hx hnx (hstep.nonterminal_of hn)
  cases hstep with
  | stay => exact ha
  | renew _ hr => exact hr.elim
  | expire hactive => exact accepts_expired hactive ha
  | pend _ hundrained => exact absurd ha (hundrained event (hsub hevent) hnx)
  | finish _ state hs => exact absurd hn hs
  | stamp hterminal => exact absurd hn hterminal

theorem Matched.addEvent (hw : Work r) (h : Matched r) (hp : Persisted env r event lease) :
    Matched { r with completionEvents := r.completionEvents ++ [event] } := by
  intro event' hevent y hy hnames hn
  rcases List.mem_append.mp hevent with hevent | hevent
  · exact h event' hevent y hy hnames hn
  · obtain rfl := List.mem_singleton.mp hevent
    obtain rfl : lease = y := Option.some.inj (hp.found.symm.trans (hw.find_names hy hnames))
    exact accepts_iff.mpr ⟨.inl hp.revision, hp.token, hn⟩

theorem Matched.move (hw : Work r) (h : Matched r) (hm : Move codec env (fun _ => False) r r') :
    Matched r' := by
  have he := hm.leaseSteps
  cases hm with
  | mail | fingerprint | dropCursors | keepCursor | dropReceipts | claims | retireClaims | brokers | leases | endWork =>
    exact h.evolve he (List.Subset.refl _)
  | store key digest outcome hop free hstore =>
    obtain ⟨receipts, evictions, rfl, -⟩ := storeReceipt_spec hstore
    exact h.evolve he (List.Subset.refl _)
  | accept envelope outcome free hstore =>
    obtain ⟨receipts, evictions, rfl, -⟩ := storeReceipt_spec hstore
    exact h.evolve he (List.Subset.refl _)
  | drain event lease now hnow hevent hlease accepts hstore =>
    obtain ⟨receipts, evictions, rfl, -⟩ := storeReceipt_spec hstore
    exact h.evolve he (List.filter_subset_self _)
  | dropEvents p => exact h.evolve he (List.filter_subset_self _)
  | addEvent event lease hp => exact h.addEvent hw hp

theorem Matched.moves (hw : Work r) (h : Matched r) (hm : Moves codec env (fun _ => False) r r') :
    Matched r' := by
  induction hm with
  | refl => exact h
  | tail hm hmove ih => exact ih.move (hw.moves hm) hmove

/-- No pending event names a lease with a new id. -/
theorem Matched.add {ids : List String} (h : Matched r) (hi : Issued ids r)
    (huuid : env.uuid ∉ ids) (ha : Add env r r') : Matched r' := by
  cases ha with
  | claim | message => exact h
  | lease claim lease hd =>
    intro event hevent y hy hnames hn
    rcases List.mem_append.mp hy with hy | hy
    · exact h event hevent y hy hnames hn
    · obtain rfl := List.mem_singleton.mp hy
      have hid := (names_iff.mp hnames).2.2
      exact absurd (hd.fresh ▸ hid ▸ hi.events event hevent) huuid

theorem Matched.sectionMoves {ids : List String} (hw : Work r) (hi : Issued ids r)
    (huuid : env.uuid ∉ ids) (h : Matched r)
    (hs : SectionMoves codec env (fun _ => False) r r') : Matched r' := by
  obtain ⟨r₁, r₂, h₁, hadd, h₂⟩ := hs
  have hm₁ := h.moves hw h₁
  rcases hadd with rfl | hadd
  · exact hm₁.moves (hw.moves h₁) h₂
  · have hi₁ := hi.moves h₁
    exact (hm₁.add hi₁ huuid hadd).moves ((hw.moves h₁).add hi₁ huuid hadd) h₂

theorem names_renewLease {brokers : Table String BrokerRecord}
    (h : event.names (renewLease env brokers now lease)) :
    event.names lease := by
  unfold renewLease at h
  split at h <;> exact h

theorem Matched.lock (hw : Work r) (h : Matched r) (hsafe : RenewalsSafe env r) :
    Matched (lockRegistry codec env r) := by
  obtain ⟨p, m, hmoves, hevents, hoperations, hlock⟩ := @lockRegistry_renews codec env r
  have hm : Matched m := by
    intro event hevent y hy hnames hn
    rw [hevents] at hevent
    rw [hoperations] at hy
    obtain ⟨x, hx, rfl⟩ := List.mem_map.mp hy
    have hnx := names_renewLease hnames
    unfold renewLease at hn ⊢
    split at hn
    case isFalse hno =>
      rw [if_neg hno]
      exact h event hevent x hx hnx hn
    case isTrue hyes =>
      rw [if_pos hyes]
      have hrev : x.revision = event.ifRevision := by
        by_contra hne
        exact hsafe event hevent x hx hnx hne (leaseRenewable_of_filter hyes)
      have hxn : x.nonterminal := by
        unfold leaseRenewable at hyes
        simp only [Bool.and_eq_true] at hyes
        exact hyes.1.1.1
      have htoken := (accepts_iff.mp (h event hevent x hx hnx hxn)).2.1
      exact accepts_iff.mpr ⟨.inl hrev, htoken, rfl⟩
  rw [hlock]
  exact hm.moves (hw.moves hmoves) (reclaimExpiredInactiveOperations_moves (.inl rfl))

/-! ## Draining -/

theorem storeReceipt_error {key : ReceiptKey} {digest : RequestDigest} {outcome : Outcome}
    (h : storeReceipt codec r key digest outcome now = .error error) :
    error.code = "quota-exceeded" := by
  unfold storeReceipt at h
  simp only [bind_eq_error] at h
  obtain h | ⟨-, -, h | ⟨-, -, h | ⟨-, -, h⟩⟩⟩ := h
  · exact ensure_eq_error h ▸ rfl
  · exact ensure_eq_error h ▸ rfl
  · exact ensure_eq_error h ▸ rfl
  · cases h

theorem drainCompletionEvent_error {eventId : EventId}
    (h : drainCompletionEvent codec r eventId now = .error error) :
    error.code = "quota-exceeded" := by
  unfold drainCompletionEvent at h
  split at h
  · cases h
  · split at h
    · cases h
    · split at h
      · cases h
      · rcases bind_eq_error.mp h with hstore | ⟨_, -, hpure⟩
        · exact storeReceipt_error hstore
        · cases hpure

/-- A drain is refused for a receipt quota only. -/
theorem drainEvents_error
    (h : drainEvents codec now r ids = .error error) : error.code = "quota-exceeded" := by
  induction ids generalizing r with
  | nil => cases h
  | cons eventId rest ih =>
    rw [drainEvents] at h
    simp only [bind_eq_error] at h
    obtain h | ⟨_, -, h | ⟨_, -, h⟩⟩ := h
    · exact drainCompletionEvent_error h
    · exact ih h
    · cases h

theorem drainEvents_append {ids' : List EventId}
    (h : drainEvents codec now r (ids ++ ids') = .ok (r', n)) :
    ∃ r₁ m k, drainEvents codec now r ids = .ok (r₁, m) ∧
      drainEvents codec now r₁ ids' = .ok (r', k) := by
  induction ids generalizing r n with
  | nil => exact ⟨r, 0, n, rfl, h⟩
  | cons eventId rest ih =>
    obtain ⟨r₁, done, count, h₁, h₂, -⟩ := drainEvents_cons h
    obtain ⟨r₂, m, k, h₃, h₄⟩ := ih h₂
    refine ⟨r₂, (if done then 1 else 0) + m, k, ?_, h₄⟩
    rw [drainEvents, h₁, ok_bind]
    dsimp only
    rw [h₃, ok_bind]
    rfl

theorem drainCompletionEvent_keeps {eventId : EventId} {done : Bool}
    (h : drainCompletionEvent codec r eventId now = .ok (r', done))
    (hx : x ∈ r.operations) : x ∈ r'.operations ∨
      ∃ event ∈ r.completionEvents, event.eventId = eventId ∧ event.names x ∧ event.accepts x := by
  rcases drainCompletionEvent_cases h with ⟨rfl, -⟩ | ⟨-, event, lease, stored, he, hl, ha, hs, rfl⟩
  · exact .inl hx
  · obtain ⟨receipts, evictions, rfl, -⟩ := storeReceipt_spec hs
    rcases mem_updateFirst_or (f := completeLease event.outcome now) hx with hmem | hfind
    · exact .inl hmem
    · obtain rfl : x = lease := Option.some.inj (hfind.symm.trans hl)
      have hid : event.eventId = eventId := by simpa using List.find?_some he
      exact .inr ⟨event, List.mem_of_find?_eq_some he, hid, List.find?_some hfind, ha⟩

theorem drainEvents_keeps (h : drainEvents codec now r ids = .ok (r', n)) (hx : x ∈ r.operations)
    (hno : ∀ event ∈ r.completionEvents, event.eventId ∈ ids → event.names x →
      ¬ event.accepts x) : x ∈ r'.operations := by
  induction ids generalizing r n with
  | nil => cases h; exact hx
  | cons eventId rest ih =>
    obtain ⟨r₁, done, count, h₁, h₂, -⟩ := drainEvents_cons h
    have hx₁ : x ∈ r₁.operations := by
      rcases drainCompletionEvent_keeps h₁ hx with hx | ⟨event, he, hid, hnames, ha⟩
      · exact hx
      · exact absurd ha (hno event he (by simp [hid]) hnames)
    refine ih h₂ hx₁ fun event he hid => ?_
    exact hno event ((drainCompletionEvent_settles h₁).2.subset he) (List.mem_cons_of_mem _ hid)

theorem drainEvents_keeps_event (h : drainEvents codec now r ids = .ok (r', n))
    (he : event ∈ r.completionEvents) (hid : event.eventId ∉ ids) :
    event ∈ r'.completionEvents := by
  induction ids generalizing r n with
  | nil => cases h; exact he
  | cons eventId rest ih =>
    obtain ⟨r₁, done, count, h₁, h₂, -⟩ := drainEvents_cons h
    rw [List.mem_cons, not_or] at hid
    refine ih h₂ ?_ hid.2
    rcases drainCompletionEvent_cases h₁ with ⟨rfl, -⟩ | ⟨-, event', _, stored, hf, -, -, hs, rfl⟩
    · exact he
    · obtain ⟨receipts, evictions, rfl, -⟩ := storeReceipt_spec hs
      have hid' : event'.eventId = eventId := by simpa using List.find?_some hf
      exact List.mem_filter.mpr ⟨he, by simpa [hid'] using hid.1⟩

theorem drainCompletionEvents_completes (hnow : now = env.lockNow ∨ now = env.now) (hw : Work r)
    (hm : Matched r) (h : drainCompletionEvents codec r now = .ok (r', n))
    (hl : lease ∈ r.operations) (hn : lease.nonterminal)
    (hfirst : r.completionEvents.find? (fun event => event.names lease) = some event) :
    ∃ lease' ∈ r'.operations, lease'.leaseId = lease.leaseId ∧
      lease'.state = event.outcome.state := by
  obtain ⟨hnames, before, after, hsplit, hbefore⟩ := List.find?_eq_some_iff_append.mp hfirst
  have hids := hw.eventIds
  rw [hsplit, List.map_append, List.nodup_append] at hids
  have he : event ∈ r.completionEvents := by simp [hsplit]
  unfold drainCompletionEvents at h
  rw [hsplit, List.map_append, List.map_cons] at h
  obtain ⟨r₁, _, _, h₁, h₂⟩ := drainEvents_append h
  obtain ⟨r₂, done, _, h₂, h₃, -⟩ := drainEvents_cons h₂
  -- the events before the first one of the lease leave it and the event alone
  have hl₁ : lease ∈ r₁.operations := by
    refine drainEvents_keeps h₁ hl fun other hother hid hnames' => ?_
    obtain ⟨b, hb, heq⟩ := List.mem_map.mp hid
    have hbr : b ∈ r.completionEvents := by simp [hsplit, hb]
    rw [← eq_of_key_eq hw.eventIds hbr hother heq] at hnames'
    exact absurd hnames' (by simpa using hbefore b hb)
  have he₁ : event ∈ r₁.completionEvents := by
    refine drainEvents_keeps_event h₁ he fun hid => ?_
    exact hids.2.2 _ hid _ (by simp) rfl
  have hmoves : Moves codec env (fun _ => False) r r₁ := drainEvents_moves hnow h₁
  have hw₁ := hw.moves hmoves
  have haccepts := hm.moves hw hmoves event he₁ lease hl₁ hnames hn
  have hfind₁ := hw₁.find_event he₁
  -- the event is drained into the lease, and later events find it terminal
  rcases drainCompletionEvent_cases h₂ with ⟨-, -, hno⟩ | ⟨-, event', lease', stored, hf, hl', -, hs, rfl⟩
  · exact absurd haccepts (hno event lease hfind₁ (hw₁.find_names hl₁ hnames))
  · obtain rfl : event' = event := Option.some.inj (hf.symm.trans hfind₁)
    obtain ⟨receipts, evictions, rfl, -⟩ := storeReceipt_spec hs
    have hfind := hw₁.find_names hl₁ hnames
    refine ⟨completeLease event'.outcome now lease, ?_, rfl, rfl⟩
    refine drainEvents_keeps h₃ (mem_updateFirst_of_find? hfind) fun other _ _ _ ha => ?_
    exact completeLease_terminal _ _ _ (CompletionEvent.accepts_nonterminal ha)

/-! ## Runs -/

/-- The condition on a step: its lock, if it takes the maintaining one, renews safely. -/
def DrainSafe (l : Env × Section) (s : State) : Prop :=
  l.2.observational ∨ RenewalsSafe l.1 s.registry

theorem Matched.exec {s : State} (hs : Sound s) (h : Matched s.registry) {l : Env × Section}
    (hsafe : DrainSafe l s) (huuid : l.1.uuid ∉ s.issued) :
    Matched (exec codec l.1 l.2 s.registry).1 := by
  obtain ⟨env, sec⟩ := l
  unfold NilsCli.Coordination.exec locked
  split
  case isTrue => exact h.sectionMoves hs.work hs.issued huuid (body_moves hs.work sec)
  case isFalse hobs =>
    have hlock := @lockRegistry_moves codec env s.registry
    have hw := hs.work.moves hlock
    refine (h.lock hs.work (hsafe.resolve_left hobs)).sectionMoves hw (hs.issued.moves hlock) huuid
      (body_moves hw sec)

theorem matched_of_reach {s : State} (h : ((system codec).restrict DrainSafe).Reach s) :
    Sound s ∧ Matched s.registry := by
  refine Lts.Reach.invariant (S := (system codec).restrict DrainSafe)
    (I := fun s : State => Sound s ∧ Matched s.registry) ?_ ?_ h
  · rintro s rfl
    exact ⟨@sound_of_reach codec _ (Lts.Reach.init rfl), by simp [Matched, Registry.empty]⟩
  · rintro l s t ⟨hs, hm⟩ ⟨hsafe, huuid, rfl⟩
    exact ⟨hs.step ⟨huuid, rfl⟩, hm.exec hs hsafe huuid⟩

theorem exec_drain : exec codec env .drain r =
    match drainCompletionEvents codec (exec codec env .clean r).1 env.now with
    | .ok (drained, count) => (drained, .ok (.drained count))
    | .error error => (lockRegistry codec env r, .error error) := by
  show commit (lockRegistry codec env r) (drainSection codec env (lockRegistry codec env r)) = _
  unfold drainSection
  show commit _ (drainCompletionEvents codec (exec codec env .clean r).1 env.now >>= _) = _
  cases drainCompletionEvents codec (exec codec env .clean r).1 env.now <;> rfl

/-- In every run whose locks renew safely, every pending event of a lease in progress is accepted
by it, and the next drain takes the lease to the terminal state of the event's outcome, unless an
earlier event of the lease has another outcome or the drain is refused for a receipt quota. -/
theorem completion_drained {s : State} (h : ((system codec).restrict DrainSafe).Reach s) :
    (∀ event ∈ s.registry.completionEvents, ∀ lease ∈ s.registry.operations, event.names lease →
      lease.nonterminal → event.accepts lease) ∧
    ∀ env, RenewalsSafe env s.registry →
      ∀ lease ∈ (exec codec env .clean s.registry).1.operations, lease.nonterminal →
      ∀ event ∈ (exec codec env .clean s.registry).1.completionEvents, event.names lease →
      (∀ first ∈ (exec codec env .clean s.registry).1.completionEvents.find?
        (fun event => event.names lease), first.outcome = event.outcome) →
      (∃ error, (exec codec env .drain s.registry).2 = .error error ∧
        error.code = "quota-exceeded") ∨
      ∃ lease' ∈ (exec codec env .drain s.registry).1.operations,
        lease'.leaseId = lease.leaseId ∧ lease'.state = event.outcome.state := by
  obtain ⟨hs, hm⟩ := matched_of_reach h
  refine ⟨hm, fun env hsafe lease hl hn event he hnames hfirst => ?_⟩
  -- the drain runs on the registry that `clean` would have saved
  let cleaned := cleanExpired env env.now (lockRegistry codec env s.registry)
  have hmoves : Moves codec env (fun _ => False) (lockRegistry codec env s.registry) cleaned :=
    cleanExpired_moves
  have hwlock := hs.work.moves (@lockRegistry_moves codec env s.registry)
  have hw : Work cleaned := hwlock.moves hmoves
  have hmatched : Matched cleaned := (hm.lock hs.work hsafe).moves hwlock hmoves
  have hsome : (cleaned.completionEvents.find? fun event => event.names lease).isSome :=
    List.find?_isSome.mpr ⟨event, he, hnames⟩
  obtain ⟨first, hfind⟩ := Option.isSome_iff_exists.mp hsome
  rw [exec_drain]
  cases hdrain : drainCompletionEvents codec (exec codec env .clean s.registry).1 env.now with
  | error error => exact .inl ⟨error, rfl, drainEvents_error hdrain⟩
  | ok result =>
    obtain ⟨lease', hl', hid, hstate⟩ :=
      drainCompletionEvents_completes (.inr rfl) hw hmatched hdrain hl hn hfind
    exact .inr ⟨lease', hl', hid, by rw [hstate, hfirst first hfind]⟩

def queuedRun : List (Env × Section) :=
  sampleAdmission "alpha" alpha_ne "src" 1000 ++ [(sampleEnv 1100 "alpha-4",
    .complete ⟨"alpha", "launch-1", "alpha-3", 1, "execution-token", .pass, "complete-key"⟩)]

def queuedState : State := execAll sampleCodec queuedRun ⟨Registry.empty, []⟩

theorem completion_drained_sample :
    RenewalsSafe (sampleEnv 1110 "alpha-5") queuedState.registry ∧
    ∃ lease ∈ (exec sampleCodec (sampleEnv 1110 "alpha-5") .clean queuedState.registry).1.operations,
      lease.nonterminal ∧ ∃ lease' ∈
        (exec sampleCodec (sampleEnv 1110 "alpha-5") .drain queuedState.registry).1.operations,
        lease'.leaseId = lease.leaseId ∧ lease'.state = .completed := by
  have hreach : ((system sampleCodec).restrict DrainSafe).Reach queuedState :=
    ⟨_, queuedRun, rfl, run_restrict_execAll (by decide) (fun _ _ => List.not_mem_nil)
      ⟨.inr (by decide), .inr (by decide), .inr (by decide +kernel),
        .inr (by decide +kernel), trivial⟩⟩
  obtain ⟨hsafe, hdrains, hpair⟩ : RenewalsSafe (sampleEnv 1110 "alpha-5") queuedState.registry ∧
      (exec sampleCodec (sampleEnv 1110 "alpha-5") .drain
        queuedState.registry).2.toOption.isSome ∧ ∃ lease ∈
      (exec sampleCodec (sampleEnv 1110 "alpha-5") .clean queuedState.registry).1.operations,
      lease.nonterminal ∧ ∃ event ∈
        (exec sampleCodec (sampleEnv 1110 "alpha-5") .clean queuedState.registry).1.completionEvents,
        event.names lease ∧ event.outcome = .pass ∧
        (∀ first ∈ (exec sampleCodec (sampleEnv 1110 "alpha-5") .clean
          queuedState.registry).1.completionEvents.find? (fun event => event.names lease),
          first.outcome = event.outcome) := by decide +kernel
  obtain ⟨lease, hl, hn, event, he, hnames, hpass, hfirst⟩ := hpair
  have hdrained := (completion_drained hreach).2 _ hsafe lease hl hn event he hnames hfirst
  rw [hpass] at hdrained
  rcases hdrained with ⟨error, herror, -⟩ | hdone
  · rw [herror] at hdrains
    cases hdrains
  · exact ⟨hsafe, lease, hl, hn, hdone⟩

def staleEnv (now : Int) (uuid : String) : Env :=
  { sampleEnv now uuid with lockNow := now - 1, heartbeatFresh := fun _ _ => false }

/-- The lease expires after its event was persisted, and the next lock renews it. -/
def orphanRun : List (Env × Section) :=
  queuedRun ++ [(staleEnv 2802 "alpha-5", .clean), (sampleEnv 2803 "alpha-6", .maintain)]

def orphanState : State := execAll sampleCodec orphanRun ⟨Registry.empty, []⟩

/-- The event is still queued, its lease in progress, and the drain leaves both. -/
theorem completion_orphaned : (system sampleCodec).Reach orphanState ∧
    ∃ event ∈ orphanState.registry.completionEvents, ∃ lease ∈ orphanState.registry.operations,
      (event.names lease ∧ lease.nonterminal ∧ ¬ event.accepts lease) ∧
      (exec sampleCodec (sampleEnv 2804 "alpha-7") .drain orphanState.registry).2 =
        .ok (.drained 0) ∧
      ∃ lease' ∈
        (exec sampleCodec (sampleEnv 2804 "alpha-7") .drain orphanState.registry).1.operations,
        lease'.leaseId = lease.leaseId ∧ lease'.state ≠ event.outcome.state := by
  refine ⟨reach_execAll (by decide +kernel), ?_⟩
  decide +kernel

end NilsCli.Coordination
