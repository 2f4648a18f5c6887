import NilsCli.Coordination.Completion
import NilsCli.Coordination.LostWakeup
import NilsCli.Coordination.Replay

/-!
# A receipt stays until it expires or is evicted

No section of a run overwrites a live receipt, and none drops it except through `make_room`, which
evicts it only after its message ended.
-/

namespace NilsCli.Coordination

open Lib

variable {now : Int} {key : ReceiptKey} {digest : RequestDigest} {outcome : Outcome}
  {ids : List String} {s : State}

variable {codec : Codec} {env : Env} {renews : OperationLease → Prop} {r r' : Registry}
  {k : ReceiptKey} {x : IdempotencyReceipt}

/-! ## Eviction -/

def MessageOver (messages : List StoredMessage) (outcome : Outcome) : Prop :=
  ∃ id, outcome.messageId? = some id ∧ (messageState? messages id).all (·.terminal)

theorem finished_iff {messages : List StoredMessage} :
    finished messages now x ↔ x.expiresAtEpoch ≤ now ∨ MessageOver messages x.outcome := by
  unfold finished MessageOver
  rw [Bool.or_eq_true, decide_eq_true_eq]
  refine or_congr_right ?_
  cases x.outcome.messageId? with
  | none => simp
  | some id => simp

/-- From `r` to `r'` another receipt of the principal is stored, and its `make_room` evicts this
one. -/
structure Evicted (codec : Codec) (k : ReceiptKey) (x : IdempotencyReceipt) (r r' : Registry) :
    Prop where
  stored : r.receipts.lookup k = some x
  gone : r'.receipts.lookup k = none
  evicted : ∃ key digest outcome now room, key ≠ k ∧ key.principal = x.principal ∧
    storeReceipt codec r key digest outcome now = .ok room ∧ room.receipts.lookup k = none
  messageOver : MessageOver r.messages x.outcome

theorem makeRoom_keeps {principal : String} {key : ReceiptKey} {bytes : Nat} {now : Int}
    (hl : r.receipts.lookup k = some x) :
    (makeRoom codec r principal key bytes now).receipts.lookup k = some x ∨
      ((makeRoom codec r principal key bytes now).receipts.lookup k = none ∧
        x.principal = principal ∧ key ≠ k ∧
        (x.expiresAtEpoch ≤ now ∨ MessageOver r.messages x.outcome)) := by
  obtain ⟨receipts, evictions, heq, hall⟩ := @makeRoom_spec codec r principal key bytes now
  rw [heq]
  rcases hall k with hsame | ⟨hnone, y, hy, hp, hne, hfin⟩
  · exact .inl (hsame.trans hl)
  · cases hl.symm.trans hy
    exact .inr ⟨hnone, hp, hne.symm, finished_iff.mp hfin⟩

theorem storeReceipt_keeps
    (h : storeReceipt codec r key digest outcome now = .ok r') (hne : key ≠ k)
    (hl : r.receipts.lookup k = some x) (hlive : now < x.expiresAtEpoch) :
    r'.receipts.lookup k = some x ∨ Evicted codec k x r r' := by
  have hstore := h
  obtain ⟨receipts, evictions, rfl, -, hall⟩ := storeReceipt_spec h
  rcases hall k hne.symm with hsame | ⟨hnone, y, hy, hp, -, hfin⟩
  · exact .inl (hsame.trans hl)
  · cases hl.symm.trans hy
    exact .inr ⟨hl, hnone, ⟨key, digest, outcome, now, _, hne, hp.symm, hstore, hnone⟩,
      (finished_iff.mp hfin).resolve_left (by omega)⟩

/-! ## Pending events of a key -/

def NoEvent (r : Registry) (k : ReceiptKey) : Prop :=
  ∀ event ∈ r.completionEvents, event.receiptKey = k → ∀ lease ∈ r.operations,
    event.names lease → ¬ lease.nonterminal

theorem noEvent_of_operation (h : k.operation ≠ .workContextComplete) : NoEvent r k := by
  rintro event - rfl
  exact absurd rfl h

theorem NoEvent.evolve {pends : OperationLease → Prop} (h : NoEvent r k)
    (he : Evolves (LeaseStep renews pends) r.operations r'.operations)
    (hsub : r'.completionEvents ⊆ r.completionEvents) : NoEvent r' k := by
  intro event hevent hk y hy hnames hn
  obtain ⟨x, hx, hstep⟩ := he.mem hy
  exact h event (hsub hevent) hk x hx (hstep.names_of hnames) (hstep.nonterminal_of hn)

/-- Where the receipt is stored, no event of its key is waiting for a lease in progress. -/
def Settled (k : ReceiptKey) (x : IdempotencyReceipt) (r : Registry) : Prop :=
  r.receipts.lookup k = some x → NoEvent r k

theorem noEvent_drained {event : CompletionEvent} {lease : OperationLease}
    (hw : Work r) (hlease : r.operations.find? event.names = some lease)
    (accepts : event.accepts lease) {receipts : Table ReceiptKey IdempotencyReceipt}
    {evictions : Table String ReceiptEviction} :
    NoEvent (drained event now { r with receipts := receipts, receiptEvictions := evictions })
      event.receiptKey := by
  intro other _ hk y hy hnames hn
  have hids := (@drained_settles now event r).keys_nodup (·.leaseId)
    (by rintro a b (rfl | ⟨-, -, hid, -⟩) <;> [rfl; exact hid]) hw.leaseIds
  have hdone : completeLease event.outcome now lease ∈
      updateFirst event.names (completeLease event.outcome now) r.operations :=
    mem_updateFirst_of_find? hlease
  rcases mem_updateFirst hy with hold | ⟨z, hz, rfl⟩
  · -- a lease in progress of the session is the lease that was drained
    have hsession : y.sessionId = lease.sessionId := by
      have hother : other.sessionId = event.sessionId := congrArg ReceiptKey.principal hk
      have hl := (names_iff.mp (List.find?_some hlease)).1
      rw [(names_iff.mp hnames).1, hother, hl]
    obtain rfl := hw.leaseAlone y hold lease (List.mem_of_find?_eq_some hlease) hn
      (CompletionEvent.accepts_nonterminal accepts) hsession
    have heq : y = completeLease event.outcome now y := eq_of_key_eq hids hy hdone rfl
    exact completeLease_terminal event.outcome now y (heq ▸ hn)
  · exact completeLease_terminal event.outcome now z hn

/-! ## Moves -/

theorem Move.keepsReceipt (hb : env.Before x.expiresAtEpoch) (h : Move codec env renews r r')
    (hl : r.receipts.lookup k = some x) (hno : NoEvent r k) :
    r'.receipts.lookup k = some x ∨ Evicted codec k x r r' := by
  have hfree : ReceiptFree env r k → False := fun hf => by
    have := hf x hl
    have := hb.replay
    omega
  cases h with
  | mail | fingerprint | dropCursors | keepCursor | leases | claims | endWork | retireClaims | dropEvents | addEvent
    | brokers => exact .inl hl
  | dropReceipts now hnow =>
    left
    rw [Table.lookup_filter, hl]
    have hlive : x.expiresAtEpoch > now := by
      rcases hnow with rfl | rfl
      · exact hb.lock
      · exact hb.now
    simp [hlive]
  | store key digest outcome hop free hstore =>
    by_cases hk : key = k
    · exact (hfree (hk ▸ free)).elim
    · exact storeReceipt_keeps hstore hk hl hb.now
  | accept envelope outcome free hstore =>
    by_cases hk : receiveKey envelope.messageId = k
    · exact (hfree (hk ▸ free)).elim
    · rcases storeReceipt_keeps hstore hk hl hb.now with hkept | hev
      · left
        rw [extendReceipt, Table.lookup_modify_of_ne _ _ (Ne.symm hk)]
        exact hkept
      · refine .inr ⟨hev.stored, ?_, hev.evicted, hev.messageOver⟩
        rw [extendReceipt, Table.lookup_modify_of_ne _ _ (Ne.symm hk)]
        exact hev.gone
  | drain event lease now hnow hevent hlease accepts hstore =>
    by_cases hk : event.receiptKey = k
    · exact absurd (CompletionEvent.accepts_nonterminal accepts) (hno event hevent hk lease
        (List.mem_of_find?_eq_some hlease) (List.find?_some hlease))
    · have hlive : now < x.expiresAtEpoch := by
        rcases hnow with rfl | rfl
        · exact hb.lock
        · exact hb.now
      rcases storeReceipt_keeps hstore hk hl hlive with hkept | hev
      · exact .inl hkept
      · exact .inr ⟨hev.stored, hev.gone, hev.evicted, hev.messageOver⟩

theorem Move.settled (hw : Work r) (hb : env.Before x.expiresAtEpoch)
    (h : Move codec env renews r r') (hs : Settled k x r) : Settled k x r' := by
  have he := h.leaseSteps
  intro hl'
  cases h with
  | mail | fingerprint | dropCursors | keepCursor | leases | claims | endWork | retireClaims | brokers =>
    exact (hs hl').evolve he (List.Subset.refl _)
  | dropReceipts now hnow =>
    rw [Table.lookup_filter, Option.filter_eq_some_iff] at hl'
    exact (hs hl'.1).evolve he (List.Subset.refl _)
  | dropEvents p => exact (hs hl').evolve he (List.filter_subset_self _)
  | store key digest outcome hop free hstore =>
    obtain ⟨receipts, evictions, rfl, -, hother⟩ := storeReceipt_spec hstore
    by_cases hk : k = key
    · exact noEvent_of_operation (hk ▸ hop)
    · rcases hother k hk with hsame | ⟨hnone, -⟩
      · exact (hs (hsame ▸ hl')).evolve he (List.Subset.refl _)
      · cases hnone.symm.trans hl'
  | accept envelope outcome free hstore =>
    by_cases hk : k = receiveKey envelope.messageId
    · exact noEvent_of_operation (by rw [hk]; simp [receiveKey])
    · obtain ⟨receipts, evictions, rfl, -, hother⟩ := storeReceipt_spec hstore
      rw [extendReceipt, Table.lookup_modify_of_ne _ _ hk] at hl'
      rcases hother k hk with hsame | ⟨hnone, -⟩
      · exact (hs (hsame ▸ hl')).evolve he (List.Subset.refl _)
      · cases hnone.symm.trans hl'
  | drain event lease now hnow hevent hlease accepts hstore =>
    obtain ⟨receipts, evictions, rfl, -, hother⟩ := storeReceipt_spec hstore
    by_cases hk : k = event.receiptKey
    · exact hk ▸ noEvent_drained hw hlease accepts
    · rcases hother k hk with hsame | ⟨hnone, -⟩
      · exact (hs (hsame ▸ hl')).evolve he (List.filter_subset_self _)
      · cases hnone.symm.trans hl'
  | addEvent event lease hp =>
    intro other hother hk y hy hnames hn
    rcases List.mem_append.mp hother with hother | hother
    · exact hs hl' other hother hk y hy hnames hn
    · -- a request whose receipt is live is replayed, not persisted
      obtain rfl := List.mem_singleton.mp hother
      have hexpired := hp.free x (hk ▸ hl')
      have := hb.replay
      omega

/-- Every receipt is filed under its key. -/
def AllFiled (r : Registry) : Prop := ∀ k x, r.receipts.lookup k = some x → Filed k x

theorem AllFiled.stored (h : AllFiled r)
    (hs : storeReceipt codec r key digest outcome now = .ok r') :
    AllFiled r' := by
  obtain ⟨receipts, evictions, rfl, hnew, hother⟩ := storeReceipt_spec hs
  intro k x hl
  by_cases hk : k = key
  · subst hk
    cases hnew.symm.trans hl
    exact ⟨rfl, rfl, rfl⟩
  · rcases hother k hk with hsame | ⟨hnone, -⟩
    · exact h k x (hsame ▸ hl)
    · cases hnone.symm.trans hl

theorem Move.filed (h : Move codec env renews r r') (hf : AllFiled r) : AllFiled r' := by
  cases h with
  | mail | fingerprint | dropCursors | keepCursor | leases | claims | endWork | retireClaims | dropEvents | addEvent
    | brokers => exact hf
  | dropReceipts now hnow =>
    intro k x hl
    rw [Table.lookup_filter, Option.filter_eq_some_iff] at hl
    exact hf k x hl.1
  | store key digest outcome hop free hstore => exact hf.stored hstore
  | drain event lease now hnow hevent hlease accepts hstore =>
    exact fun k x hl => hf.stored hstore k x hl
  | accept envelope outcome free hstore =>
    intro k x hl
    by_cases hk : k = receiveKey envelope.messageId
    · rw [extendReceipt, Table.lookup_modify, if_pos hk, Option.map_eq_some_iff] at hl
      obtain ⟨y, hy, rfl⟩ := hl
      have hfiled := hf.stored hstore k y hy
      exact ⟨hfiled.principal, hfiled.incarnation, hfiled.operation⟩
    · rw [extendReceipt, Table.lookup_modify_of_ne _ _ hk] at hl
      exact hf.stored hstore k x hl

/-! ## Sections -/

/-- The registries that a section goes through. -/
abbrev Inside (codec : Codec) (env : Env) (renews : OperationLease → Prop) :
    Registry → Registry → Prop :=
  Relation.ReflTransGen fun r r' => Move codec env renews r r' ∨ Add env r r'

theorem Inside.of_moves (h : Moves codec env renews r r') : Inside codec env renews r r' :=
  Relation.ReflTransGen.mono (fun _ _ => Or.inl) r r' h

/-- What is saved lacks the receipt that was found: a move on the way from `r` to `r'` stored another
one, and its `make_room` evicted it, after its message was over. -/
structure EvictedIn (codec : Codec) (env : Env) (renews : OperationLease → Prop) (k : ReceiptKey)
    (x : IdempotencyReceipt) (r r' : Registry) : Prop where
  stored : r.receipts.lookup k = some x
  gone : r'.receipts.lookup k ≠ some x
  evicted : ∃ m m', Inside codec env renews r m ∧ Move codec env renews m m' ∧
    Evicted codec k x m m' ∧ Inside codec env renews m' r'

structure Living (k : ReceiptKey) (x : IdempotencyReceipt) (r : Registry) : Prop where
  work : Work r
  filed : AllFiled r
  settled : Settled k x r

theorem Living.moves (hb : env.Before x.expiresAtEpoch) (h : Moves codec env renews r r')
    (hv : Living k x r) : Living k x r' := by
  induction h with
  | refl => exact hv
  | tail _ hm ih => exact ⟨ih.work.move hm, hm.filed ih.filed, hm.settled ih.work hb ih.settled⟩

theorem moves_keepReceipt (hb : env.Before x.expiresAtEpoch) (h : Moves codec env renews r r')
    (hv : Living k x r) (hl : r.receipts.lookup k = some x) :
    r'.receipts.lookup k = some x ∨ ∃ m m', Inside codec env renews r m ∧
      Move codec env renews m m' ∧ Evicted codec k x m m' ∧ Inside codec env renews m' r' := by
  induction h with
  | refl => exact .inl hl
  | tail hms hm ih =>
    rcases ih with hl | ⟨m, m', hbefore, hmove, hev, hafter⟩
    · have hv' := hv.moves hb hms
      rcases hm.keepsReceipt hb hl (hv'.settled hl) with hl' | hev
      · exact .inl hl'
      · exact .inr ⟨_, _, .of_moves hms, hm, hev, .refl⟩
    · exact .inr ⟨m, m', hbefore, hmove, hev, hafter.tail (.inl hm)⟩

theorem Living.add (hv : Living k x r) (hi : Issued ids r)
    (huuid : env.uuid ∉ ids) (ha : Add env r r') : Living k x r' ∧ r'.receipts = r.receipts := by
  have hw := hv.work.add hi huuid ha
  cases ha with
  | claim | message => exact ⟨⟨hw, hv.filed, hv.settled⟩, rfl⟩
  | lease claim lease hd =>
    refine ⟨⟨hw, hv.filed, fun hl event hevent hk y hy hnames hn => ?_⟩, rfl⟩
    rcases List.mem_append.mp hy with hy | hy
    · exact hv.settled hl event hevent hk y hy hnames hn
    · obtain rfl := List.mem_singleton.mp hy
      have hid := (names_iff.mp hnames).2.2
      exact absurd (hd.fresh ▸ hid ▸ hi.events event hevent) huuid

theorem sectionMoves_keepReceipt (hv : Living k x r) (hi : Issued ids r)
    (huuid : env.uuid ∉ ids) (hb : env.Before x.expiresAtEpoch)
    (h : SectionMoves codec env renews r r') :
    Living k x r' ∧ (r.receipts.lookup k = some x → r'.receipts.lookup k = some x ∨
      EvictedIn codec env renews k x r r') := by
  obtain ⟨r₁, r₂, h₁, hadd, h₂⟩ := h
  have hv₁ := hv.moves hb h₁
  have hadded : Living k x r₂ ∧ r₂.receipts = r₁.receipts ∧ Inside codec env renews r₁ r₂ := by
    rcases hadd with rfl | hadd
    · exact ⟨hv₁, rfl, .refl⟩
    · obtain ⟨hv₂, heq⟩ := hv₁.add (hi.moves h₁) huuid hadd
      exact ⟨hv₂, heq, .single (.inr hadd)⟩
  obtain ⟨hv₂, heq, hinside⟩ := hadded
  refine ⟨hv₂.moves hb h₂, fun hl => or_iff_not_imp_left.mpr fun hgone => ⟨hl, hgone, ?_⟩⟩
  rcases moves_keepReceipt hb h₁ hv hl with hl₁ | ⟨m, m', hbefore, hmove, hev, hafter⟩
  · obtain ⟨m, m', hbefore, hmove, hev, hafter⟩ :=
      (moves_keepReceipt hb h₂ hv₂ (heq ▸ hl₁)).resolve_left hgone
    exact ⟨m, m', ((Inside.of_moves h₁).trans hinside).trans hbefore, hmove, hev, hafter⟩
  · exact ⟨m, m', hbefore, hmove, hev, (hafter.trans hinside).trans (Inside.of_moves h₂)⟩

/-! ## Runs -/

def systemBefore (codec : Codec) (time : Int) : Lts :=
  (system codec).restrict fun l _ => l.1.Before time

theorem living_of_reach (h : (systemBefore codec x.expiresAtEpoch).Reach s) :
    Sound s ∧ Living k x s.registry := by
  refine Lts.Reach.invariant (S := systemBefore codec x.expiresAtEpoch)
    (I := fun s : State => Sound s ∧ Living k x s.registry) ?_ ?_ h
  · rintro s rfl
    refine ⟨@sound_of_reach codec _ (Lts.Reach.init rfl), Work.empty, ?_, ?_⟩
    · intro k x hl
      cases hl
    · intro hl
      cases hl
  · rintro l s t ⟨hs, hv⟩ ⟨hb, huuid, rfl⟩
    exact ⟨hs.step ⟨huuid, rfl⟩,
      (sectionMoves_keepReceipt hv hs.issued huuid hb (exec_moves hs.work l.2)).1⟩

/-- This section, run in `r`, evicted the receipt. -/
def SectionEvicts (codec : Codec) (l : Env × Section) (k : ReceiptKey) (x : IdempotencyReceipt)
    (r : Registry) : Prop := EvictedIn codec l.1 (Renewed l.1 r) k x r (exec codec l.1 l.2 r).1

theorem receipt_stays {t : State} {ls : List (Env × Section)}
    (h : (systemBefore codec x.expiresAtEpoch).Reach s)
    (hr : (systemBefore codec x.expiresAtEpoch).Run ls s t)
    (hl : s.registry.receipts.lookup k = some x) :
    t.registry.receipts.lookup k = some x ∨
      ∃ (before : List (Env × Section)) (l : Env × Section) (after : List (Env × Section)) (u : State),
        ls = before ++ l :: after ∧ (systemBefore codec x.expiresAtEpoch).Run before s u ∧
        SectionEvicts codec l k x u.registry := by
  refine Lts.Run.keeps_or (S := systemBefore codec x.expiresAtEpoch)
    (I := fun s : State => Sound s ∧ Living k x s.registry)
    (P := fun s : State => s.registry.receipts.lookup k = some x)
    (Q := fun l s => SectionEvicts codec l k x s.registry) ?_ ?_ hr (living_of_reach h) hl
  · rintro l s t ⟨hs, hv⟩ ⟨hb, huuid, rfl⟩
    exact ⟨hs.step ⟨huuid, rfl⟩,
      (sectionMoves_keepReceipt hv hs.issued huuid hb (exec_moves hs.work l.2)).1⟩
  · rintro l s t ⟨hs, hv⟩ hls ⟨hb, huuid, rfl⟩
    exact (sectionMoves_keepReceipt hv hs.issued huuid hb (exec_moves hs.work l.2)).2 hls

/-! ## Result -/

/-- What is framed is what maintenance alone does. -/
theorem framed_eq (codec : Codec) (env : Env) (sec : Section) (r : Registry) :
    framed codec env sec r = r ∨ framed codec env sec r = (exec codec env .maintain r).1 ∨
      framed codec env sec r = (exec codec env .clean r).1 := by
  have hlocked : locked codec env sec r = r ∨
      locked codec env sec r = (exec codec env .maintain r).1 := by
    unfold locked
    split
    · exact .inl rfl
    · exact .inr rfl
  cases sec with
  | release args => exact .inr (.inr rfl)
  | complete args => exact .inr (.inr rfl)
  | _ => exact hlocked.imp_right .inl

theorem framed_moves (sec : Section) :
    Moves codec env (Renewed env r) r (framed codec env sec r) := by
  have hlocked : Moves codec env (Renewed env r) r (locked codec env sec r) := by
    unfold locked
    split
    · exact .refl
    · exact lockRegistry_moves
  cases sec with
  | release args => exact hlocked.trans cleanExpired_moves
  | complete args => exact hlocked.trans cleanExpired_moves
  | _ => exact hlocked

/-- A request repeated before its receipt expires, after any run, is answered from the receipt and
saves no more than maintenance does, unless the receipt was evicted; and `make_room` evicts only
receipts that are expired or whose message is over. -/
theorem request_replayed {s t : State} {ls : List (Env × Section)}
    (h : (systemBefore codec x.expiresAtEpoch).Reach s)
    (hl : s.registry.receipts.lookup k = some x)
    (hr : (systemBefore codec x.expiresAtEpoch).Run ls s t) (hb : env.Before x.expiresAtEpoch)
    {sec : Section} (hk : sec.receiptKey codec = some k) :
    ((framed codec env sec t.registry = t.registry ∨
        framed codec env sec t.registry = (exec codec env .maintain t.registry).1 ∨
        framed codec env sec t.registry = (exec codec env .clean t.registry).1) ∧
      Replays x (presented codec env sec (locked codec env sec t.registry))
        (framed codec env sec t.registry) (exec codec env sec t.registry) ∨
      EvictedIn codec env (Renewed env t.registry) k x t.registry
        (framed codec env sec t.registry) ∨
      ∃ (before : List (Env × Section)) (l : Env × Section) (after : List (Env × Section)) (u : State),
        ls = before ++ l :: after ∧ (systemBefore codec x.expiresAtEpoch).Run before s u ∧
        SectionEvicts codec l k x u.registry) ∧
    ∀ (r : Registry) (principal : String) (key k' : ReceiptKey) (bytes : Nat) (now : Int)
      (y : IdempotencyReceipt), r.receipts.lookup k' = some y →
      (makeRoom codec r principal key bytes now).receipts.lookup k' = some y ∨
        ((makeRoom codec r principal key bytes now).receipts.lookup k' = none ∧
          (y.expiresAtEpoch ≤ now ∨ MessageOver r.messages y.outcome)) := by
  refine ⟨?_, fun r principal key k' bytes now y hy =>
    (makeRoom_keeps hy).imp_right fun hev => ⟨hev.1, hev.2.2.2⟩⟩
  rcases receipt_stays h hr hl with hlt | hev
  · have hliving := (living_of_reach (k := k) (h.run hr)).2
    by_cases hlf : (framed codec env sec t.registry).receipts.lookup k = some x
    · have hfiled := (hliving.moves hb (@framed_moves codec env t.registry sec)).filed k x hlf
      exact .inl ⟨framed_eq codec env sec t.registry, exec_replays hk hlf hfiled hb⟩
    · exact .inr (.inl ⟨hlt, hlf, (moves_keepReceipt hb (@framed_moves codec env t.registry sec)
        hliving hlt).resolve_left hlf⟩)
  · exact .inr (.inr hev)

/-! Two sessions; the first claims its work context and sends a message to the second. -/

def repeatedClaim : ClaimArgs :=
  ⟨sampleSession "alpha" alpha_ne, "launch-1", sampleContext "src", none, "claim-key-1"⟩

def repeatedRun : List (Env × Section) :=
  [(sampleEnv 1000 "id-1", .provision ⟨sampleSession "alpha" alpha_ne, none, "token-alpha", true⟩),
    (sampleEnv 1001 "id-2", .provision ⟨sampleSession "beta" beta_ne, none, "token-beta", true⟩),
    (sampleEnv 1002 "id-3", .claim repeatedClaim),
    (sampleEnv 1003 "id-4", .send (sampleSend 1))]

def repeatedState : State := execAll sampleCodec repeatedRun ⟨Registry.empty, []⟩

def laterState : State :=
  execAll sampleCodec [(sampleEnv 8200 "id-5", .markDegraded "alpha" "launch-1" 1)] repeatedState

/-- The claim is repeated after another message was sent. No section can have evicted its receipt,
since the outcome names no message. -/
theorem request_replayed_sample :
    let t := (exec sampleCodec (sampleEnv 1004 "id-5") (.send (sampleSend 2))
      repeatedState.registry).1
    let env := sampleEnv 1005 "id-6"
    let sec := Section.claim repeatedClaim
    ∃ x, repeatedState.registry.receipts.lookup repeatedClaim.receiptKey = some x ∧
      framed sampleCodec env sec t = (exec sampleCodec env .maintain t).1 ∧
      Replays x (presented sampleCodec env sec (locked sampleCodec env sec t))
        (framed sampleCodec env sec t) (exec sampleCodec env sec t) ∧
      (exec sampleCodec env sec t).2 = .ok x.outcome := by
  intro t env sec
  let ls := [(sampleEnv 1004 "id-5", Section.send (sampleSend 2))]
  have hstored : ((repeatedState.registry.receipts.lookup repeatedClaim.receiptKey).any fun x =>
      x.expiresAtEpoch = 87402 ∧ x.outcome.messageId? = none ∧
        (exec sampleCodec env sec t).2.toOption = some x.outcome) = true := by decide +kernel
  obtain ⟨x, hx, h⟩ := (Option.any_eq_true _ _).mp hstored
  obtain ⟨hexpires, hno, hsame⟩ := of_decide_eq_true h
  have hbefore : ∀ l ∈ (env, sec) :: (repeatedRun ++ ls), l.1.Before x.expiresAtEpoch := by
    rw [hexpires]
    intro l hl
    have hclock : ∀ l ∈ (env, sec) :: (repeatedRun ++ ls), l.1.lockNow < 87402 ∧
        l.1.now < 87402 ∧ l.1.replayNow < 87402 := by decide
    exact ⟨(hclock l hl).1, (hclock l hl).2.1, (hclock l hl).2.2⟩
  have hreach : (systemBefore sampleCodec x.expiresAtEpoch).Reach repeatedState :=
    ⟨_, repeatedRun, rfl, run_restrict_execAll (by decide) (by decide)
      (allMeet_of_forall (fun l hl _ => hbefore l (by simp [hl])) _)⟩
  have hrun : (systemBefore sampleCodec x.expiresAtEpoch).Run ls repeatedState
      (execAll sampleCodec ls repeatedState) :=
    run_restrict_execAll (by decide) (by decide)
      (allMeet_of_forall (fun l hl _ => hbefore l (by simp [hl])) _)
  have hkept : ∀ {env renews r r'}, ¬ EvictedIn sampleCodec env renews repeatedClaim.receiptKey x
      r r' := by
    rintro _ _ _ _ ⟨-, -, m, m', -, -, hev, -⟩
    obtain ⟨id, hid, -⟩ := hev.messageOver
    cases hno.symm.trans hid
  rcases (request_replayed hreach hx hrun (hbefore (env, sec) List.mem_cons_self)
    (show sec.receiptKey sampleCodec = some repeatedClaim.receiptKey from rfl)).1 with ⟨-, hreplays⟩ | hev | ⟨_, _, _, _, -, -, hev⟩
  · exact ⟨x, hx, rfl, hreplays, ok_of_toOption hsame⟩
  · exact absurd hev hkept
  · exact absurd hev hkept

/-- A repetition is not always answered from the receipt, and it does not leave every message
alone. The repeated message is answered with the stored outcome, and the lock of that section
expires the message; the repeated claim is refused by the guard in front of its lookup. -/
theorem repetition_maintained_or_refused :
    (system sampleCodec).Reach repeatedState ∧
    (∃ x, repeatedState.registry.receipts.lookup (sampleSend 1).receiptKey = some x ∧
      x.expiresAtEpoch = 87403 ∧
      (exec sampleCodec (sampleEnv 8200 "id-5") (.send (sampleSend 1))
        repeatedState.registry).2 = .ok x.outcome) ∧
    repeatedState.registry.messages.map (·.state) = [.unread] ∧
    (exec sampleCodec (sampleEnv 8200 "id-5") (.send (sampleSend 1))
      repeatedState.registry).1.messages.map (·.state) = [.expired] ∧
    (∃ y, laterState.registry.receipts.lookup repeatedClaim.receiptKey = some y ∧
      y.expiresAtEpoch = 87402) ∧
    ∃ error, (exec sampleCodec (sampleEnv 8201 "id-6") (.claim repeatedClaim)
      laterState.registry).2 = .error error := by
  have hsend : ((repeatedState.registry.receipts.lookup (sampleSend 1).receiptKey).any fun x =>
      x.expiresAtEpoch = 87403 ∧ (exec sampleCodec (sampleEnv 8200 "id-5") (.send (sampleSend 1))
        repeatedState.registry).2.toOption = some x.outcome) = true := by decide
  have hclaim : ((laterState.registry.receipts.lookup repeatedClaim.receiptKey).any fun y =>
      y.expiresAtEpoch = 87402) = true := by decide
  have hrefused : (exec sampleCodec (sampleEnv 8201 "id-6") (.claim repeatedClaim)
      laterState.registry).2.toOption = none := by decide
  refine ⟨reach_execAll (by decide), ?_, by decide, by decide, ?_, ?_⟩
  · obtain ⟨x, hx, h⟩ := (Option.any_eq_true _ _).mp hsend
    obtain ⟨hexpires, hsame⟩ := of_decide_eq_true h
    exact ⟨x, hx, hexpires, ok_of_toOption hsame⟩
  · obtain ⟨y, hy, h⟩ := (Option.any_eq_true _ _).mp hclaim
    exact ⟨y, hy, of_decide_eq_true h⟩
  · exact error_of_toOption hrefused

end NilsCli.Coordination
