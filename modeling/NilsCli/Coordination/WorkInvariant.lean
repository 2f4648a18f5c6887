import NilsCli.Coordination.Moves
import NilsCli.Coordination.ScopeMeaning

/-!
# The invariant of claims and leases

`Work` is what holds of the claims, leases, events and brokers of every registry: ids are
unique, a session has at most one active claim and one lease in progress, every lease in progress
is covered by an active claim of its own incarnation, and leases in progress of different
sessions are disjoint.
-/

namespace NilsCli.Coordination

open Lib List

variable {x y lease : OperationLease} {candidate : WorkContextInput}
  {peer claim : WorkContextRecord} {pends : OperationLease → Prop}
  {operations : List OperationLease} {sessionId : String}

structure Separate (x y : OperationLease) : Prop where
  targets : ∀ t ∈ x.targets, ∀ t' ∈ y.targets, ¬ scopesOverlap t t'
  providers : ∀ p ∈ x.providerTargets, p ∉ y.providerTargets

theorem Separate.symm (h : Separate x y) : Separate y x where
  targets t ht t' ht' ho := by
    rw [scopesOverlap_iff, Set.inter_comm, ← scopesOverlap_iff] at ho
    exact h.targets t' ht' t ht ho
  providers p hp hp' := h.providers p hp' hp

/-- The invariant. -/
structure Work (r : Registry) : Prop where
  claimIds : (r.claims.map (·.claimId)).Nodup
  leaseIds : (r.operations.map (·.leaseId)).Nodup
  eventIds : (r.completionEvents.map (·.eventId)).Nodup
  eventNamed : ∀ event ∈ r.completionEvents, event.eventId =
    ⟨event.sessionId, event.sessionIncarnation, event.leaseId, event.idempotencyKey⟩
  claimOpen : ∀ claim ∈ r.claims, claim.state = .active → claim.terminalAtEpoch = none
  claimAlone : ∀ claim ∈ r.claims, ∀ claim' ∈ r.claims, claim.state = .active →
    claim'.state = .active → claim.sessionId = claim'.sessionId → claim = claim'
  leaseAlone : ∀ lease ∈ r.operations, ∀ lease' ∈ r.operations, lease.nonterminal →
    lease'.nonterminal → lease.sessionId = lease'.sessionId → lease = lease'
  held : ∀ lease ∈ r.operations, lease.nonterminal →
    ∃ claim ∈ r.claims, claim.state = .active ∧ Covers claim lease
  broker : ∀ claim ∈ r.claims, claim.state = .active →
    BrokerIs r.brokers claim.sessionId claim.sessionIncarnation
  wellFormed : ∀ claim ∈ r.claims, claim.WellFormed
  separate : ∀ lease ∈ r.operations, ∀ lease' ∈ r.operations, lease.nonterminal →
    lease'.nonterminal → lease.sessionId ≠ lease'.sessionId → Separate lease lease'

theorem Work.empty : Work Registry.empty where
  claimIds := nodup_nil
  leaseIds := nodup_nil
  eventIds := nodup_nil
  eventNamed := by simp [Registry.empty]
  claimOpen := by simp [Registry.empty]
  claimAlone := by simp [Registry.empty]
  leaseAlone := by simp [Registry.empty]
  held := by simp [Registry.empty]
  broker := by simp [Registry.empty]
  wellFormed := by simp [Registry.empty]
  separate := by simp [Registry.empty]

/-! ## Conflict evaluation -/

theorem evaluate_conflict_iff {principal : String × String}
    {claims : List WorkContextRecord} {complete allowIncomplete : Bool} :
    (evaluate (some principal) candidate claims complete allowIncomplete).classification =
      .conflict ↔ Conflicts principal candidate claims := by
  have hcases : ∀ (b : Bool) (x : ConflictClassification), x ≠ .conflict →
      ((if b then ConflictClassification.conflict else x) = .conflict ↔ b = true) := by
    intro b x hx
    cases b <;> simp [hx]
  unfold evaluate
  rw [hcases _ _ (by split_ifs <;> simp), any_eq_true]
  simp only [mem_dedupBy_eq, mem_sortBy, mem_flatMap, mem_filter, evaluatedPeers,
    Option.any_some, Bool.and_eq_true, Bool.not_eq_true', Bool.and_eq_false_iff, decide_eq_true_eq,
    decide_eq_false_iff_not, Conflicts]
  constructor
  · rintro ⟨reason, ⟨peer, ⟨⟨hmem, hother, hactive⟩, hschema⟩, hreason⟩, hconflict⟩
    refine ⟨peer, hmem, hactive, hschema, fun heq => ?_, reason, hreason, hconflict⟩
    cases heq
    simp at hother
  · rintro ⟨peer, hmem, hactive, hschema, hother, reason, hreason, hconflict⟩
    refine ⟨reason, ⟨peer, ⟨⟨hmem, ?_, hactive⟩, hschema⟩, hreason⟩, hconflict⟩
    by_contra hcon
    rw [not_or, not_not, not_not] at hcon
    exact hother (Prod.ext hcon.1 hcon.2)

theorem conflict_of_overlap
    {left right : Scope} (hl : left ∈ candidate.scopes) (hr : right ∈ peer.scopes)
    (hrepo : left.repository ∈ candidate.repositories) (hrepo' : right.repository ∈ peer.repositories)
    (ho : scopesOverlap left right) : ∃ reason ∈ peerReasons candidate peer, reason.code.isConflict := by
  have heq : left.repository = right.repository := by
    rw [scopesOverlap, Bool.and_eq_true, decide_eq_true_eq] at ho
    exact ho.1
  refine ⟨reason .overlappingScope peer (some left.repository), ?_, rfl⟩
  refine mem_append_right _ (List.mem_flatMap.mpr ⟨left.repository, ?_, ?_⟩)
  · simpa [hrepo] using heq ▸ hrepo'
  · have hleft : left ∈ candidate.scopes.filter fun scope => scope.repository = left.repository := by
      simp [hl]
    have hright : right ∈ peer.scopes.filter fun scope => scope.repository = left.repository := by
      simp [hr, heq]
    unfold repositoryReasons
    rw [if_neg, if_pos]
    · exact mem_singleton_self _
    · exact List.any_eq_true.mpr ⟨left, hleft, List.any_eq_true.mpr ⟨right, hright, ho⟩⟩
    · simp only [Bool.or_eq_true, List.isEmpty_iff, not_or]
      exact ⟨ne_nil_of_mem hleft, ne_nil_of_mem hright⟩

theorem conflict_of_provider
    {ref : ProviderRef} (hl : ref ∈ candidate.providerRefs) (hr : ref ∈ peer.providerRefs) :
    ∃ reason ∈ peerReasons candidate peer, reason.code.isConflict := by
  have hany : candidate.providerRefs.any (· ∈ peer.providerRefs) :=
    List.any_eq_true.mpr ⟨ref, hl, by simpa using hr⟩
  refine ⟨reason .sameProviderRef peer none, ?_, rfl⟩
  refine mem_append_left _ (mem_append_right _ ?_)
  rw [if_pos hany]
  exact mem_singleton_self _

theorem separate_of_not_conflicts {claims : List WorkContextRecord}
    (h : ¬ Conflicts (claim.sessionId, claim.sessionIncarnation) (inputFromRecord claim) claims)
    (hpeer : peer ∈ claims) (hactive : peer.state = .active)
    (hne : peer.sessionId ≠ claim.sessionId) (hc : claim.WellFormed) (hp : peer.WellFormed)
    (hx : Covers claim x) (hy : Covers peer y) : Separate x y := by
  have hnone : ¬ ∃ reason ∈ peerReasons (inputFromRecord claim) peer, reason.code.isConflict :=
    fun hreason => h ⟨peer, hpeer, hactive, hp.schema, fun heq => hne (congrArg Prod.fst heq), hreason⟩
  constructor
  · intro t ht t' ht' ho
    obtain ⟨scope, hs, hcov⟩ := hx.targets t ht
    obtain ⟨scope', hs', hcov'⟩ := hy.targets t' ht'
    exact hnone (conflict_of_overlap hs hs' (hc.repositories scope hs) (hp.repositories scope' hs')
      (scopesOverlap_of_covers hcov hcov' ho))
  · intro p hpx hpy
    exact hnone (conflict_of_provider (hx.providers p hpx) (hy.providers p hpy))

/-! ## The moves keep the invariant -/

theorem Covers.of_leaseStep {renews : OperationLease → Prop}
    (h : Covers claim x) (hs : LeaseStep renews pends x y) :
    Covers claim y := by
  obtain ⟨-, hsid, hinc, hclaim, htargets, hproviders, -⟩ := hs.same
  exact ⟨hclaim.trans h.claimId, hsid.trans h.sessionId, hinc.trans h.incarnation,
    htargets ▸ h.targets, hproviders ▸ h.providers⟩

theorem Covers.of_claimStep {claim' : WorkContextRecord}
    (h : Covers claim x) (hs : ClaimStep claim claim') : Covers claim' x := by
  obtain ⟨hid, hsid, hinc, hscopes, hproviders, -, -⟩ := hs.same
  exact ⟨h.claimId.trans hid.symm, h.sessionId.trans hsid.symm, h.incarnation.trans hinc.symm,
    hscopes ▸ h.targets, hproviders ▸ h.providers⟩

theorem hasNonterminalOperation_of_mem (hmem : lease ∈ operations) (hnt : lease.nonterminal) :
    hasNonterminalOperation operations lease.claimId :=
  List.any_eq_true.mpr ⟨lease, hmem, by simp [hnt]⟩

theorem endClaim_step (sessionId : String) (ends : String → Bool) (now : Int)
    (claim : WorkContextRecord) : ClaimStep claim (endClaim sessionId ends now claim) := by
  unfold endClaim
  split
  case isTrue h => exact .finish h.2.2 .released (by simp) _ now now
  case isFalse => exact .stay claim

theorem endLease_step (renews pends : OperationLease → Prop) (sessionId : String)
    (ends : String → Bool) (now : Int) (lease : OperationLease) :
    LeaseStep renews pends lease (endLease sessionId ends now lease) := by
  unfold endLease
  split
  case isTrue h =>
    exact .finish h.2.2 .abandoned (by simp [LeaseState.nonterminal]) lease.outcome
      lease.reconcileObservedAtEpoch now
  case isFalse => exact .stay lease

/-- No lease of the ended incarnations is left in progress. -/
theorem endLease_ended {ends : String → Bool} {now : Int}
    (hsid : (endLease sessionId ends now lease).sessionId = sessionId)
    (hends : ends (endLease sessionId ends now lease).sessionIncarnation) :
    ¬ (endLease sessionId ends now lease).nonterminal := by
  unfold endLease at *
  split
  case isTrue => simp [OperationLease.nonterminal, supersedeLease, LeaseState.nonterminal]
  case isFalse h =>
    rw [if_neg h] at hsid hends
    exact fun hn => h ⟨hsid, hends, hn⟩

theorem completeLease_step {renews : OperationLease → Prop} {event : CompletionEvent}
    {now : Int} (accepts : event.accepts lease) :
    LeaseStep renews pends lease (completeLease event.outcome now lease) := by
  have hn : lease.nonterminal := by
    rw [CompletionEvent.accepts, Bool.and_eq_true] at accepts
    exact accepts.2
  exact .finish hn event.outcome.state (by cases event.outcome <;> simp [CompletionOutcome.state, LeaseState.nonterminal])
    (some (.completion event.outcome)) lease.reconcileObservedAtEpoch now

namespace Work

variable {r : Registry}

section

variable (h : Work r)

include h

theorem claim_of_bound (hc : claim ∈ r.claims)
    (hb : hasNonterminalOperation r.operations claim.claimId) :
    ∃ lease ∈ r.operations, lease.nonterminal ∧ Covers claim lease := by
  obtain ⟨lease, hl, hb⟩ := List.any_eq_true.mp hb
  rw [Bool.and_eq_true, decide_eq_true_eq] at hb
  obtain ⟨claim', hc', -, hcov⟩ := h.held lease hl hb.2
  have heq : claim' = claim := eq_of_key_eq h.claimIds hc' hc (hcov.claimId.symm.trans hb.1)
  exact ⟨lease, hl, hb.2, heq ▸ hcov⟩

theorem leases {renews : OperationLease → Prop}

    (he : Evolves (LeaseStep renews pends) r.operations operations) :
    Work { r with operations := operations } := by
  have hids : (operations.map (·.leaseId)).Nodup :=
    he.keys_nodup _ (fun _ _ hs => hs.leaseId) h.leaseIds
  exact
    { h with
      leaseIds := hids
      leaseAlone := by
        intro y hy y' hy' hn hn' hsid
        obtain ⟨x, hx, hs⟩ := he.mem hy
        obtain ⟨x', hx', hs'⟩ := he.mem hy'
        have hxx : x = x' := h.leaseAlone x hx x' hx' (hs.nonterminal_of hn) (hs'.nonterminal_of hn')
          (by rw [← hs.same.2.1, ← hs'.same.2.1, hsid])
        exact eq_of_key_eq hids hy hy' (by rw [hs.leaseId, hs'.leaseId, hxx])
      held := by
        intro y hy hn
        obtain ⟨x, hx, hs⟩ := he.mem hy
        obtain ⟨claim, hc, hactive, hcov⟩ := h.held x hx (hs.nonterminal_of hn)
        exact ⟨claim, hc, hactive, hcov.of_leaseStep hs⟩
      separate := by
        intro y hy y' hy' hn hn' hsid
        obtain ⟨x, hx, hs⟩ := he.mem hy
        obtain ⟨x', hx', hs'⟩ := he.mem hy'
        have hsep := h.separate x hx x' hx' (hs.nonterminal_of hn) (hs'.nonterminal_of hn')
          (by rwa [← hs.same.2.1, ← hs'.same.2.1])
        obtain ⟨-, -, -, -, ht, hp, -⟩ := hs.same
        obtain ⟨-, -, -, -, ht', hp', -⟩ := hs'.same
        exact ⟨ht ▸ ht' ▸ hsep.targets, hp ▸ hp' ▸ hsep.providers⟩ }

theorem claims {claims : List WorkContextRecord}
    (he : Evolves ClaimStep r.claims claims)
    (keep : ∀ claim ∈ r.claims, claim.state = .active → claim.terminalAtEpoch = none →
      hasNonterminalOperation r.operations claim.claimId →
      ∃ claim' ∈ claims, ClaimStep claim claim' ∧ claim'.state = .active) :
    Work { r with claims := claims } := by
  have hids : (claims.map (·.claimId)).Nodup :=
    he.keys_nodup _ (fun _ _ hs => hs.claimId) h.claimIds
  exact
    { h with
      claimIds := hids
      claimOpen := by
        intro y hy hactive
        obtain ⟨x, hx, hs⟩ := he.mem hy
        obtain ⟨hxa, hterm⟩ := hs.active_of hactive
        exact hterm.trans (h.claimOpen x hx hxa)
      claimAlone := by
        intro y hy y' hy' ha ha' hsid
        obtain ⟨x, hx, hs⟩ := he.mem hy
        obtain ⟨x', hx', hs'⟩ := he.mem hy'
        have hxx : x = x' := h.claimAlone x hx x' hx' (hs.active_of ha).1 (hs'.active_of ha').1
          (by rw [← hs.same.2.1, ← hs'.same.2.1, hsid])
        exact eq_of_key_eq hids hy hy' (by rw [hs.claimId, hs'.claimId, hxx])
      held := by
        intro lease hl hn
        obtain ⟨claim, hc, hactive, hcov⟩ := h.held lease hl hn
        obtain ⟨claim', hc', hs, hactive'⟩ := keep claim hc hactive (h.claimOpen claim hc hactive)
          (hcov.claimId ▸ hasNonterminalOperation_of_mem hl hn)
        exact ⟨claim', hc', hactive', hcov.of_claimStep hs⟩
      broker := by
        intro y hy hactive
        obtain ⟨x, hx, hs⟩ := he.mem hy
        obtain ⟨-, hsid, hinc, -⟩ := hs.same
        exact hsid ▸ hinc ▸ h.broker x hx (hs.active_of hactive).1
      wellFormed := by
        intro y hy
        obtain ⟨x, hx, hs⟩ := he.mem hy
        obtain ⟨-, -, -, hscopes, -, hrepos, hschema⟩ := hs.same
        obtain ⟨hs1, hs2⟩ := h.wellFormed x hx
        exact ⟨hschema.trans hs1, hscopes ▸ hrepos ▸ hs2⟩ }

/-- Ending claims that no lease in progress is bound to. -/
theorem endClaims (sessionId : String) (ends : String → Bool) (now : Int)
    (hfree : ∀ lease ∈ r.operations, lease.sessionId = sessionId →
      ends lease.sessionIncarnation → ¬ lease.nonterminal) :
    Work { r with claims := r.claims.map (endClaim sessionId ends now) } := by
  refine h.claims (Evolves.of_map fun claim _ => endClaim_step _ _ _ _) ?_
  intro claim hc hactive _ hbound
  obtain ⟨lease, hl, hn, hcov⟩ := h.claim_of_bound hc hbound
  refine ⟨endClaim sessionId ends now claim, mem_map_of_mem hc, endClaim_step _ _ _ _, ?_⟩
  unfold endClaim
  rw [if_neg]
  · exact hactive
  · rintro ⟨hsid, hends, -⟩
    exact hfree lease hl (hcov.sessionId.trans hsid) (hcov.incarnation ▸ hends) hn

theorem endWork (sessionId : String) (ends : String → Bool) (now : Int) :
    Work (endWork sessionId ends now r) := by
  have hleases := h.leases (Evolves.of_map fun lease _ =>
    endLease_step (fun _ => False) (fun _ => False) sessionId ends now lease)
  refine hleases.endClaims sessionId ends now ?_
  intro lease hl hsid hends
  obtain ⟨x, -, rfl⟩ := List.mem_map.mp hl
  exact endLease_ended hsid hends

theorem retireClaims {incarnation : String}
    (hq : operationsQuiescent r sessionId incarnation) (now : Int) :
    Work { r with claims := r.claims.map (endClaim sessionId (· = incarnation) now) } := by
  refine h.endClaims sessionId _ now ?_
  intro lease hl hsid hinc hn
  rw [operationsQuiescent, Bool.not_eq_true', any_eq_false] at hq
  have := hq lease hl
  simp only [Bool.and_eq_true, decide_eq_true_eq, Bool.not_eq_true', Bool.or_eq_false_iff] at this hinc
  refine this ⟨⟨hsid, hinc⟩, ?_⟩
  constructor <;> simp only [decide_eq_false_iff_not] <;> intro hs <;>
    simp [OperationLease.nonterminal, hs, LeaseState.nonterminal] at hn

theorem move {codec : Codec} {env : Env} {renews : OperationLease → Prop} {r' : Registry}
 (hm : Move codec env renews r r') : Work r' := by
  cases hm with
  | mail | fingerprint | dropCursors | keepCursor | dropReceipts => exact { h with }
  | store key digest outcome hop free hstore =>
    obtain ⟨receipts, evictions, rfl, -⟩ := storeReceipt_spec hstore
    exact { h with }
  | accept envelope outcome free hstore =>
    obtain ⟨receipts, evictions, rfl, -⟩ := storeReceipt_spec hstore
    exact { h with }
  | drain event lease now hnow hevent hlease accepts hstore =>
    obtain ⟨receipts, evictions, rfl, -⟩ := storeReceipt_spec hstore
    have hleases := h.leases (@Evolves.of_updateFirst _
      (LeaseStep (fun _ => False) (fun _ => False)) r.operations event.names
      (completeLease event.outcome now) (fun x _ => .stay x) fun x hx => by
        obtain rfl : x = lease := by rw [hlease] at hx; exact (Option.some.inj hx).symm
        exact completeLease_step accepts)
    exact
      { hleases with
        eventIds := (List.filter_sublist.map _).nodup h.eventIds
        eventNamed := fun event' hmem => h.eventNamed event' (mem_of_mem_filter hmem) }
  | leases operations he => exact h.leases he
  | claims claims he keep => exact h.claims he keep
  | endWork sessionId ends now => exact h.endWork sessionId ends now
  | retireClaims sessionId incarnation now hq => exact h.retireClaims hq now
  | dropEvents p =>
    exact
      { h with
        eventIds := (List.filter_sublist.map _).nodup h.eventIds
        eventNamed := fun event' hmem => h.eventNamed event' (mem_of_mem_filter hmem) }
  | addEvent event lease hp =>
    refine { h with eventIds := ?_, eventNamed := ?_ }
    · rw [map_append, nodup_append]
      refine ⟨h.eventIds, by simp, ?_⟩
      rintro a ha b hb rfl
      obtain ⟨pending, hpending, rfl⟩ := List.mem_map.mp ha
      obtain heq : pending.eventId = event.eventId := by simpa using hb
      exact hp.fresh pending hpending heq
    · intro event' hmem
      rcases List.mem_append.mp hmem with hmem | hmem
      · exact h.eventNamed event' hmem
      · obtain rfl := List.mem_singleton.mp hmem
        exact hp.named
  | brokers brokers keep =>
    exact { h with broker := fun claim hc hactive => keep claim hc hactive (h.broker claim hc hactive) }

theorem moves {codec : Codec} {env : Env} {renews : OperationLease → Prop} {r' : Registry}
 (hm : Moves codec env renews r r') : Work r' := by
  induction hm with
  | refl => exact h
  | tail _ hm ih => exact ih.move hm

end

end Work

/-! ## New records -/

/-- The ids in the registry were drawn before. -/
structure Issued (ids : List String) (r : Registry) : Prop where
  claims : ∀ claim ∈ r.claims, claim.claimId ∈ ids
  leases : ∀ lease ∈ r.operations, lease.leaseId ∈ ids
  events : ∀ event ∈ r.completionEvents, event.leaseId ∈ ids

namespace Issued

variable {ids : List String} {r r' : Registry} {codec : Codec} {env : Env}
  {renews : OperationLease → Prop}

section

variable (h : Issued ids r)

include h

theorem mono {ids' : List String} (hsub : ids ⊆ ids') : Issued ids' r :=
  ⟨fun c hc => hsub (h.claims c hc), fun l hl => hsub (h.leases l hl),
    fun e he => hsub (h.events e he)⟩

theorem of_leases

    (he : Evolves (LeaseStep renews pends) r.operations operations) :
    ∀ lease ∈ operations, lease.leaseId ∈ ids := by
  intro y hy
  obtain ⟨x, hx, hs⟩ := he.mem hy
  exact hs.leaseId ▸ h.leases x hx

theorem of_claims {claims : List WorkContextRecord}
    (he : Evolves ClaimStep r.claims claims) : ∀ claim ∈ claims, claim.claimId ∈ ids := by
  intro y hy
  obtain ⟨x, hx, hs⟩ := he.mem hy
  exact hs.claimId ▸ h.claims x hx

theorem move (hm : Move codec env renews r r') : Issued ids r' := by
  cases hm with
  | mail | fingerprint | dropCursors | keepCursor | dropReceipts | brokers => exact { h with }
  | store key digest outcome hop free hstore =>
    obtain ⟨receipts, evictions, rfl, -⟩ := storeReceipt_spec hstore
    exact { h with }
  | accept envelope outcome free hstore =>
    obtain ⟨receipts, evictions, rfl, -⟩ := storeReceipt_spec hstore
    exact { h with }
  | drain event lease now hnow hevent hlease accepts hstore =>
    obtain ⟨receipts, evictions, rfl, -⟩ := storeReceipt_spec hstore
    refine { h with leases := ?_, events := ?_ }
    · intro y hy
      rcases mem_updateFirst hy with hy | ⟨x, hx, rfl⟩
      · exact h.leases y hy
      · exact h.leases x (List.mem_of_find?_eq_some hx)
    · exact fun e he => h.events e (mem_of_mem_filter he)
  | leases operations he => exact { h with leases := h.of_leases he }
  | claims claims he keep => exact { h with claims := h.of_claims he }
  | endWork sessionId ends now =>
    refine { h with claims := ?_, leases := ?_ }
    · exact h.of_claims (Evolves.of_map fun claim _ => endClaim_step _ _ _ _)
    · exact h.of_leases (Evolves.of_map fun lease _ =>
        endLease_step (fun _ => False) (fun _ => False) sessionId ends now lease)
  | retireClaims sessionId incarnation now hq =>
    exact { h with claims := h.of_claims (Evolves.of_map fun claim _ => endClaim_step _ _ _ _) }
  | dropEvents p => exact { h with events := fun e he => h.events e (mem_of_mem_filter he) }
  | addEvent event lease hp =>
    refine { h with events := ?_ }
    intro e he
    rcases List.mem_append.mp he with he | he
    · exact h.events e he
    · obtain rfl := List.mem_singleton.mp he
      have hname := List.find?_some hp.found
      simp only [CompletionEvent.names, OperationLease.isNamed, Bool.and_eq_true,
        decide_eq_true_eq] at hname
      exact hname.2 ▸ h.leases lease (List.mem_of_find?_eq_some hp.found)

theorem moves (hm : Moves codec env renews r r') : Issued ids r' := by
  induction hm with
  | refl => exact h
  | tail _ hm ih => exact ih.move hm

theorem add (ha : Add env r r') : Issued (env.uuid :: ids) r' := by
  have hsub : ids ⊆ env.uuid :: ids := subset_cons_self _ _
  cases ha with
  | claim claim hd =>
    refine { h.mono hsub with claims := ?_ }
    intro c hc
    rcases List.mem_append.mp hc with hc | hc
    · exact hsub (h.claims c hc)
    · obtain rfl := List.mem_singleton.mp hc
      exact hd.fresh ▸ mem_cons_self
  | lease claim lease hd =>
    refine { h.mono hsub with leases := ?_ }
    intro l hl
    rcases List.mem_append.mp hl with hl | hl
    · exact hsub (h.leases l hl)
    · obtain rfl := List.mem_singleton.mp hl
      exact hd.fresh ▸ mem_cons_self
  | message => exact { h.mono hsub with }

end

end Issued

/-- A list with unique keys, and an element with a new key. -/
theorem nodup_append_key {α κ : Type} {key : α → κ} {xs : List α} {x : α}
    (h : (xs.map key).Nodup) (hx : key x ∉ xs.map key) : ((xs ++ [x]).map key).Nodup := by
  rw [map_append, nodup_append]
  refine ⟨h, by simp, ?_⟩
  rintro a ha b hb rfl
  exact hx (List.mem_singleton.mp hb ▸ ha)

theorem BrokerIs.unique {brokers : Table String BrokerRecord} {i i' : String}
    (h : BrokerIs brokers sessionId i) (h' : BrokerIs brokers sessionId i') : i = i' := by
  obtain ⟨broker, hb, rfl⟩ := h
  obtain ⟨broker', hb', rfl⟩ := h'
  rw [Option.some.inj (hb.symm.trans hb')]

namespace Work

variable {ids : List String} {r r' : Registry} {env : Env}

theorem addClaim (h : Work r) (hi : Issued ids r) (huuid : env.uuid ∉ ids)
    (hd : Declared env r claim) :
    Work { r with claims := r.claims ++ [claim] } := by
  -- the only active claim of the session is the new one
  have hnone : ∀ x ∈ r.claims, x.sessionId = claim.sessionId → x.state ≠ .active := by
    intro x hx hsid hactive
    have hbroker := h.broker x hx hactive
    rw [hsid] at hbroker
    exact hd.alone x hx hsid (hbroker.unique hd.broker) hactive
  refine
    { h with
      claimIds := ?_
      claimOpen := ?_
      claimAlone := ?_
      held := ?_
      broker := ?_
      wellFormed := ?_ }
  · refine nodup_append_key h.claimIds fun hmem => huuid ?_
    obtain ⟨x, hx, heq⟩ := List.mem_map.mp hmem
    have := hi.claims x hx
    rwa [heq, hd.fresh] at this
  · intro x hx hactive
    rcases List.mem_append.mp hx with hx | hx
    · exact h.claimOpen x hx hactive
    · obtain rfl := List.mem_singleton.mp hx
      exact hd.terminal
  · intro x hmx y hmy ha ha' hsid
    rcases List.mem_append.mp hmx with hx | hx <;> rcases List.mem_append.mp hmy with hy | hy
    · exact h.claimAlone x hx y hy ha ha' hsid
    · obtain rfl := List.mem_singleton.mp hy
      exact absurd ha (hnone x hx hsid)
    · obtain rfl := List.mem_singleton.mp hx
      exact absurd ha' (hnone y hy hsid.symm)
    · rw [List.mem_singleton.mp hx, List.mem_singleton.mp hy]
  · intro lease hl hn
    obtain ⟨x, hx, hactive, hcov⟩ := h.held lease hl hn
    exact ⟨x, mem_append_left _ hx, hactive, hcov⟩
  · intro x hx hactive
    rcases List.mem_append.mp hx with hx | hx
    · exact h.broker x hx hactive
    · obtain rfl := List.mem_singleton.mp hx
      exact hd.broker
  · intro x hx
    rcases List.mem_append.mp hx with hx | hx
    · exact h.wellFormed x hx
    · obtain rfl := List.mem_singleton.mp hx
      exact hd.wellFormed

theorem separate_admitted (h : Work r) {other : OperationLease}
    (ha : Admitted env r claim lease) (ho : other ∈ r.operations) (hn : other.nonterminal)
    (hne : lease.sessionId ≠ other.sessionId) : Separate lease other := by
  obtain ⟨peer, hpeer, hactive, hcov⟩ := h.held other ho hn
  refine separate_of_not_conflicts ha.noConflict hpeer hactive ?_ (h.wellFormed claim ha.held.1)
    (h.wellFormed peer hpeer) ha.covered hcov
  rw [← hcov.sessionId, ← ha.covered.sessionId]
  exact hne.symm

theorem addLease (h : Work r) (hi : Issued ids r) (huuid : env.uuid ∉ ids)
    (ha : Admitted env r claim lease) :
    Work { r with operations := r.operations ++ [lease] } := by
  refine { h with leaseIds := ?_, leaseAlone := ?_, held := ?_, separate := ?_ }
  · refine nodup_append_key h.leaseIds fun hmem => huuid ?_
    obtain ⟨x, hx, heq⟩ := List.mem_map.mp hmem
    have := hi.leases x hx
    rwa [heq, ha.fresh] at this
  · intro x hmx y hmy hn hn' hsid
    rcases List.mem_append.mp hmx with hx | hx <;> rcases List.mem_append.mp hmy with hy | hy
    · exact h.leaseAlone x hx y hy hn hn' hsid
    · obtain rfl := List.mem_singleton.mp hy
      exact absurd hn (ha.alone x hx hsid)
    · obtain rfl := List.mem_singleton.mp hx
      exact absurd hn' (ha.alone y hy hsid.symm)
    · rw [List.mem_singleton.mp hx, List.mem_singleton.mp hy]
  · intro x hx hn
    rcases List.mem_append.mp hx with hx | hx
    · exact h.held x hx hn
    · obtain rfl := List.mem_singleton.mp hx
      exact ⟨claim, ha.held.1, ha.held.2, ha.covered⟩
  · intro x hmx y hmy hn hn' hsid
    rcases List.mem_append.mp hmx with hx | hx <;> rcases List.mem_append.mp hmy with hy | hy
    · exact h.separate x hx y hy hn hn' hsid
    · obtain rfl := List.mem_singleton.mp hy
      exact (h.separate_admitted ha hx hn hsid.symm).symm
    · obtain rfl := List.mem_singleton.mp hx
      exact h.separate_admitted ha hy hn' hsid
    · rw [List.mem_singleton.mp hx, List.mem_singleton.mp hy] at hsid
      exact absurd rfl hsid

theorem add (h : Work r) (hi : Issued ids r) (huuid : env.uuid ∉ ids) (ha : Add env r r') :
    Work r' := by
  cases ha with
  | claim claim hd => exact h.addClaim hi huuid hd
  | lease claim lease hd => exact h.addLease hi huuid hd
  | message => exact { h with }

theorem sectionMoves {codec : Codec} {renews : OperationLease → Prop} (h : Work r)
    (hi : Issued ids r) (huuid : env.uuid ∉ ids) (hs : SectionMoves codec env renews r r') :
    Work r' ∧ Issued (env.uuid :: ids) r' := by
  obtain ⟨r₁, r₂, h₁, hadd, h₂⟩ := hs
  rcases hadd with rfl | hadd
  · exact ⟨(h.moves h₁).moves h₂, ((hi.moves h₁).moves h₂).mono (subset_cons_self _ _)⟩
  · exact ⟨((h.moves h₁).add (hi.moves h₁) huuid hadd).moves h₂, ((hi.moves h₁).add hadd).moves h₂⟩

end Work

end NilsCli.Coordination
