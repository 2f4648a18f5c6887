import NilsCli.Coordination.Drain

/-!
# Maintenance as moves

`lockRegistry` and `cleanExpired`, which frame every section, are sequences of moves.
-/

namespace NilsCli.Coordination

open Lib

variable {snapshot : OperationLease} {outcome : LeaseOutcome}

variable {brokers : Table String BrokerRecord} {p : String → BrokerRecord → Bool}
  {lease : OperationLease}

variable {codec : Codec} {env : Env} {renews : OperationLease → Prop} {r r' r'' : Registry}
  {now : Int}

/-! ## The mailbox -/

def MailOnly (env : Env) (r r' : Registry) : Prop :=
  ∃ messages rejections notifications, Posts env r.messages messages ∧ r' =
    { r with
      messages := messages
      quotaRejections := rejections
      notifications := notifications }

namespace MailOnly

theorem refl (r : Registry) : MailOnly env r r := ⟨_, _, _, .refl, rfl⟩

theorem trans (h : MailOnly env r r') (h' : MailOnly env r' r'') : MailOnly env r r'' := by
  obtain ⟨_, _, _, hp, rfl⟩ := h
  obtain ⟨m, q, n, hp', rfl⟩ := h'
  exact ⟨m, q, n, hp.trans hp', rfl⟩

theorem moves (h : MailOnly env r r') (ha : KeepsAwake env r r') :
    Moves codec env renews r r' := by
  obtain ⟨m, q, n, hp, rfl⟩ := h
  exact .single (.mail r m q n ha hp)

theorem receipts_eq (h : MailOnly env r r') : r'.receipts = r.receipts := by
  obtain ⟨m, q, n, -, rfl⟩ := h
  rfl

end MailOnly

theorem notifications_mail (r : Registry) (receipts : Table NotificationKey NotificationReceipt) :
    MailOnly env r { r with notifications := receipts } :=
  ⟨_, _, _, .refl, rfl⟩

theorem normalizeRegistry_mail (now : Int) (r : Registry) :
    MailOnly env r (normalizeRegistry codec now r) := notifications_mail r _

theorem schedule_mail (r : Registry) (sessionId incarnation : String) (now : Int) :
    MailOnly env r (schedule codec r sessionId incarnation now).1 :=
  (normalizeRegistry_mail now r).trans (notifications_mail _ _)

theorem signalQuota_mail (r : Registry) (sessionId incarnation : String) (now : Int) :
    MailOnly env r (signalQuota codec r sessionId incarnation now) :=
  (schedule_mail r sessionId incarnation now).trans (notifications_mail _ _)

theorem resolveDrainedGeneration_mail (r : Registry) (sessionId incarnation : String) (now : Int) :
    MailOnly env r (resolveDrainedGeneration r sessionId incarnation now) := by
  unfold resolveDrainedGeneration
  split
  · exact .refl r
  · exact notifications_mail r _

theorem maintainRetention_moves (hnow : now = env.lockNow ∨ now = env.now) :
    Moves codec env renews r (maintainRetention now r) := by
  have hmail : MailOnly env
      { r with
        receipts := Table.filter (fun _ receipt => decide (receipt.expiresAtEpoch > now))
          r.receipts }
      (maintainRetention now r) := ⟨_, _, _, maintainRetention_posts (r := r) hnow, rfl⟩
  exact (Relation.ReflTransGen.single (.dropReceipts r now hnow)).trans
    (hmail.moves fun _ _ ha => maintainRetention_awake (ha.congr rfl rfl))

/-! ## Cleaning -/

theorem expireLease_step (pends : OperationLease → Prop) (now : Int) (lease : OperationLease) :
    LeaseStep renews pends lease (expireLease now lease) := by
  unfold expireLease
  split
  case isTrue h => exact .expire h.1
  case isFalse =>
    split
    case isTrue h => exact .stamp h.1 now
    case isFalse => exact .stay lease

theorem expireClaim_step (brokers : Table String BrokerRecord) (operations : List OperationLease)
    (now : Int) (claim : WorkContextRecord) :
    ClaimStep claim (expireClaim env brokers operations now claim) := by
  unfold expireClaim
  split
  case isTrue h => exact .finish h.1 .expired (by simp) _ claim.updatedAtEpoch now
  case isFalse =>
    split
    case isTrue h => exact .stamp h.1 now
    case isFalse => exact .stay claim

/-- A claim with a lease in progress does not expire. -/
theorem expireClaim_bound {operations : List OperationLease}
    {claim : WorkContextRecord} (hactive : claim.state = .active)
    (hbound : hasNonterminalOperation operations claim.claimId) :
    expireClaim env brokers operations now claim = claim := by
  simp [expireClaim, hactive, hbound]

theorem cleanExpired_moves : Moves codec env renews r (cleanExpired env env.now r) := by
  -- the leases expire, then the claims that no lease in progress is bound to
  let r₁ := { r with operations := r.operations.map (expireLease env.now) }
  have h₁ : Moves codec env renews r r₁ :=
    .single (.leases r _ (Evolves.of_map fun lease _ => expireLease_step _ _ _))
  let r₂ := { r₁ with
    claims := r₁.claims.map (expireClaim env r₁.brokers r₁.operations env.now) }
  have h₂ : Moves codec env renews r₁ r₂ := by
    refine .single (.claims r₁ _ (Evolves.of_map fun claim _ => expireClaim_step _ _ _ _) ?_)
    intro claim hc hactive _ hbound
    have heq : expireClaim env r₁.brokers r₁.operations env.now claim = claim :=
      expireClaim_bound hactive hbound
    exact ⟨claim, List.mem_map.mpr ⟨claim, hc, heq⟩, .stay claim, hactive⟩
  let r₃ := maintainRetention env.now r₂
  have h₃ : Moves codec env renews r₂ r₃ := maintainRetention_moves (.inr rfl)
  -- then terminal records and settled events are dropped
  let r₄ := { r₃ with
    operations := r₃.operations.filter fun lease => terminalRetained env.now lease.terminalAtEpoch }
  have h₄ : Moves codec env renews r₃ r₄ :=
    .single (.leases r₃ _ (Evolves.of_filter fun lease _ => .stay lease))
  let r₅ := { r₄ with
    claims := r₄.claims.filter fun claim => terminalRetained env.now claim.terminalAtEpoch }
  have h₅ : Moves codec env renews r₄ r₅ := by
    refine .single (.claims r₄ _ (Evolves.of_filter fun claim _ => .stay claim) ?_)
    intro claim hc hactive hopen _
    refine ⟨claim, List.mem_filter.mpr ⟨hc, ?_⟩, .stay claim, hactive⟩
    simp [terminalRetained, hopen]
  let r₆ := { r₅ with completionEvents :=
    r₅.completionEvents.filter (eventRetained r₄.operations env.now) }
  have h₆ : Moves codec env renews r₅ r₆ :=
    .single (.dropEvents r₅ (eventRetained r₄.operations env.now))
  have h₇ : Moves codec env renews r₆ (cleanExpired env env.now r) := .single (.dropCursors r₆ _ _ _)
  exact (((((h₁.trans h₂).trans h₃).trans h₄).trans h₅).trans h₆).trans h₇

/-! ## Locking -/

theorem renewClaim_step (brokers : Table String BrokerRecord) (now : Int)
    (claim : WorkContextRecord) :
    ClaimStep claim (renewClaim env brokers now claim) ∧
      (renewClaim env brokers now claim).state = claim.state := by
  unfold renewClaim
  split
  case isTrue => exact ⟨.stay claim, rfl⟩
  case isFalse h =>
    split
    case isTrue =>
      have hactive : claim.state = .active := by
        by_contra hn
        exact h (.inl hn)
      exact ⟨.renew hactive claim.revision claim.updatedAtEpoch _, rfl⟩
    case isFalse => exact ⟨.stay claim, rfl⟩

theorem brokerLive_of_filter {sessionId incarnation : String}
    (h : brokerLive env (Table.filter p brokers) sessionId incarnation) :
    brokerLive env brokers sessionId incarnation := by
  unfold brokerLive at *
  rw [Table.lookup_filter] at h
  cases hb : brokers.lookup sessionId with
  | none => simp [hb] at h
  | some broker =>
    rw [hb, Option.filter_some] at h
    split at h
    · exact h
    · cases h

theorem leaseRenewable_of_filter (h : leaseRenewable env (Table.filter p brokers) now lease) :
    leaseRenewable env brokers now lease := by
  unfold leaseRenewable at *
  simp only [Bool.and_eq_true] at h ⊢
  exact ⟨⟨h.1.1, brokerLive_of_filter h.1.2⟩, h.2⟩

def Renewed (env : Env) (r : Registry) (lease : OperationLease) : Prop :=
  leaseRenewable env r.brokers env.lockNow lease

theorem renewLease_step (pends : OperationLease → Prop) (lease : OperationLease) :
    LeaseStep (Renewed env r) pends lease
      (renewLease env (Table.filter p r.brokers) env.lockNow lease) := by
  unfold renewLease
  split
  case isTrue h =>
    have hn := h
    unfold leaseRenewable at hn
    simp only [Bool.and_eq_true] at hn
    exact .renew hn.1.1.1 (leaseRenewable_of_filter h) _
  case isFalse => exact .stay lease

theorem pruneStaleStoppedBrokers_moves :
    Moves codec env renews r (pruneStaleStoppedBrokers env now r) := by
  refine .single (.brokers r _ ?_)
  rintro claim hc hactive ⟨broker, hb, hinc⟩
  refine ⟨broker, ?_, hinc⟩
  have hholds : holdsWork r claim.sessionId broker.incarnation := by
    unfold holdsWork
    rw [Bool.or_eq_true]
    exact .inl (List.any_eq_true.mpr ⟨claim, hc, by simp [hinc, hactive]⟩)
  rw [Table.lookup_filter, hb]
  simp [hholds]

theorem abandonExactOperation_moves
    (h : abandonExactOperation r snapshot now outcome = .ok (r', lease)) :
    Moves codec env renews r r' := by
  unfold abandonExactOperation at h
  simp only [bind_eq_ok, orErr_eq_ok] at h
  obtain ⟨x, hx, h⟩ := h
  cases h
  refine .single (.leases r _ (Evolves.of_updateFirst (fun x _ => .stay x) fun x hx => ?_))
  have hn := List.find?_some hx
  rw [OperationLease.isSnapshot, Bool.and_eq_true] at hn
  exact .finish hn.2 .abandoned (by simp [LeaseState.nonterminal]) (some outcome) none now

theorem abandonExactOperation_receipts
    (h : abandonExactOperation r snapshot now outcome = .ok (r', lease)) :
    r'.receipts = r.receipts := by
  unfold abandonExactOperation at h
  rw [bind_eq_ok] at h
  obtain ⟨x, -, h⟩ := h
  cases h
  rfl

theorem reclaimLease_moves (hnow : now = env.lockNow ∨ now = env.now) (lease : OperationLease) :
    Moves codec env renews r (reclaimLease codec env now r lease) := by
  unfold reclaimLease
  split
  case h_1 => exact .refl
  case h_2 record _ =>
    split
    case isTrue => exact .refl
    case isFalse =>
      split
      case h_1 => exact .refl
      case h_2 drained count hdrain =>
        have hm : Moves codec env renews r drained := drainEvents_moves hnow hdrain
        split
        case isTrue => exact hm
        case isFalse =>
          split
          case isTrue => exact hm
          case isFalse =>
            split
            case h_1 abandoned _ habandon => exact hm.trans (abandonExactOperation_moves habandon)
            case h_2 => exact hm

theorem reclaimExpiredInactiveOperations_moves (hnow : now = env.lockNow ∨ now = env.now) :
    Moves codec env renews r (reclaimExpiredInactiveOperations codec env now r) := by
  unfold reclaimExpiredInactiveOperations
  generalize r.operations.filter _ = leases
  induction leases generalizing r with
  | nil => exact .refl
  | cons lease rest ih => exact (reclaimLease_moves hnow lease).trans ih

theorem lockRegistry_renews : ∃ p m, Moves codec env (Renewed env r) r m ∧
    m.completionEvents = r.completionEvents ∧
    m.operations = r.operations.map (renewLease env (Table.filter p r.brokers) env.lockNow) ∧
    lockRegistry codec env r = reclaimExpiredInactiveOperations codec env env.lockNow m := by
  let r₁ := normalizeRegistry codec env.lockNow r
  have h₁ : Moves codec env (Renewed env r) r r₁ :=
    (normalizeRegistry_mail _ r).moves fun _ _ ha => normalizeRegistry_awake ha
  let r₂ := { r₁ with claims := r₁.claims.map (renewClaim env r₁.brokers env.lockNow) }
  have h₂ : Moves codec env (Renewed env r) r₁ r₂ := by
    refine .single (.claims r₁ _ (Evolves.of_map fun claim _ => (renewClaim_step _ _ _).1) ?_)
    intro claim hc hactive _ _
    obtain ⟨hstep, hstate⟩ := @renewClaim_step env r₁.brokers env.lockNow claim
    exact ⟨_, List.mem_map_of_mem hc, hstep, hstate.trans hactive⟩
  let r₃ := maintainRetention env.lockNow r₂
  have h₃ : Moves codec env (Renewed env r) r₂ r₃ := maintainRetention_moves (.inl rfl)
  let r₄ := pruneStaleStoppedBrokers env env.lockNow r₃
  have h₄ : Moves codec env (Renewed env r) r₃ r₄ := pruneStaleStoppedBrokers_moves
  let r₅ := { r₄ with operations := r₄.operations.map (renewLease env r₄.brokers env.lockNow) }
  have h₅ : Moves codec env (Renewed env r) r₄ r₅ :=
    .single (.leases r₄ _ (Evolves.of_map fun lease _ => renewLease_step _ _))
  exact ⟨_, r₅, (((h₁.trans h₂).trans h₃).trans h₄).trans h₅, rfl, rfl, rfl⟩

theorem lockRegistry_moves : Moves codec env (Renewed env r) r (lockRegistry codec env r) := by
  obtain ⟨p, m, hm, -, -, hlock⟩ := @lockRegistry_renews codec env r
  rw [hlock]
  exact hm.trans (reclaimExpiredInactiveOperations_moves (.inl rfl))

end NilsCli.Coordination
