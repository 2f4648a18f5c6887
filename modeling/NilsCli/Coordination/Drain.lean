import NilsCli.Coordination.WorkInvariant

/-!
# Draining the completion queue

What `drain_completion_event_in_registry` and its loops do, once: an event is drained into its
lease or left as it is.
-/

namespace NilsCli.Coordination

open Lib

variable {event : CompletionEvent} {lease : OperationLease} {eventId : EventId} {done : Bool}
  {n : Nat} {ids : List EventId}

variable {codec : Codec} {env : Env} {renews : OperationLease → Prop} {r r' : Registry} {now : Int}

theorem names_iff :
    event.names lease ↔ lease.sessionId = event.sessionId ∧
      lease.sessionIncarnation = event.sessionIncarnation ∧ lease.leaseId = event.leaseId := by
  simp [CompletionEvent.names, OperationLease.isNamed, and_assoc]

theorem CompletionEvent.accepts_nonterminal (h : event.accepts lease) : lease.nonterminal := by
  rw [CompletionEvent.accepts, Bool.and_eq_true] at h
  exact h.2

/-- The first lease that an event names is the only one. -/
theorem Work.find_names (h : Work r) (hl : lease ∈ r.operations) (hn : event.names lease) :
    r.operations.find? event.names = some lease := by
  obtain ⟨x, hx⟩ := Option.isSome_iff_exists.mp (List.find?_isSome.mpr ⟨lease, hl, hn⟩)
  have hids : x.leaseId = lease.leaseId :=
    (names_iff.mp (List.find?_some hx)).2.2.trans (names_iff.mp hn).2.2.symm
  rw [hx, eq_of_key_eq h.leaseIds (List.mem_of_find?_eq_some hx) hl hids]

theorem Work.find_event (h : Work r) (he : event ∈ r.completionEvents) :
    r.completionEvents.find? (fun e => e.eventId = event.eventId) = some event := by
  have hsome : (r.completionEvents.find? fun e => e.eventId = event.eventId).isSome :=
    List.find?_isSome.mpr ⟨event, he, decide_eq_true rfl⟩
  obtain ⟨e, hfe⟩ := Option.isSome_iff_exists.mp hsome
  rw [hfe, eq_of_key_eq h.eventIds (List.mem_of_find?_eq_some hfe) he
    (by simpa using List.find?_some hfe)]

def drained (event : CompletionEvent) (now : Int) (stored : Registry) : Registry :=
  { stored with
    operations := updateFirst event.names (completeLease event.outcome now) stored.operations
    completionEvents := stored.completionEvents.filter fun candidate =>
      candidate.eventId ≠ event.eventId }

theorem drainCompletionEvent_cases (h : drainCompletionEvent codec r eventId now = .ok (r', done)) :
    (r' = r ∧ done = false ∧ ∀ event lease,
      r.completionEvents.find? (fun event => event.eventId = eventId) = some event →
      r.operations.find? event.names = some lease → ¬ event.accepts lease) ∨
    (done = true ∧ ∃ event lease stored,
      r.completionEvents.find? (fun event => event.eventId = eventId) = some event ∧
      r.operations.find? event.names = some lease ∧ event.accepts lease ∧
      storeReceipt codec r event.receiptKey event.requestDigest
        (.lease (publicLease (completeLease event.outcome now lease))) now = .ok stored ∧
      r' = drained event now stored) := by
  unfold drainCompletionEvent at h
  split at h
  case h_1 hnone =>
    cases h
    exact .inl ⟨rfl, rfl, fun event _ hf => by rw [hnone] at hf; cases hf⟩
  case h_2 event hevent =>
    split at h
    case h_1 hnone =>
      cases h
      refine .inl ⟨rfl, rfl, fun event' lease hf hl => ?_⟩
      rw [hevent] at hf
      cases hf
      rw [hnone] at hl
      cases hl
    case h_2 lease hlease =>
      split at h
      case isTrue hno =>
        cases h
        refine .inl ⟨rfl, rfl, fun event' lease' hf hl => ?_⟩
        rw [hevent] at hf
        cases hf
        rw [hlease] at hl
        cases hl
        simpa using hno
      case isFalse hyes =>
        rw [bind_eq_ok] at h
        obtain ⟨stored, hstored, h⟩ := h
        cases h
        have hid : event.eventId = eventId := by simpa using List.find?_some hevent
        exact .inr ⟨rfl, event, lease, stored, hevent, hlease, by simpa using hyes, hstored,
          by rw [drained, hid]⟩

theorem drainCompletionEvent_moves (hnow : now = env.lockNow ∨ now = env.now)
    (h : drainCompletionEvent codec r eventId now = .ok (r', done)) :
    Moves codec env renews r r' := by
  rcases drainCompletionEvent_cases h with ⟨rfl, -⟩ | ⟨-, event, lease, stored, he, hl, ha, hs, rfl⟩
  · exact .refl
  · exact .single (.drain event lease now hnow (List.mem_of_find?_eq_some he) hl ha hs)

theorem drainEvents_cons {rest : List EventId}
    (h : drainEvents codec now r (eventId :: rest) = .ok (r', n)) :
    ∃ r₁ done count, drainCompletionEvent codec r eventId now = .ok (r₁, done) ∧
      drainEvents codec now r₁ rest = .ok (r', count) ∧ n = (if done then 1 else 0) + count := by
  rw [drainEvents] at h
  simp only [bind_eq_ok] at h
  obtain ⟨⟨r₁, done⟩, h₁, ⟨r₂, count⟩, h₂, h⟩ := h
  cases h
  exact ⟨r₁, done, count, h₁, h₂, rfl⟩

theorem drainEvents_moves (hnow : now = env.lockNow ∨ now = env.now)
    (h : drainEvents codec now r ids = .ok (r', n)) : Moves codec env renews r r' := by
  induction ids generalizing r n with
  | nil => cases h; exact .refl
  | cons eventId rest ih =>
    obtain ⟨r₁, done, count, h₁, h₂, -⟩ := drainEvents_cons h
    exact (drainCompletionEvent_moves hnow h₁).trans (ih h₂)

/-! ## After the drain -/

/-- A drain leaves a lease as it was or ends it. -/
def Settles (x y : OperationLease) : Prop :=
  y = x ∨ (y.sessionId = x.sessionId ∧ y.sessionIncarnation = x.sessionIncarnation ∧
    y.leaseId = x.leaseId ∧ ¬ y.nonterminal)

theorem Settles.trans (x y z : OperationLease) (h : Settles x y) (h' : Settles y z) :
    Settles x z := by
  rcases h' with rfl | ⟨h₁, h₂, h₃, h₄⟩
  · exact h
  · rcases h with rfl | ⟨g₁, g₂, g₃, -⟩
    · exact .inr ⟨h₁, h₂, h₃, h₄⟩
    · exact .inr ⟨h₁.trans g₁, h₂.trans g₂, h₃.trans g₃, h₄⟩

theorem completeLease_terminal (outcome : CompletionOutcome) (now : Int) (lease : OperationLease) :
    ¬ (completeLease outcome now lease).nonterminal := by
  cases outcome <;>
    simp [completeLease, OperationLease.nonterminal, CompletionOutcome.state, LeaseState.nonterminal]

theorem drained_settles {event : CompletionEvent} {stored : Registry} :
    Evolves Settles stored.operations (drained event now stored).operations :=
  Evolves.of_updateFirst (fun _ _ => .inl rfl) fun x _ =>
    .inr ⟨rfl, rfl, rfl, completeLease_terminal event.outcome now x⟩

theorem drainCompletionEvent_settles
    (h : drainCompletionEvent codec r eventId now = .ok (r', done)) :
    Evolves Settles r.operations r'.operations ∧
      r'.completionEvents.Sublist r.completionEvents := by
  rcases drainCompletionEvent_cases h with ⟨rfl, -⟩ | ⟨-, event, lease, stored, -, -, -, hs, rfl⟩
  · exact ⟨Evolves.refl fun _ _ => .inl rfl, List.Sublist.refl _⟩
  · obtain ⟨receipts, evictions, rfl, -⟩ := storeReceipt_spec hs
    exact ⟨drained_settles, List.filter_sublist⟩

theorem drainEvents_settles (h : drainEvents codec now r ids = .ok (r', n)) :
    Evolves Settles r.operations r'.operations ∧
      r'.completionEvents.Sublist r.completionEvents := by
  induction ids generalizing r n with
  | nil => cases h; exact ⟨Evolves.refl fun _ _ => .inl rfl, List.Sublist.refl _⟩
  | cons eventId rest ih =>
    obtain ⟨r₁, done, count, h₁, h₂, -⟩ := drainEvents_cons h
    obtain ⟨he₁, hs₁⟩ := drainCompletionEvent_settles h₁
    obtain ⟨he₂, hs₂⟩ := ih h₂
    exact ⟨he₁.trans Settles.trans he₂, hs₂.trans hs₁⟩

theorem not_accepts_of_settles {x y : OperationLease} (h : Settles x y)
    (hx : ¬ event.accepts x) : ¬ event.accepts y := by
  rcases h with rfl | ⟨-, -, -, hy⟩
  · exact hx
  · exact fun ha => hy (CompletionEvent.accepts_nonterminal ha)

theorem drainEvents_undrained (hnow : now = env.lockNow ∨ now = env.now) (hw : Work r)
    (h : drainEvents codec now r ids = .ok (r', n))
    (he : event ∈ r'.completionEvents) (hid : event.eventId ∈ ids)
    (hl : lease ∈ r'.operations) (hn : event.names lease) : ¬ event.accepts lease := by
  induction ids generalizing r n with
  | nil => cases hid
  | cons eventId rest ih =>
    obtain ⟨r₁, done, count, h₁, h₂, -⟩ := drainEvents_cons h
    by_cases hrest : event.eventId ∈ rest
    · have hm : Moves codec env (fun _ => False) r r₁ :=
        drainCompletionEvent_moves hnow h₁
      exact ih (hw.moves hm) h₂ hrest
    obtain rfl : event.eventId = eventId := (List.mem_cons.mp hid).resolve_right hrest
    have he₁ : event ∈ r₁.completionEvents := (drainEvents_settles h₂).2.subset he
    rcases drainCompletionEvent_cases h₁ with ⟨rfl, -, hno⟩ | ⟨-, event', lease', stored, hf, -, -, -, rfl⟩
    · -- the event was left: its lease did not accept it, and drains only end leases
      obtain ⟨x, hx, hs⟩ := (drainEvents_settles h₂).1.mem hl
      have hnx : event.names x := by
        rw [names_iff] at hn ⊢
        rcases hs with rfl | ⟨h1, h2, h3, -⟩
        · exact hn
        · exact ⟨h1 ▸ hn.1, h2 ▸ hn.2.1, h3 ▸ hn.2.2⟩
      exact not_accepts_of_settles hs (hno event x (hw.find_event he₁) (hw.find_names hx hnx))
    · -- the event was drained, and is no longer pending
      have hid' : event'.eventId = event.eventId := by simpa using List.find?_some hf
      exact absurd hid'.symm (of_decide_eq_true (List.mem_filter.mp he₁).2)

theorem drainCompletionEvents_undrained (hnow : now = env.lockNow ∨ now = env.now) (hw : Work r)

    (h : drainCompletionEvents codec r now = .ok (r', n)) (lease : OperationLease)
    (hl : lease ∈ r'.operations) : Undrained r' lease := by
  intro event he hn
  have hid : event.eventId ∈ r.completionEvents.map (·.eventId) :=
    List.mem_map_of_mem ((drainEvents_settles h).2.subset he)
  exact drainEvents_undrained hnow hw h he hid hl hn

end NilsCli.Coordination
