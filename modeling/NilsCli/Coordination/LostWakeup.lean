import NilsCli.Coordination.WorkSafety

/-!
# No wake-up is lost

In every registry of a run whose sections read no clock ahead of `t`, each message that is live and
unread at `t` has a wake-up receipt that announced its last generation, or whose wake-up is still
pending or visibly unresolved; it is not parked.
-/

namespace NilsCli.Coordination

open Lib

variable {codec : Codec} {env : Env} {renews : OperationLease → Prop} {r r' : Registry} {t : Int}

/-! ## Sections -/

theorem Move.awake (h : Move codec env renews r r') (hle : env.now ≤ t) (ha : Awake t r) :
    Awake t r' := by
  cases h with
  | mail messages rejections notifications hk => exact hk t hle ha
  | store key digest outcome hop free hstore =>
    obtain ⟨receipts, evictions, rfl, -⟩ := storeReceipt_spec hstore
    exact ha.congr rfl rfl
  | accept envelope outcome free hstore =>
    obtain ⟨receipts, evictions, rfl, -⟩ := storeReceipt_spec hstore
    exact ha.congr rfl rfl
  | drain event lease now hnow hevent hlease accepts hstore =>
    obtain ⟨receipts, evictions, rfl, -⟩ := storeReceipt_spec hstore
    exact ha.congr rfl rfl
  | fingerprint | dropCursors | keepCursor | dropReceipts | leases | claims | endWork | retireClaims | dropEvents | addEvent
    | brokers => exact ha.congr rfl rfl

theorem Moves.awake (h : Moves codec env renews r r') (hle : env.now ≤ t) (ha : Awake t r) :
    Awake t r' := by
  induction h with
  | refl => exact ha
  | tail _ hm ih => exact hm.awake hle ih

theorem SectionMoves.awake (h : SectionMoves codec env renews r r') (hle : env.now ≤ t)
    (ha : Awake t r) : Awake t r' := by
  obtain ⟨r₁, r₂, h₁, hadd, h₂⟩ := h
  have ha₁ := Moves.awake h₁ hle ha
  refine Moves.awake h₂ hle ?_
  rcases hadd with rfl | hadd
  · exact ha₁
  · cases hadd with
    | claim | lease => exact ha₁.congr rfl rfl
    | message messages message rejections notifications hk => exact hk t hle ha₁

/-! ## Runs -/

def systemUntil (codec : Codec) (t : Int) : Lts := (system codec).restrict fun l _ => l.1.now ≤ t

theorem awake_of_reach {s : State} (h : (systemUntil codec t).Reach s) : Awake t s.registry := by
  have hboth := Lts.Reach.invariant (S := systemUntil codec t)
    (I := fun s => Sound s ∧ Awake t s.registry) ?_ ?_ h
  · exact hboth.2
  · rintro s rfl
    exact ⟨sound_of_reach (Lts.Reach.init (S := system codec) rfl), .empty⟩
  · rintro l s s' ⟨hs, ha⟩ ⟨hle, hst⟩
    refine ⟨hs.step hst, ?_⟩
    obtain ⟨-, rfl⟩ := hst
    exact (exec_moves hs.work l.2).awake hle ha

def Unresolved (x : NotificationReceipt) : Prop :=
  x.state = .queued ∨ x.state = .attempting ∨ x.state = .attemptUnknown ∨ x.state = .undeliverable

theorem Regular.unresolved {x : NotificationReceipt} (h : Regular x)
    (hn : x.notifiedGeneration ≠ x.generation) : Unresolved x := by
  have hknown := h.known
  have hsubmitted := h.submitted
  unfold Unresolved
  cases hs : x.state <;> simp_all [NotificationState.known]

/-- Every live unread message has a wake-up receipt. It announced its last generation, or its
wake-up is pending or unresolved; it is not parked, unless its counter is at its bound; and where
the attempt of an older generation is unknown, normalization queues the wake-up again. -/
theorem wakeup_not_lost {s : State} (h : (systemUntil codec t).Reach s) {message : StoredMessage}
    (hm : message ∈ s.registry.messages) (hl : liveUnread t message) :
    ∃ x, s.registry.notifications.lookup message.wakeKey = some x ∧
      (x.notifiedGeneration = x.generation ∨ Unresolved x) ∧
      (u64Max ≤ x.generation ∨ x.lastReason ≠ some reasonDrained) ∧
      ∀ now, ∃ y,
        (normalizeRegistry codec now s.registry).notifications.lookup message.wakeKey = some y ∧
        (y.generation = x.generation ∧ y.notifiedGeneration = x.notifiedGeneration ∧
          (y.state = .attemptUnknown → y.attemptedGeneration = y.generation ∨
            y.notifiedGeneration = y.generation)) := by
  have ha := awake_of_reach h
  obtain ⟨x, hx, hunparked⟩ := ha.woken _ ⟨message, hm, hl, rfl⟩
  have hreg := ha.wellKeyed.regular _ x hx
  refine ⟨x, hx, ?_, hunparked, fun now => ?_⟩
  · exact or_iff_not_imp_left.mpr hreg.unresolved
  · have hn := @normalizes codec now s.registry.messages x hreg
    refine ⟨_, by rw [lookup_normalizeRegistry ha.wellKeyed, hx, Option.map_some], hn.generation,
      hn.notified, fun hs => ?_⟩
    rw [hn.attempted, hn.generation, hn.notified]
    exact normalizedReceipt_unknown hreg hs

/-! ## A message behind an attempt -/

def sampleSend (number : Nat) : SendArgs where
  kind := .send
  senderId := "alpha"
  senderIncarnation := "launch-1"
  recipientId := "beta"
  body := "message " ++ toString number
  replyTo := none
  expirySecs := 3600
  replyBySecs := none
  idempotencyKey := "send-key-" ++ toString number
  explicitReplyDepth := none
  expectedRecipientIncarnation := none
  expectedParentRevision := none
  category := none
  forward := none
  digest := .send "alpha" "beta" (digestBytes ("message " ++ toString number)) none 3600 none none
    none

def betaCandidate : NotificationCandidate := ⟨none, "beta", "launch-1", 1, 1020, 0, none⟩

theorem unknown_not_drained : "submission-outcome-unknown" ≠ reasonDrained := by decide

def overtakenRun : List (Env × Section) :=
  [(sampleEnv 1000 "id-1", .provision ⟨sampleSession "alpha" alpha_ne, none, "token-alpha", true⟩),
    (sampleEnv 1001 "id-2", .provision ⟨sampleSession "beta" beta_ne, none, "token-beta", true⟩),
    (sampleEnv 1020 "id-3", .send (sampleSend 1)),
    (sampleEnv 1021 "id-4", .beginAttempt betaCandidate 1021000000000 false),
    (sampleEnv 1022 "id-5", .send (sampleSend 2)),
    (sampleEnv 1023 "id-6",
      .markUnknown betaCandidate ⟨"submission-outcome-unknown", unknown_not_drained⟩)]

def overtakenState : State := execAll sampleCodec overtakenRun ⟨Registry.empty, []⟩

theorem reach_overtakenState : (systemUntil sampleCodec 1023).Reach overtakenState := by
  have hclock : ∀ l ∈ overtakenRun, l.1.now ≤ 1023 := by decide +kernel
  exact ⟨_, overtakenRun, rfl, run_restrict_execAll (by decide +kernel)
    (fun _ _ => List.not_mem_nil) (allMeet_of_forall (fun l hl _ => hclock l hl) _)⟩

/-- Both messages are live, neither generation was announced, and the attempt that is unknown is
not the one of the last generation. -/
theorem unknown_on_older_generation :
    (systemUntil sampleCodec 1023).Reach overtakenState ∧
      ∃ message ∈ overtakenState.registry.messages, liveUnread 1023 message ∧
        ∃ x, overtakenState.registry.notifications.lookup message.wakeKey = some x ∧
          x.notifiedGeneration = 0 ∧ x.generation = 2 ∧ x.state = .attemptUnknown ∧
          x.attemptedGeneration = 1 := by
  refine ⟨reach_overtakenState, ?_⟩
  have hfound : ∃ message ∈ overtakenState.registry.messages, liveUnread 1023 message ∧
      (overtakenState.registry.notifications.lookup message.wakeKey).any fun x =>
        x.notifiedGeneration = 0 && x.generation = 2 && x.state = .attemptUnknown &&
          x.attemptedGeneration = 1 := by decide +kernel
  obtain ⟨message, hm, hl, hany⟩ := hfound
  obtain ⟨x, hx, hp⟩ := (Option.any_eq_true _ _).mp hany
  simp only [Bool.and_eq_true, decide_eq_true_eq] at hp
  exact ⟨message, hm, hl, x, hx, hp.1.1.1, hp.1.1.2, hp.1.2, hp.2⟩

theorem wakeup_not_lost_overtaken :
    ∃ message ∈ overtakenState.registry.messages,
      ∃ x, overtakenState.registry.notifications.lookup message.wakeKey = some x ∧
        (x.notifiedGeneration = x.generation ∨ Unresolved x) ∧
        (u64Max ≤ x.generation ∨ x.lastReason ≠ some reasonDrained) := by
  have hlive : ∃ message ∈ overtakenState.registry.messages, liveUnread 1023 message := by
    decide +kernel
  obtain ⟨message, hm, hl⟩ := hlive
  obtain ⟨x, hx, hstate, hunparked, -⟩ := wakeup_not_lost reach_overtakenState hm hl
  exact ⟨message, hm, x, hx, hstate, hunparked⟩

end NilsCli.Coordination
