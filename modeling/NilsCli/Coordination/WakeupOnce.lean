import NilsCli.Coordination.WorkSafety

/-!
# Each wake-up is delivered at most once

The wake-up system: any number of owners begin attempts and report their outcomes, late ones
included, and hooks claim reminders, in any order.
-/

namespace NilsCli.Coordination

open Lib

variable {k : NotificationKey}

structure Recipient where
  sessionId : String
  incarnation : String
  session_ne : sessionId ≠ ""
  incarnation_ne : incarnation ≠ ""

def Recipient.key (recipient : Recipient) : NotificationKey :=
  .recipient recipient.sessionId recipient.incarnation

/-- The operations on wake-up receipts. -/
inductive WakeupOp
  | schedule (recipient : Recipient)
  | attempt (owner : String) (candidate : NotificationCandidate) (attemptedAt : Int)
  | submitted (candidate : NotificationCandidate)
  | knownFailure (candidate : NotificationCandidate) (reason : ControllerReason) (retryAt : Int)
  | unknown (candidate : NotificationCandidate) (reason : ControllerReason)
  | reconciledAbsent (candidate : NotificationCandidate)
  | undeliverable (candidate : NotificationCandidate) (reason : ControllerReason)
  | deferral (candidate : NotificationCandidate) (reason : ControllerReason)
      (detail : Option String) (retryAfter : Int)
  | claimHook (sessionId incarnation : String)
  | resolve (sessionId incarnation : String)
  | resolveAll
  | normalize
  /-- Whatever happens to the mailbox meanwhile. -/
  | mail (messages : List StoredMessage)

variable (codec : Codec)

/-- The registry after an operation, and the receipt and generation that it delivers. -/
def WakeupOp.run (env : Env) (r : Registry) :
    WakeupOp → Registry × Option (NotificationKey × Nat)
  | .schedule recipient =>
    ((NilsCli.Coordination.schedule codec r recipient.sessionId recipient.incarnation env.now).1,
      none)
  | .attempt _ candidate attemptedAt =>
    let (r, begun) := transitionAttemptAt codec r candidate env.now attemptedAt
    (r, begun.map fun begun => (candidate.key, begun.generation))
  | .submitted candidate => ((transitionSubmitted r candidate env.now).getD r, none)
  | .knownFailure candidate reason retryAt =>
    ((transitionKnownFailure r candidate reason.text retryAt env.now).getD r, none)
  | .unknown candidate reason =>
    ((transitionUnknown r candidate reason.text env.now).getD r, none)
  | .reconciledAbsent candidate => ((transitionReconciledAbsent r candidate env.now).getD r, none)
  | .undeliverable candidate reason =>
    ((markUndeliverable codec r candidate reason.text env.now).getD r, none)
  | .deferral candidate reason detail retryAfter =>
    ((deferWithDetail codec env r candidate reason.text detail retryAfter env.now).getD r, none)
  | .claimHook sessionId incarnation =>
    let (r, claimed) := claimHookReminder codec env r sessionId incarnation env.now
    (r, claimed.map fun generation => (.recipient sessionId incarnation, generation))
  | .resolve sessionId incarnation =>
    (resolveDrainedGeneration r sessionId incarnation env.now, none)
  | .resolveAll => (resolveDrainedGenerations r env.now, none)
  | .normalize => (normalizeRegistry codec env.now r, none)
  | .mail messages => ({ r with messages := messages }, none)

def WakeupOp.owner? : WakeupOp → Option String
  | .attempt owner _ _ => some owner
  | _ => none

/-- The receipt under the key is attempting. -/
def attemptingAt (r : Registry) (k : NotificationKey) : Bool :=
  (r.notifications.lookup k).any fun receipt => receipt.state = .attempting

structure WakeupState where
  registry : Registry
  holders : NotificationKey → List String

variable {s : WakeupState}

def WakeupOp.joining (op : WakeupOp) (delivered : Option (NotificationKey × Nat))
    (k : NotificationKey) : List String :=
  if delivered.any fun target => target.1 = k then op.owner?.toList else []

/-- The state after an operation. -/
def WakeupState.next (s : WakeupState) (env : Env) (op : WakeupOp) : WakeupState where
  registry := (op.run codec env s.registry).1
  holders k :=
    if attemptingAt (op.run codec env s.registry).1 k then
      s.holders k ++ op.joining (op.run codec env s.registry).2 k
    else []

def wakeups : Lts where
  State := WakeupState
  Label := Env × WakeupOp
  init s := s.registry.notifications = ∅ ∧ s.holders = fun _ => []
  step l s t := t = s.next codec l.1 l.2

variable {codec} {env : Env} {r : Registry} {op : WakeupOp}

/-! ## One operation -/

/-- An operation begins an attempt at this key. -/
def WakeupOp.Begins (codec : Codec) (env : Env) (op : WakeupOp) (r : Registry)
    (k : NotificationKey) : Prop := op.owner?.isSome ∧ ∃ g, (op.run codec env r).2 = some (k, g)

theorem WakeupOp.turns (h : WellKeyed r.notifications) :
    Turns (fun _ => False) (op.Begins codec env r) r.notifications
      (op.run codec env r).1.notifications := by
  have hsome : ∀ {updated : Option Registry} {begun : NotificationKey → Prop},
      (∀ r', updated = some r' → Turns (fun _ => False) begun r.notifications r'.notifications ∧
        r'.messages = r.messages) →
      Turns (fun _ => False) begun r.notifications (updated.getD r).notifications := by
    intro updated begun hu
    cases updated with
    | none => exact .refl h
    | some r' => exact (hu r' rfl).1
  cases op with
  | schedule recipient => exact (schedule_spec h recipient.session_ne recipient.incarnation_ne).1
  | attempt owner candidate attemptedAt =>
    refine transitionAttemptAt_turns h fun hb => ⟨rfl, ?_⟩
    obtain ⟨begun, hbegun⟩ := Option.isSome_iff_exists.mp hb
    exact ⟨begun.generation, by simp [WakeupOp.run, hbegun]⟩
  | submitted => exact hsome fun _ hr => transitionSubmitted_turns h hr
  | knownFailure => exact hsome fun _ hr => transitionKnownFailure_turns h hr
  | unknown => exact hsome fun _ hr => transitionUnknown_turns h hr
  | reconciledAbsent => exact hsome fun _ hr => transitionReconciledAbsent_turns h hr
  | undeliverable => exact hsome fun _ hr => markUndeliverable_turns h hr
  | deferral => exact hsome fun _ hr => deferWithDetail_turns h hr
  | claimHook => exact (claimHookReminder_turns h).1
  | resolve => exact resolveDrainedGeneration_turns h fun _ => not_false
  | resolveAll => exact resolveDrainedGenerations_turns h fun _ _ _ => not_false
  | normalize => exact normalizeRegistry_turns h
  | mail => exact .refl h

theorem WakeupOp.delivers {g : Nat} (hd : (op.run codec env r).2 = some (k, g)) :
    ∃ x, (normalizeRegistry codec env.now r).notifications.lookup k = some x ∧
      x.generation = g ∧ x.notifiedGeneration < g ∧ (op.owner?.isSome → x.state = .queued) := by
  cases op with
  | attempt owner candidate attemptedAt =>
    rcases @transitionAttemptAt_cases codec r candidate env.now attemptedAt with
      heq | ⟨x, begun, hx, hadmitted, hg, heq⟩
    · simp [WakeupOp.run, heq] at hd
    · obtain ⟨hs, -, hlt, -⟩ := attemptAdmitted_iff.mp hadmitted
      simp only [WakeupOp.run, heq, Option.map_some, Option.some.injEq, Prod.mk.injEq] at hd
      obtain ⟨rfl, rfl⟩ := hd
      exact ⟨x, hx, hg.symm, hg ▸ hlt, fun _ => hs⟩
  | claimHook sessionId incarnation =>
    rcases @claimHookReminder_cases codec env r sessionId incarnation env.now with
      heq | heq | ⟨x, prompt, hx, hclaim, heq⟩
    · simp [WakeupOp.run, heq] at hd
    · simp [WakeupOp.run, heq] at hd
    · simp only [WakeupOp.run, heq, Option.map_some, Option.some.injEq, Prod.mk.injEq] at hd
      obtain ⟨rfl, rfl⟩ := hd
      simp only [hookClaimable, Bool.and_eq_true, decide_eq_true_eq] at hclaim
      exact ⟨x, hx, rfl, hclaim.1.2, fun ho => by cases ho⟩
  | schedule | submitted | knownFailure | unknown | reconciledAbsent | undeliverable | deferral
    | resolve | resolveAll | normalize | mail => cases hd

/-- An attempt begins only where none is in progress. -/
theorem WakeupOp.begins_free (h : WellKeyed r.notifications)
    (hb : op.Begins codec env r k) : attemptingAt r k = false := by
  obtain ⟨howner, g, hd⟩ := hb
  obtain ⟨y, hy, -, -, hs⟩ := WakeupOp.delivers hd
  rw [lookup_normalizeRegistry h, Option.map_eq_some_iff] at hy
  obtain ⟨x, hx, rfl⟩ := hy
  rw [attemptingAt, hx, Option.any_some, decide_eq_false_iff_not]
  rcases (@normalizes codec env.now r.messages x (h.regular k x hx)).state with heq | ⟨heq, -⟩
  · rw [← heq, hs howner]
    simp
  · rw [heq]
    simp

/-! ## The invariant -/

structure WakeupInvariant (s : WakeupState) : Prop where
  wellKeyed : WellKeyed s.registry.notifications
  holders : ∀ k, (s.holders k).length = if attemptingAt s.registry k then 1 else 0

theorem attemptingAt_iff : attemptingAt r k = true ↔
    ∃ x, r.notifications.lookup k = some x ∧ x.state = .attempting := by
  simp [attemptingAt, Option.any_eq_true]

theorem WakeupInvariant.next (h : WakeupInvariant s) (env : Env)
    (op : WakeupOp) : WakeupInvariant (s.next codec env op) where
  wellKeyed := (@WakeupOp.turns codec env s.registry op h.wellKeyed).wellKeyed
  holders k := by
    have hcount := h.holders k
    have hturns := @WakeupOp.turns codec env s.registry op h.wellKeyed
    unfold WakeupState.next
    dsimp only
    by_cases hatt : attemptingAt (op.run codec env s.registry).1 k = true
    · rw [if_pos hatt, if_pos hatt, List.length_append]
      by_cases hb : op.Begins codec env s.registry k
      · -- the new owner is alone
        rw [WakeupOp.begins_free h.wellKeyed hb, if_neg Bool.false_ne_true] at hcount
        obtain ⟨howner, g, hd⟩ := hb
        obtain ⟨owner, howner⟩ := Option.isSome_iff_exists.mp howner
        simp [WakeupOp.joining, hd, howner, hcount]
      · -- the attempt was in progress before
        obtain ⟨y, hy, hs⟩ := attemptingAt_iff.mp hatt
        have hbefore := (hturns.held k y hy hs).resolve_left hb
        rw [if_pos (attemptingAt_iff.mpr hbefore)] at hcount
        have hjoin : op.joining (op.run codec env s.registry).2 k = [] := by
          unfold WakeupOp.joining
          split
          case isFalse => rfl
          case isTrue hd =>
            obtain ⟨⟨k', g⟩, hdelivered, hk⟩ := (Option.any_eq_true _ _).mp hd
            obtain rfl : k' = k := of_decide_eq_true hk
            cases howner : op.owner? with
            | none => rfl
            | some owner => exact absurd ⟨by simp [howner], g, hdelivered⟩ hb
        rw [hjoin, hcount, List.length_nil]
    · rw [if_neg hatt, if_neg hatt, List.length_nil]

theorem wakeupInvariant_of_reach (h : (wakeups codec).Reach s) :
    WakeupInvariant s := by
  refine h.invariant ?_ ?_
  · rintro s ⟨hn, hh⟩
    exact ⟨hn ▸ .empty, fun k => by simp [hh, attemptingAt, hn]⟩
  · rintro ⟨env, op⟩ s t hs rfl
    exact hs.next env op

theorem receipts_advance {t : WakeupState} {ls : List (Env × WakeupOp)}
    (h : (wakeups codec).Reach s) (hr : (wakeups codec).Run ls s t)
    {x : NotificationReceipt} (hx : s.registry.notifications.lookup k = some x) :
    ∃ y, t.registry.notifications.lookup k = some y ∧ Advances x y := by
  have hall := @Lts.Run.relates (wakeups codec) WakeupInvariant
    (fun s t => ∀ k x, s.registry.notifications.lookup k = some x →
      ∃ y, t.registry.notifications.lookup k = some y ∧ Advances x y)
    (by rintro ⟨env, op⟩ s t hs rfl; exact hs.next env op)
    (fun s k x hx => ⟨x, hx, .refl x⟩)
    (fun s t u hst htu k x hx => by
      obtain ⟨y, hy, hxy⟩ := hst k x hx
      obtain ⟨z, hz, hyz⟩ := htu k y hy
      exact ⟨z, hz, hxy.trans hyz⟩)
    (by
      rintro ⟨env, op⟩ s t hs rfl k x hx
      obtain ⟨y, hy, hxy, -⟩ := (@WakeupOp.turns codec env _ op hs.wellKeyed).persists k x hx
      exact ⟨y, hy, hxy⟩)
    ls s t hr (wakeupInvariant_of_reach h)
  exact hall k x hx

/-! ## Result -/

/-- Between two states of any run: the announced and the attempted generation of a receipt are
bounded by its generation, the receipts of the earlier state are still there and neither their
generation nor the announced one decreased, no later operation delivers a generation that was
announced in the earlier state, and exactly the attempting receipts have an owner, one. -/
theorem wakeup_delivered_once {s t : WakeupState} {ls : List (Env × WakeupOp)}
    (h : (wakeups codec).Reach s) (hr : (wakeups codec).Run ls s t) :
    (∀ k y, t.registry.notifications.lookup k = some y →
      y.notifiedGeneration ≤ y.generation ∧ y.attemptedGeneration ≤ y.generation) ∧
    (∀ k x, s.registry.notifications.lookup k = some x →
      ∃ y, t.registry.notifications.lookup k = some y ∧ x.generation ≤ y.generation ∧
        x.notifiedGeneration ≤ y.notifiedGeneration) ∧
    (∀ k x, s.registry.notifications.lookup k = some x → ∀ (env : Env) (op : WakeupOp) (g : Nat),
      (op.run codec env t.registry).2 = some (k, g) → x.notifiedGeneration < g) ∧
    ∀ k, (t.holders k).length = if attemptingAt t.registry k then 1 else 0 := by
  have ht := wakeupInvariant_of_reach (h.run hr)
  refine ⟨fun k y hy => ?_, fun k x hx => ?_, fun k x hx env op g hd => ?_, ht.holders⟩
  · have hreg := ht.wellKeyed.regular k y hy
    exact ⟨hreg.notified, hreg.attempted⟩
  · obtain ⟨y, hy, hxy⟩ := receipts_advance h hr hx
    exact ⟨y, hy, hxy.generation, hxy.notified⟩
  · obtain ⟨y, hy, hxy⟩ := receipts_advance h hr hx
    obtain ⟨z, hz, -, hlt, -⟩ := WakeupOp.delivers hd
    rw [lookup_normalizeRegistry ht.wellKeyed, hy, Option.map_some] at hz
    cases hz
    have hn := (@normalizes codec env.now t.registry.messages y
      (ht.wellKeyed.regular k y hy)).notified
    rw [hn] at hlt
    exact lt_of_le_of_lt hxy.notified hlt

/-! A race of two owners for the first generation. -/

def raceRecipient : Recipient := ⟨"beta", "launch-1", beta_ne, by simp⟩

def raceCandidate : NotificationCandidate :=
  ⟨none, "beta", "launch-1", 1, 1000, 0, none⟩

def raceStart : WakeupState := ⟨Registry.empty, fun _ => []⟩

def race : List (Env × WakeupOp) :=
  [(sampleEnv 1000 "1", .schedule raceRecipient),
    (sampleEnv 1001 "2", .attempt "first" raceCandidate 1001000000000),
    (sampleEnv 1001 "3", .attempt "second" raceCandidate 1001000000000)]

def raceState : WakeupState := race.foldl (fun s l => s.next sampleCodec l.1 l.2) raceStart

theorem run_foldl (ls : List (Env × WakeupOp)) (s : WakeupState) :
    (wakeups codec).Run ls s (ls.foldl (fun s l => s.next codec l.1 l.2) s) := by
  induction ls generalizing s with
  | nil => exact @Lts.Run.nil (wakeups codec) s
  | cons l ls ih =>
    exact (@Lts.Run.single (wakeups codec) l s (s.next codec l.1 l.2) rfl).append (ih _)

theorem wakeup_delivered_once_race :
    raceState.holders raceRecipient.key = ["first"] ∧
      (∀ k y, raceState.registry.notifications.lookup k = some y →
        y.notifiedGeneration ≤ y.generation ∧ y.attemptedGeneration ≤ y.generation) ∧
      (raceState.holders raceRecipient.key).length = 1 := by
  have hall := wakeup_delivered_once
    (s := raceStart) (t := raceState) (Lts.Reach.init ⟨rfl, rfl⟩) (@run_foldl sampleCodec race raceStart)
  refine ⟨by decide +kernel, hall.1, ?_⟩
  rw [hall.2.2.2]
  decide +kernel

end NilsCli.Coordination
