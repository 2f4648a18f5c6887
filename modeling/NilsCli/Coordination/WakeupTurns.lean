import NilsCli.Coordination.Wakeups

/-!
# The operations on wake-up receipts

Each operation of `notification.rs` turns a well-keyed table into a well-keyed one, see `Turns`:
no receipt is lost, no generation goes back, and only `transition_attempt_at` begins an attempt.
-/

namespace NilsCli.Coordination

open Lib

variable {candidate : NotificationCandidate} {reason : ControllerReason}

variable {codec : Codec} {env : Env} {r r' : Registry} {now : Int}
  {awake begun : NotificationKey → Prop}

theorem normalizeRegistry_turns (h : WellKeyed r.notifications) :
    Turns awake begun r.notifications (normalizeRegistry codec now r).notifications := by
  refine .mapForward h (fun k x hx => ?_) (lookup_normalizeRegistry h)
  have hn := @normalizes codec now r.messages x (h.regular k x hx)
  refine ⟨hn.forward (h.regular k x hx), fun hs => ?_⟩
  rcases hn.state with heq | ⟨-, heq⟩
  · exact .inr (heq ▸ hs)
  · rw [heq] at hs
    cases hs

/-- The receipt that `schedule` leaves for the recipient. -/
theorem schedule_spec {sessionId incarnation : String} (h : WellKeyed r.notifications)
    (hsession : sessionId ≠ "") (hincarnation : incarnation ≠ "") :
    Turns awake begun r.notifications (schedule codec r sessionId incarnation now).1.notifications ∧
      ∃ y, (schedule codec r sessionId incarnation now).1.notifications.lookup
        (.recipient sessionId incarnation) = some y ∧ Unparked y := by
  have hn := @normalizeRegistry_turns codec r now awake begun h
  unfold schedule
  dsimp only
  rw [AList.lookup_insert]
  cases hl : (normalizeRegistry codec now r).notifications.lookup
      (.recipient sessionId incarnation) with
  | none =>
    obtain ⟨hreg, hun, hkey⟩ := scheduleReceipt_forTarget now hsession hincarnation
    refine ⟨hn.trans (.insertNew hn.wellKeyed hl hkey.symm hreg fun hs => ?_), _, rfl, hun⟩
    rcases (schedules now (.forTarget sessionId incarnation)).state with ⟨heq, -⟩ | ⟨heq, -⟩
    · rw [Option.getD_none, heq] at hs
      cases hs
    · rw [Option.getD_none, heq] at hs
      cases hs
  | some x =>
    have hx := hn.wellKeyed.regular _ x hl
    have hs := schedules now x
    refine ⟨hn.trans (.insert hn.wellKeyed hl (hs.forward hx) fun ha => ?_), _, rfl, hs.unparked hx⟩
    rcases hs.state with ⟨heq, -⟩ | ⟨heq, -⟩
    · rw [Option.getD_some, heq] at ha
      cases ha
    · exact .inr (heq ▸ ha)

theorem Turns.unparked {t t' : Table NotificationKey NotificationReceipt}
    (h : Turns awake begun t t') {k : NotificationKey} (ha : awake k)
    (hx : ∃ x, t.lookup k = some x ∧ Unparked x) : ∃ y, t'.lookup k = some y ∧ Unparked y := by
  obtain ⟨x, hl, hu⟩ := hx
  obtain ⟨y, hy, -, hyu⟩ := h.persists k x hl
  exact ⟨y, hy, hyu ha hu⟩

/-! ## Parking -/

theorem resolve_turns {t' : Table NotificationKey NotificationReceipt}
    (h : WellKeyed r.notifications) {parks : NotificationKey → NotificationReceipt → Bool}
    (hp : ∀ k x, r.notifications.lookup k = some x → parks k x → ¬ awake k)
    (ht : ∀ k, t'.lookup k = (r.notifications.lookup k).map fun x =>
      if parks k x then resolve now x else x) : Turns awake begun r.notifications t' := by
  refine .mapVal h (fun k x hx => ?_) ht
  have hreg := h.regular k x hx
  split
  case isTrue hpark =>
    obtain ⟨htr, hreg', hstate⟩ := @resolve_regular now x hreg
    exact ⟨htr.advances, hreg', fun ha => absurd ha (hp k x hx hpark), fun hs => .inr (hstate ▸ hs)⟩
  case isFalse => exact ⟨.refl x, hreg, fun _ => id, .inr⟩

theorem resolveDrainedGeneration_turns {sessionId incarnation : String}
    (h : WellKeyed r.notifications) (hp : ¬ hasPendingContent r sessionId incarnation now →
      ¬ awake (.recipient sessionId incarnation)) :
    Turns awake begun r.notifications
      (resolveDrainedGeneration r sessionId incarnation now).notifications := by
  unfold resolveDrainedGeneration
  split
  case isTrue => exact .refl h
  case isFalse hpending =>
    refine @resolve_turns r now awake begun _ h
      (fun k _ => decide (k = .recipient sessionId incarnation)) (fun k x _ hk => ?_) fun k => ?_
    · rw [decide_eq_true_eq] at hk
      exact hk ▸ hp hpending
    · rw [Table.lookup_modify]
      split <;> simp_all

theorem resolveDrainedGenerations_turns (h : WellKeyed r.notifications)
    (hp : ∀ sessionId incarnation, (∀ message ∈ r.messages,
      message.addressedTo sessionId incarnation → ¬ liveUnread now message) →
      ¬ awake (.recipient sessionId incarnation)) :
    Turns awake begun r.notifications (resolveDrainedGenerations r now).notifications := by
  refine @resolve_turns r now awake begun _ h (fun _ x => !(quotaPending now x ||
      r.messages.any fun message => message.addressedTo x.targetSessionId x.targetIncarnation &&
        liveUnread now message)) (fun k x hx hpark => ?_) fun k => ?_
  · rw [h.key k x hx]
    refine hp _ _ fun message hm haddr hlive => ?_
    rw [Bool.not_eq_true', Bool.or_eq_false_iff, List.any_eq_false] at hpark
    exact hpark.2 message hm (by rw [haddr, hlive]; rfl)
  · unfold resolveDrainedGenerations
    rw [Table.lookup_mapVal]
    congr 1
    funext x
    cases (quotaPending now x || r.messages.any fun message =>
      message.addressedTo x.targetSessionId x.targetIncarnation && liveUnread now message) <;> rfl

/-! ## Attempts and their outcomes -/

/-- What a successful `transition_attempt_at` found. -/
theorem transitionAttemptAt_cases (r : Registry) (candidate : NotificationCandidate)
    (now attemptedAt : Int) :
    transitionAttemptAt codec r candidate now attemptedAt = (normalizeRegistry codec now r, none) ∨
      ∃ x begunCandidate,
        (normalizeRegistry codec now r).notifications.lookup candidate.key = some x ∧
        attemptAdmitted candidate now x ∧ begunCandidate.generation = x.generation ∧
        transitionAttemptAt codec r candidate now attemptedAt =
          ({ normalizeRegistry codec now r with
              notifications := (normalizeRegistry codec now r).notifications.insert candidate.key
                (beginAttempt codec candidate now attemptedAt x) }, some begunCandidate) := by
  unfold transitionAttemptAt
  dsimp only
  split
  case h_1 => exact .inl rfl
  case h_2 x hx =>
    split
    case isTrue h => exact .inr ⟨x, _, hx, h, rfl, rfl⟩
    case isFalse => exact .inl rfl

section

variable (h : WellKeyed r.notifications)

include h

theorem transitionAttemptAt_turns {candidate : NotificationCandidate} {attemptedAt : Int}

    (hb : (transitionAttemptAt codec r candidate now attemptedAt).2.isSome → begun candidate.key) :
    Turns awake begun r.notifications
      (transitionAttemptAt codec r candidate now attemptedAt).1.notifications := by
  have hn := @normalizeRegistry_turns codec r now awake begun h
  rcases transitionAttemptAt_cases r candidate now attemptedAt with heq | ⟨x, _, hx, -, -, heq⟩
  · rw [heq]
    exact hn
  · rw [heq] at hb ⊢
    exact hn.trans (.insert hn.wellKeyed hx
      (beginAttempt_forward attemptedAt (hn.wellKeyed.regular _ x hx)) fun _ => .inl (hb rfl))

/-- An outcome recorded on the matching attempt ends it. -/
theorem updateMatching_turns
    {f : NotificationReceipt → NotificationReceipt}
    (hf : ∀ x, Regular x → x.state = .attempting ∨ x.state = .attemptUnknown →
      x.attemptedGeneration = candidate.generation → Forward x (f x) ∧ (f x).state ≠ .attempting)
    (hr : updateMatching r candidate f = some r') :
    Turns awake begun r.notifications r'.notifications ∧ r'.messages = r.messages := by
  unfold updateMatching at hr
  obtain ⟨x, hx, rfl⟩ := Option.map_eq_some_iff.mp hr
  obtain ⟨hl, hs, hg⟩ := matchingAttempt_eq_some.mp hx
  obtain ⟨hforward, hstate⟩ := hf x (h.regular _ x hl) hs hg
  exact ⟨.insert h hl hforward fun ha => absurd ha hstate, rfl⟩

theorem transitionSubmitted_turns
 (hr : transitionSubmitted r candidate now = some r') :
    Turns awake begun r.notifications r'.notifications ∧ r'.messages = r.messages :=
  updateMatching_turns h (fun x hx _ hg =>
    ⟨submittedReceipt_forward hx hg, submittedReceipt_state candidate now x⟩) hr

theorem transitionKnownFailure_turns {retryAt : Int}
    (hr : transitionKnownFailure r candidate reason.text retryAt now = some r') :
    Turns awake begun r.notifications r'.notifications ∧ r'.messages = r.messages :=
  updateMatching_turns h (fun _ hx _ _ =>
    ⟨knownFailureReceipt_forward hx reason retryAt, fun hs => by cases hs⟩) hr

theorem transitionUnknown_turns
    (hr : transitionUnknown r candidate reason.text now = some r') :
    Turns awake begun r.notifications r'.notifications ∧ r'.messages = r.messages :=
  updateMatching_turns h (fun _ hx hs _ =>
    ⟨unknownReceipt_forward hx hs reason, fun hs => by cases hs⟩) hr

theorem transitionReconciledAbsent_turns
 (hr : transitionReconciledAbsent r candidate now = some r') :
    Turns awake begun r.notifications r'.notifications ∧ r'.messages = r.messages :=
  updateMatching_turns h (fun _ hx _ _ =>
    ⟨reconciledAbsentReceipt_forward hx, fun hs => by cases hs⟩) hr

theorem markUndeliverable_turns
    (hr : markUndeliverable codec r candidate reason.text now = some r') :
    Turns awake begun r.notifications r'.notifications ∧ r'.messages = r.messages := by
  unfold markUndeliverable transitionUndeliverable at hr
  dsimp only at hr
  split at hr
  case h_1 => cases hr
  case h_2 =>
    split at hr
    case isFalse => cases hr
    case isTrue =>
      obtain ⟨x, hx, rfl⟩ := Option.map_eq_some_iff.mp hr
      -- the registry is normalized twice
      have hn := @normalizeRegistry_turns codec r now awake begun h
      have hn' := hn.trans (@normalizeRegistry_turns codec _ now awake begun hn.wellKeyed)
      exact ⟨hn'.trans (.insert hn'.wellKeyed hx
        (undeliverableReceipt_forward (hn'.wellKeyed.regular _ x hx) reason)
        fun hs => by cases hs), rfl⟩

theorem deferWithDetail_turns
    {detail : Option String} {retryAfter : Int}
    (hr : deferWithDetail codec env r candidate reason.text detail retryAfter now = some r') :
    Turns awake begun r.notifications r'.notifications ∧ r'.messages = r.messages := by
  have hn := @normalizeRegistry_turns codec r now awake begun h
  unfold deferWithDetail at hr
  dsimp only at hr
  split at hr
  case h_1 => cases hr
  case h_2 x hx =>
    split_ifs at hr with hguard
    cases hr
    rw [not_or, not_not, not_not] at hguard
    exact ⟨hn.trans (.insert hn.wellKeyed hx (deferredReceipt_forward
      (hn.wellKeyed.regular _ x hx) hguard.2 reason _ retryAfter) fun hs => .inr hs), rfl⟩

end

/-- What a successful `claim_hook_reminder` found. -/
theorem claimHookReminder_cases (env : Env) (r : Registry) (sessionId incarnation : String)
    (now : Int) :
    claimHookReminder codec env r sessionId incarnation now = (r, none) ∨
      claimHookReminder codec env r sessionId incarnation now =
        (normalizeRegistry codec now r, none) ∨
      ∃ x prompt, (normalizeRegistry codec now r).notifications.lookup
          (.recipient sessionId incarnation) = some x ∧ hookClaimable now x ∧
        claimHookReminder codec env r sessionId incarnation now =
          ({ normalizeRegistry codec now r with
              notifications := (normalizeRegistry codec now r).notifications.insert
                (.recipient sessionId incarnation) (hookClaimed prompt now x) },
            some x.generation) := by
  unfold claimHookReminder
  split
  case isTrue => exact .inl rfl
  case isFalse =>
    dsimp only
    split
    case isTrue => exact .inr (.inl rfl)
    case isFalse =>
      split
      case h_1 => exact .inr (.inl rfl)
      case h_2 x hx =>
        split
        case isTrue h =>
          rw [Bool.and_eq_true] at h
          exact .inr (.inr ⟨x, _, hx, h.1, rfl⟩)
        case isFalse => exact .inr (.inl rfl)

theorem claimHookReminder_turns {sessionId incarnation : String} (h : WellKeyed r.notifications) :
    Turns awake begun r.notifications
        (claimHookReminder codec env r sessionId incarnation now).1.notifications ∧
      (claimHookReminder codec env r sessionId incarnation now).1.messages = r.messages := by
  have hn := @normalizeRegistry_turns codec r now awake begun h
  rcases @claimHookReminder_cases codec env r sessionId incarnation now with
    heq | heq | ⟨x, prompt, hx, -, heq⟩
  · rw [heq]
    exact ⟨.refl h, rfl⟩
  · rw [heq]
    exact ⟨hn, rfl⟩
  · rw [heq]
    exact ⟨hn.trans (.insert hn.wellKeyed hx
      (hookClaimed_forward prompt (hn.wellKeyed.regular _ x hx)) fun hs => by cases hs), rfl⟩

end NilsCli.Coordination
