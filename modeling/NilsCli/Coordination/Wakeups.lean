import NilsCli.Coordination.System

/-!
# Receipts of this release

A receipt that this release wrote is `Regular`, and kept under the key of its recipient.
-/

namespace NilsCli.Coordination

open Lib

variable {receipts : List NotificationReceipt} {z : NotificationReceipt}

variable {x y : NotificationReceipt} {k : NotificationKey} {candidate : NotificationCandidate}

variable {codec : Codec} {r : Registry} {now : Int}

/-- A receipt as this release writes it. -/
structure Regular (x : NotificationReceipt) : Prop where
  session : x.targetSessionId ≠ ""
  incarnation : x.targetIncarnation ≠ ""
  generation : 0 < x.generation
  known : x.state.known
  notified : x.notifiedGeneration ≤ x.generation
  attempted : x.attemptedGeneration ≤ x.generation
  tried : x.state = .attempting ∨ x.state = .attemptUnknown → 0 < x.attemptedGeneration
  submitted : x.state = .promptSubmitted → x.notifiedGeneration = x.generation
  unparked : x.state = .attempting → x.lastReason ≠ some reasonDrained

structure WellKeyed (t : Table NotificationKey NotificationReceipt) : Prop where
  key : ∀ k x, t.lookup k = some x → k = x.key
  regular : ∀ k x, t.lookup k = some x → Regular x

theorem WellKeyed.empty : WellKeyed ∅ :=
  ⟨fun _ _ h => by simp at h, fun _ _ h => by simp at h⟩

/-! ## Normalization -/

def normalizedReceipt (codec : Codec) (messages : List StoredMessage) (now : Int)
    (x : NotificationReceipt) : NotificationReceipt :=
  refreshReceipt messages now
    { normalizeCurrent codec now x with
      messageId := .generation x.key (normalizeCurrent codec now x).generation }

theorem normalizeGroup_singleton (h : 0 < x.generation)
    (key : NotificationKey) (sessionId incarnation : String) :
    normalizeGroup codec now key sessionId incarnation [x] =
      { normalizeCurrent codec now x with
        messageId := .generation key (normalizeCurrent codec now x).generation } := by
  have hne : x.generation ≠ 0 := by omega
  simp [normalizeGroup, hne, mergeCurrent, sortBy]

theorem WellKeyed.group {t : Table NotificationKey NotificationReceipt} (h : WellKeyed t)
    (hx : t.lookup k = some x) :
    ((Table.values t).filter fun receipt => receipt.targetSessionId = x.targetSessionId &&
      receipt.targetIncarnation = x.targetIncarnation) = [x] := by
  unfold Table.values
  rw [List.filter_map]
  rw [Table.filter_entries_eq_singleton hx]
  · rfl
  · simp
  · intro row hrow hr
    have hk := h.key row.1 row.2 (Table.lookup_eq_some_iff.mpr hrow)
    simp only [Function.comp_apply, Bool.and_eq_true, decide_eq_true_eq] at hr
    rw [hk, h.key k x hx, NotificationReceipt.key, NotificationReceipt.key, hr.1, hr.2]

theorem mem_notificationTargets {target : String × String} :
    target ∈ notificationTargets receipts ↔ ∃ x ∈ receipts, x.targetSessionId ≠ "" ∧
      x.targetIncarnation ≠ "" ∧ (x.targetSessionId, x.targetIncarnation) = target := by
  simp [notificationTargets, and_assoc]

theorem lookup_groupReceipts
    :
    (groupReceipts codec now receipts).lookup k = some y ↔
      ∃ target ∈ notificationTargets receipts, k = .recipient target.1 target.2 ∧
        y = normalizeGroup codec now k target.1 target.2 (receipts.filter fun receipt =>
          receipt.targetSessionId = target.1 && receipt.targetIncarnation = target.2) := by
  rw [Table.lookup_eq_some_iff, groupReceipts, List.mem_map]
  constructor
  · rintro ⟨target, ht, heq⟩
    cases heq
    exact ⟨target, ht, rfl, rfl⟩
  · rintro ⟨target, ht, rfl, rfl⟩
    exact ⟨target, ht, rfl⟩

theorem lookup_normalizeRegistry (h : WellKeyed r.notifications) (k : NotificationKey) :
    (normalizeRegistry codec now r).notifications.lookup k =
      (r.notifications.lookup k).map (normalizedReceipt codec r.messages now) := by
  have hgroup : (groupReceipts codec now (Table.values r.notifications)).lookup k =
      (r.notifications.lookup k).map fun x =>
        { normalizeCurrent codec now x with
          messageId := .generation x.key (normalizeCurrent codec now x).generation } := by
    ext y
    rw [lookup_groupReceipts, Option.map_eq_some_iff]
    constructor
    · rintro ⟨target, ht, rfl, rfl⟩
      obtain ⟨x, hx, -, -, rfl⟩ := mem_notificationTargets.mp ht
      obtain ⟨k, hk⟩ := Table.mem_values_iff.mp hx
      have hk' : r.notifications.lookup x.key = some x := h.key k x hk ▸ hk
      refine ⟨x, hk', ?_⟩
      rw [h.group hk, normalizeGroup_singleton (h.regular k x hk).generation]
      rfl
    · rintro ⟨x, hx, rfl⟩
      have hreg := h.regular k x hx
      refine ⟨(x.targetSessionId, x.targetIncarnation), mem_notificationTargets.mpr
        ⟨x, Table.mem_values_iff.mpr ⟨k, hx⟩, hreg.session, hreg.incarnation, rfl⟩,
        h.key k x hx, ?_⟩
      rw [h.group hx, normalizeGroup_singleton hreg.generation, h.key k x hx]
  unfold normalizeRegistry
  rw [Table.lookup_mapVal, hgroup, Option.map_map]
  rfl

/-- What normalization keeps of a regular receipt. -/
structure Normalizes (x y : NotificationReceipt) : Prop where
  session : y.targetSessionId = x.targetSessionId
  incarnation : y.targetIncarnation = x.targetIncarnation
  generation : y.generation = x.generation
  notified : y.notifiedGeneration = x.notifiedGeneration
  attempted : y.attemptedGeneration = x.attemptedGeneration
  state : y.state = x.state ∨ (x.state = .attemptUnknown ∧ y.state = .queued)
  reason : y.lastReason = some reasonDrained → x.lastReason = some reasonDrained
  quota : y.quota = x.quota

theorem Normalizes.trans (h : Normalizes x y) (h' : Normalizes y z) :
    Normalizes x z where
  session := h'.session.trans h.session
  incarnation := h'.incarnation.trans h.incarnation
  generation := h'.generation.trans h.generation
  notified := h'.notified.trans h.notified
  attempted := h'.attempted.trans h.attempted
  state := by
    rcases h'.state with hz | ⟨hy, hz⟩
    · rw [hz]
      exact h.state
    · rcases h.state with hx | ⟨hx, -⟩
      · exact .inr ⟨hx ▸ hy, hz⟩
      · exact .inr ⟨hx, hz⟩
  reason hr := h.reason (h'.reason hr)
  quota := h'.quota.trans h.quota

theorem safeReason_eq_drained {reason : String} (h : safeReason reason = reasonDrained) :
    reason = reasonDrained := by
  unfold safeReason at h
  split at h
  · exact h
  · exact absurd h (by decide)

theorem normalizeCurrent_regular (h : Regular x) :
    normalizeCurrent codec now x =
      { x with
        prompt := x.prompt.filter codec.isMailboxReminderPrompt
        attemptedAt := x.attemptedAt.filter fun time => time / 1000000000 = x.attemptedAtEpoch
        updatedAtEpoch := if x.updatedAtEpoch = 0 then now else x.updatedAtEpoch
        lastReason := x.lastReason.map safeReason
        attemptHistory := (normalizeCurrent codec now x).attemptHistory } := by
  have hmin : min x.notifiedGeneration x.generation = x.notifiedGeneration := min_eq_left h.notified
  have hvalid : ¬ (x.state = .attempting ∧
      (x.attemptedGeneration = 0 ∨ x.attemptedGeneration > x.generation)) := by
    rintro ⟨hs, hz | hlt⟩
    · exact absurd (h.tried (.inl hs)) (by omega)
    · exact absurd h.attempted (by omega)
  simp only [normalizeCurrent, h.known, hmin, if_true, hvalid, if_false]

theorem resumeNewGeneration_cases (now : Int) (x : NotificationReceipt) :
    (resumeNewGeneration now x = x ∧ ¬ (x.state = .attemptUnknown ∧ x.attemptedGeneration > 0 ∧
      x.generation > x.attemptedGeneration ∧ x.generation > x.notifiedGeneration)) ∨
    (x.state = .attemptUnknown ∧ resumeNewGeneration now x =
      { x with
        state := .queued
        nextAttemptAtEpoch := now
        updatedAtEpoch := now
        lastReason := some reasonPending }) := by
  unfold resumeNewGeneration
  split
  case isTrue h => exact .inr ⟨h.1, rfl⟩
  case isFalse h => exact .inl ⟨rfl, h⟩

theorem pending_ne_drained : some reasonPending ≠ some reasonDrained := by decide

theorem normalizes_resumeNewGeneration (now : Int) (x : NotificationReceipt) :
    Normalizes x (resumeNewGeneration now x) := by
  rcases resumeNewGeneration_cases now x with ⟨heq, -⟩ | ⟨hstate, heq⟩
  · rw [heq]
    exact ⟨rfl, rfl, rfl, rfl, rfl, .inl rfl, id, rfl⟩
  · rw [heq]
    exact ⟨rfl, rfl, rfl, rfl, rfl, .inr ⟨hstate, rfl⟩, fun hr => absurd hr pending_ne_drained, rfl⟩

theorem refreshReceipt_eq (messages : List StoredMessage) (now : Int) (x : NotificationReceipt) :
    ∃ queued, refreshReceipt messages now x =
      { resumeNewGeneration now x with queuedAtEpoch := queued } := by
  unfold refreshReceipt
  dsimp only
  split
  · exact ⟨_, rfl⟩
  · split
    · exact ⟨_, rfl⟩
    · exact ⟨_, rfl⟩

theorem normalizes_refreshReceipt (messages : List StoredMessage) (now : Int)
    (x : NotificationReceipt) : Normalizes x (refreshReceipt messages now x) := by
  obtain ⟨queued, heq⟩ := refreshReceipt_eq messages now x
  have hn := normalizes_resumeNewGeneration now x
  rw [heq]
  exact { hn with }

theorem normalizes {messages : List StoredMessage} {x : NotificationReceipt} (h : Regular x) :
    Normalizes x (normalizedReceipt codec messages now x) := by
  refine Normalizes.trans ?_ (normalizes_refreshReceipt _ _ _)
  rw [normalizeCurrent_regular h]
  refine ⟨rfl, rfl, rfl, rfl, rfl, .inl rfl, fun hr => ?_, rfl⟩
  obtain ⟨reason, hreason, hsafe⟩ := Option.map_eq_some_iff.mp hr
  rw [hreason, safeReason_eq_drained hsafe]

theorem normalizedReceipt_unknown {messages : List StoredMessage}
    (h : Regular x) (hs : (normalizedReceipt codec messages now x).state = .attemptUnknown) :
    x.attemptedGeneration = x.generation ∨ x.notifiedGeneration = x.generation := by
  unfold normalizedReceipt at hs
  rw [normalizeCurrent_regular h] at hs
  obtain ⟨queued, heq⟩ := refreshReceipt_eq messages now _
  rw [heq] at hs
  unfold resumeNewGeneration at hs
  dsimp only at hs
  split at hs
  · cases hs
  · rename_i hno
    have htried := h.tried (.inr hs)
    have hnotified := h.notified
    have hattempted := h.attempted
    by_contra hcon
    rw [not_or] at hcon
    exact hno ⟨hs, htried, by omega, by omega⟩

/-- A normalized regular receipt is regular. -/
theorem Normalizes.regular (h : Normalizes x y) (hx : Regular x) :
    Regular y where
  session := h.session ▸ hx.session
  incarnation := h.incarnation ▸ hx.incarnation
  generation := h.generation ▸ hx.generation
  known := by
    rcases h.state with hs | ⟨-, hs⟩
    · exact hs ▸ hx.known
    · rw [hs]; rfl
  notified := by rw [h.notified, h.generation]; exact hx.notified
  attempted := by rw [h.attempted, h.generation]; exact hx.attempted
  tried hs := by
    rw [h.attempted]
    rcases h.state with heq | ⟨-, heq⟩
    · exact hx.tried (heq ▸ hs)
    · rw [heq] at hs
      simp at hs
  submitted hs := by
    rcases h.state with heq | ⟨-, heq⟩
    · rw [h.notified, h.generation]
      exact hx.submitted (heq ▸ hs)
    · rw [heq] at hs
      cases hs
  unparked hs hr := by
    rcases h.state with heq | ⟨-, heq⟩
    · exact hx.unparked (heq ▸ hs) (h.reason hr)
    · rw [heq] at hs
      cases hs

/-! ## Transitions of a receipt -/

structure Advances (x y : NotificationReceipt) : Prop where
  session : y.targetSessionId = x.targetSessionId
  incarnation : y.targetIncarnation = x.targetIncarnation
  generation : x.generation ≤ y.generation
  notified : x.notifiedGeneration ≤ y.notifiedGeneration

theorem Advances.refl (x : NotificationReceipt) : Advances x x := ⟨rfl, rfl, le_refl _, le_refl _⟩

theorem Advances.trans (h : Advances x y) (h' : Advances y z) :
    Advances x z :=
  ⟨h'.session.trans h.session, h'.incarnation.trans h.incarnation,
    h.generation.trans h'.generation, h.notified.trans h'.notified⟩

theorem Advances.key (h : Advances x y) : y.key = x.key := by
  rw [NotificationReceipt.key, NotificationReceipt.key, h.session, h.incarnation]

theorem Normalizes.advances (h : Normalizes x y) : Advances x y :=
  ⟨h.session, h.incarnation, h.generation.ge, h.notified.ge⟩

/-- A wake-up of the receipt is not parked. -/
def Unparked (x : NotificationReceipt) : Prop :=
  u64Max ≤ x.generation ∨ x.lastReason ≠ some reasonDrained

structure Forward (x y : NotificationReceipt) : Prop extends Advances x y where
  regular : Regular y
  unparked : Unparked x → Unparked y

theorem Normalizes.forward {x y : NotificationReceipt} (h : Normalizes x y) (hx : Regular x) :
    Forward x y where
  toAdvances := h.advances
  regular := h.regular hx
  unparked hu := by
    rcases hu with hmax | hreason
    · exact .inl (h.generation ▸ hmax)
    · exact .inr fun hr => hreason (h.reason hr)

/-- What a transition other than a submission makes of a receipt: the generations stay. -/
structure Transits (x y : NotificationReceipt) : Prop where
  session : y.targetSessionId = x.targetSessionId
  incarnation : y.targetIncarnation = x.targetIncarnation
  generation : y.generation = x.generation
  notified : y.notifiedGeneration = x.notifiedGeneration

theorem Transits.advances (h : Transits x y) : Advances x y :=
  ⟨h.session, h.incarnation, h.generation.ge, h.notified.ge⟩

theorem Transits.forward {x y : NotificationReceipt} (h : Transits x y) (hx : Regular x)
    (hattempted : y.attemptedGeneration = x.attemptedGeneration)
    (hstate : y.state = .queued ∨ y.state = .undeliverable ∨
      y.state = .attemptUnknown ∧ (x.state = .attempting ∨ x.state = .attemptUnknown))
    (hreason : y.lastReason ≠ some reasonDrained) : Forward x y where
  toAdvances := h.advances
  unparked _ := .inr hreason
  regular :=
    { session := h.session ▸ hx.session
      incarnation := h.incarnation ▸ hx.incarnation
      generation := h.generation ▸ hx.generation
      known := by rcases hstate with hs | hs | ⟨hs, -⟩ <;> rw [hs] <;> rfl
      notified := by rw [h.notified, h.generation]; exact hx.notified
      attempted := by rw [hattempted, h.generation]; exact hx.attempted
      tried := fun hs => by
        rw [hattempted]
        rcases hstate with heq | heq | ⟨-, hx'⟩
        · simp [heq] at hs
        · simp [heq] at hs
        · exact hx.tried hx'
      submitted := fun hs => by
        rcases hstate with heq | heq | ⟨heq, -⟩ <;> rw [heq] at hs <;> cases hs
      unparked := fun _ => hreason }

theorem Transits.same (h : Transits x y) (hx : Regular x)
    (hattempted : y.attemptedGeneration = x.attemptedGeneration) (hstate : y.state = x.state)
    (hreason : y.lastReason = x.lastReason) : Forward x y where
  toAdvances := h.advances
  unparked := by
    unfold Unparked
    rw [h.generation, hreason]
    exact id
  regular :=
    { session := h.session ▸ hx.session
      incarnation := h.incarnation ▸ hx.incarnation
      generation := h.generation ▸ hx.generation
      known := hstate ▸ hx.known
      notified := by rw [h.notified, h.generation]; exact hx.notified
      attempted := by rw [hattempted, h.generation]; exact hx.attempted
      tried := fun hs => by rw [hattempted]; exact hx.tried (hstate ▸ hs)
      submitted := fun hs => by rw [h.notified, h.generation]; exact hx.submitted (hstate ▸ hs)
      unparked := fun hs => by rw [hreason]; exact hx.unparked (hstate ▸ hs) }

/-! ## Scheduling -/

structure Schedules (x y : NotificationReceipt) : Prop where
  session : y.targetSessionId = x.targetSessionId
  incarnation : y.targetIncarnation = x.targetIncarnation
  generation : y.generation = u64Succ x.generation
  notified : y.notifiedGeneration = x.notifiedGeneration
  attempted : y.attemptedGeneration = x.attemptedGeneration
  state : (y.state = .queued ∧ y.lastReason = some reasonPending) ∨
    (y.state = x.state ∧ y.lastReason = x.lastReason ∧ (x.state = .attempting ∨
      x.state = .attemptUnknown ∧ (x.attemptedGeneration = 0 ∨
        u64Succ x.generation ≤ max x.attemptedGeneration x.notifiedGeneration)))

theorem schedules (now : Int) (x : NotificationReceipt) : Schedules x (scheduleReceipt now x) := by
  unfold scheduleReceipt resumeNewGeneration
  dsimp only
  by_cases hresume : x.state = .attemptUnknown ∧ x.attemptedGeneration > 0 ∧
      u64Succ x.generation > x.attemptedGeneration ∧
      u64Succ x.generation > x.notifiedGeneration
  · rw [if_pos hresume, if_neg (by simp)]
    exact ⟨rfl, rfl, rfl, rfl, rfl, .inl ⟨rfl, rfl⟩⟩
  · rw [if_neg hresume]
    by_cases hkeep : x.state = .attempting ∨ x.state = .attemptUnknown
    · rw [if_pos hkeep]
      refine ⟨rfl, rfl, rfl, rfl, rfl, .inr ⟨rfl, rfl, hkeep.imp_right fun hs => ⟨hs, ?_⟩⟩⟩
      by_contra hcon
      rw [not_or, not_le] at hcon
      exact hresume ⟨hs, by omega, by omega, by omega⟩
    · rw [if_neg hkeep]
      exact ⟨rfl, rfl, rfl, rfl, rfl, .inl ⟨rfl, rfl⟩⟩

theorem Schedules.advances (h : Schedules x y) : Advances x y :=
  ⟨h.session, h.incarnation, h.generation ▸ le_u64Succ _, h.notified.ge⟩

theorem Schedules.regular (h : Schedules x y) (hx : Regular x) :
    Regular y where
  session := h.session ▸ hx.session
  incarnation := h.incarnation ▸ hx.incarnation
  generation := lt_of_lt_of_le hx.generation h.advances.generation
  known := by
    rcases h.state with ⟨hs, -⟩ | ⟨hs, -⟩ <;> rw [hs]
    · rfl
    · exact hx.known
  notified := h.notified.trans_le (hx.notified.trans h.advances.generation)
  attempted := h.attempted.trans_le (hx.attempted.trans h.advances.generation)
  tried hs := by
    rw [h.attempted]
    rcases h.state with ⟨heq, -⟩ | ⟨heq, -⟩
    · simp [heq] at hs
    · exact hx.tried (heq ▸ hs)
  submitted hs := by
    rcases h.state with ⟨heq, -⟩ | ⟨heq, -, hx' | ⟨hx', -⟩⟩
    · rw [heq] at hs; cases hs
    · rw [heq, hx'] at hs; cases hs
    · rw [heq, hx'] at hs; cases hs
  unparked hs := by
    rcases h.state with ⟨heq, -⟩ | ⟨heq, hreason, -⟩
    · rw [heq] at hs; cases hs
    · rw [hreason]
      exact hx.unparked (heq ▸ hs)

theorem Schedules.unparked (h : Schedules x y) (hx : Regular x) :
    Unparked y := by
  rcases h.state with ⟨-, hreason⟩ | ⟨-, hreason, hs | ⟨hs, hg⟩⟩
  · exact .inr (hreason ▸ pending_ne_drained)
  · exact .inr (hreason ▸ hx.unparked hs)
  · -- only a counter at its bound is not ahead of the attempted and the announced generation
    left
    have htried := hx.tried (.inr hs)
    have hnotified := hx.notified
    have hattempted := hx.attempted
    have hmax : ¬ x.generation < u64Succ x.generation := by omega
    rw [lt_u64Succ_iff, not_lt] at hmax
    exact hmax.trans h.advances.generation

theorem Schedules.forward {x y : NotificationReceipt} (h : Schedules x y) (hx : Regular x) :
    Forward x y :=
  { h.advances with
    regular := h.regular hx
    unparked := fun _ => h.unparked hx }

theorem scheduleReceipt_forTarget (now : Int) {sessionId incarnation : String}
    (hsession : sessionId ≠ "") (hincarnation : incarnation ≠ "") :
    Regular (scheduleReceipt now (.forTarget sessionId incarnation)) ∧
      Unparked (scheduleReceipt now (.forTarget sessionId incarnation)) ∧
      (scheduleReceipt now (.forTarget sessionId incarnation)).key =
        .recipient sessionId incarnation := by
  have h := schedules now (.forTarget sessionId incarnation)
  have hgen : 0 < u64Succ 0 := by decide
  rcases h.state with ⟨hs, hreason⟩ | ⟨-, -, hs | ⟨hs, -⟩⟩
  · refine ⟨?_, .inr (hreason ▸ pending_ne_drained), by
      rw [NotificationReceipt.key, h.session, h.incarnation]; rfl⟩
    exact
      { session := h.session ▸ hsession
        incarnation := h.incarnation ▸ hincarnation
        generation := h.generation ▸ hgen
        known := hs ▸ rfl
        notified := h.notified.trans_le (Nat.zero_le _)
        attempted := h.attempted.trans_le (Nat.zero_le _)
        tried := fun ht => by simp [hs] at ht
        submitted := fun ht => by rw [hs] at ht; cases ht
        unparked := fun ht => by rw [hs] at ht; cases ht }
  · cases hs
  · cases hs

/-! ## Attempts and their outcomes -/

theorem attemptAdmitted_iff :
    attemptAdmitted candidate now x ↔ x.state = .queued ∧ x.generation = candidate.generation ∧
      x.notifiedGeneration < x.generation ∧ x.nextAttemptAtEpoch ≤ now ∧ due now x := by
  simp [attemptAdmitted, and_assoc]

theorem beginAttempt_forward (attemptedAt : Int) (hx : Regular x) :
    Forward x (beginAttempt codec candidate now attemptedAt x) where
  toAdvances := ⟨rfl, rfl, le_refl _, le_refl _⟩
  unparked _ := .inr (show some reasonAttempting ≠ some reasonDrained by decide)
  regular :=
    { session := hx.session
      incarnation := hx.incarnation
      generation := hx.generation
      known := rfl
      notified := hx.notified
      attempted := le_refl _
      tried := fun _ => hx.generation
      submitted := fun hs => by cases hs
      unparked := fun _ => show some reasonAttempting ≠ some reasonDrained by decide }

theorem matchingAttempt_eq_some {r : Registry}
    : matchingAttempt r candidate = some x ↔
      r.notifications.lookup candidate.key = some x ∧
        (x.state = .attempting ∨ x.state = .attemptUnknown) ∧
        x.attemptedGeneration = candidate.generation := by
  simp [matchingAttempt, Option.filter_eq_some_iff]

theorem submittedReceipt_forward
    (hx : Regular x) (hattempt : x.attemptedGeneration = candidate.generation) :
    Forward x (submittedReceipt candidate now x) := by
  have hle : candidate.generation ≤ x.generation := hattempt ▸ hx.attempted
  have hmax : max x.notifiedGeneration candidate.generation ≤ x.generation := max_le hx.notified hle
  have hreason : (submittedReceipt candidate now x).lastReason ≠ some reasonDrained := by
    unfold submittedReceipt NotificationReceipt.recordAttempt
    dsimp only
    split <;> decide
  refine { toAdvances := ⟨rfl, rfl, le_refl _, le_max_left _ _⟩
           unparked := fun _ => .inr hreason
           regular := ⟨hx.session, hx.incarnation, hx.generation, ?_, hmax, hx.attempted, ?_, ?_,
             fun _ => hreason⟩ }
  · unfold submittedReceipt NotificationReceipt.recordAttempt
    dsimp only
    split <;> rfl
  · unfold submittedReceipt NotificationReceipt.recordAttempt
    dsimp only
    split <;> simp
  · -- submitted for good: no newer generation is scheduled
    unfold submittedReceipt NotificationReceipt.recordAttempt
    dsimp only
    split
    case isTrue => simp
    case isFalse hnew =>
      rw [decide_eq_true_eq, not_lt] at hnew
      intro _
      omega

theorem submittedReceipt_state (candidate : NotificationCandidate) (now : Int)
    (x : NotificationReceipt) : (submittedReceipt candidate now x).state ≠ .attempting := by
  unfold submittedReceipt NotificationReceipt.recordAttempt
  dsimp only
  split <;> simp

theorem ControllerReason.safe_ne (reason : ControllerReason) :
    some (safeReason reason.text) ≠ some reasonDrained := fun h =>
  reason.not_drained (safeReason_eq_drained (Option.some.inj h))

theorem knownFailureReceipt_forward (hx : Regular x) (reason : ControllerReason) (retryAt : Int) :
    Forward x (knownFailureReceipt candidate reason.text retryAt now x) :=
  Transits.forward ⟨rfl, rfl, rfl, rfl⟩ hx rfl (.inl rfl) reason.safe_ne

theorem unknownReceipt_forward
    (hx : Regular x) (hs : x.state = .attempting ∨ x.state = .attemptUnknown)
    (reason : ControllerReason) : Forward x (unknownReceipt candidate reason.text now x) :=
  Transits.forward ⟨rfl, rfl, rfl, rfl⟩ hx rfl (.inr (.inr ⟨rfl, hs⟩)) reason.safe_ne

theorem reconciledAbsentReceipt_forward (hx : Regular x) :
    Forward x (reconciledAbsentReceipt now x) :=
  Transits.forward ⟨rfl, rfl, rfl, rfl⟩ hx rfl (.inl rfl) pending_ne_drained

theorem undeliverableReceipt_forward (hx : Regular x)
    (reason : ControllerReason) : Forward x (undeliverableReceipt reason.text now x) :=
  Transits.forward ⟨rfl, rfl, rfl, rfl⟩ hx rfl (.inr (.inl rfl)) reason.safe_ne

theorem deferredReceipt_forward
    (hx : Regular x) (hs : x.state = .queued) (reason : ControllerReason) (detail : Option String)
    (retryAfter : Int) :
    Forward x (deferredReceipt candidate reason.text detail retryAfter now x) :=
  Transits.forward ⟨rfl, rfl, rfl, rfl⟩ hx rfl (.inl hs) reason.safe_ne

theorem hookClaimed_forward (prompt : String) (hx : Regular x) :
    Forward x (hookClaimed prompt now x) where
  toAdvances := ⟨rfl, rfl, le_refl _, hx.notified⟩
  unparked _ := .inr (show some "prompt-accepted" ≠ some reasonDrained by decide)
  regular :=
    { session := hx.session
      incarnation := hx.incarnation
      generation := hx.generation
      known := rfl
      notified := le_refl _
      attempted := le_refl _
      tried := fun _ => hx.generation
      submitted := fun _ => rfl
      unparked := fun hs => by cases hs }

theorem resolve_regular {x : NotificationReceipt} (hx : Regular x) :
    Transits x (resolve now x) ∧ Regular (resolve now x) ∧ (resolve now x).state = x.state := by
  unfold resolve
  split
  case isTrue => exact ⟨⟨rfl, rfl, rfl, rfl⟩, hx, rfl⟩
  case isFalse h =>
    rw [not_or] at h
    exact ⟨⟨rfl, rfl, rfl, rfl⟩, { hx with unparked := fun hs => absurd hs h.1 }, rfl⟩

/-! ## Changes of the table -/

structure Turns (awake begun : NotificationKey → Prop)
    (t t' : Table NotificationKey NotificationReceipt) : Prop where
  wellKeyed : WellKeyed t'
  persists : ∀ k x, t.lookup k = some x →
    ∃ y, t'.lookup k = some y ∧ Advances x y ∧ (awake k → Unparked x → Unparked y)
  held : ∀ k y, t'.lookup k = some y → y.state = .attempting →
    begun k ∨ ∃ x, t.lookup k = some x ∧ x.state = .attempting

namespace Turns

variable {awake begun : NotificationKey → Prop}
  {t t' t'' : Table NotificationKey NotificationReceipt}

theorem refl (h : WellKeyed t) : Turns awake begun t t :=
  ⟨h, fun _ x hx => ⟨x, hx, .refl x, fun _ => id⟩, fun _ y hy hs => .inr ⟨y, hy, hs⟩⟩

theorem trans (h : Turns awake begun t t') (h' : Turns awake begun t' t'') :
    Turns awake begun t t'' where
  wellKeyed := h'.wellKeyed
  persists k x hx := by
    obtain ⟨y, hy, hxy, huy⟩ := h.persists k x hx
    obtain ⟨z, hz, hyz, huz⟩ := h'.persists k y hy
    exact ⟨z, hz, hxy.trans hyz, fun ha hu => huz ha (huy ha hu)⟩
  held k z hz hs := by
    rcases h'.held k z hz hs with hb | ⟨y, hy, hsy⟩
    · exact .inl hb
    · exact h.held k y hy hsy

/-- Every receipt changed, under its own key. -/
theorem mapVal {f : NotificationKey → NotificationReceipt → NotificationReceipt}
    (h : WellKeyed t) (hf : ∀ k x, t.lookup k = some x → Advances x (f k x) ∧ Regular (f k x) ∧
      (awake k → Unparked x → Unparked (f k x)) ∧
      ((f k x).state = .attempting → begun k ∨ x.state = .attempting))
    (ht : ∀ k, t'.lookup k = (t.lookup k).map (f k)) : Turns awake begun t t' where
  wellKeyed := by
    constructor
    · intro k y hy
      rw [ht, Option.map_eq_some_iff] at hy
      obtain ⟨x, hx, rfl⟩ := hy
      rw [(hf k x hx).1.key]
      exact h.key k x hx
    · intro k y hy
      rw [ht, Option.map_eq_some_iff] at hy
      obtain ⟨x, hx, rfl⟩ := hy
      exact (hf k x hx).2.1
  persists k x hx := by
    refine ⟨f k x, ?_, (hf k x hx).1, (hf k x hx).2.2.1⟩
    rw [ht, hx, Option.map_some]
  held k y hy hs := by
    rw [ht, Option.map_eq_some_iff] at hy
    obtain ⟨x, hx, rfl⟩ := hy
    exact ((hf k x hx).2.2.2 hs).imp_right fun hsx => ⟨x, hx, hsx⟩

theorem mapForward {f : NotificationKey → NotificationReceipt → NotificationReceipt}
    (h : WellKeyed t) (hf : ∀ k x, t.lookup k = some x → Forward x (f k x) ∧
      ((f k x).state = .attempting → begun k ∨ x.state = .attempting))
    (ht : ∀ k, t'.lookup k = (t.lookup k).map (f k)) : Turns awake begun t t' :=
  mapVal h (fun k x hx =>
    ⟨(hf k x hx).1.toAdvances, (hf k x hx).1.regular, fun _ => (hf k x hx).1.unparked,
      (hf k x hx).2⟩) ht

theorem modify {f : NotificationReceipt → NotificationReceipt}
    (h : WellKeyed t) (hf : ∀ x, t.lookup k = some x → Forward x (f x) ∧
      ((f x).state = .attempting → begun k ∨ x.state = .attempting)) :
    Turns awake begun t (Table.modify k f t) := by
  refine @mapForward awake begun t _ (fun k' x => if k' = k then f x else x) h
    (fun k' x hx => ?_) (fun k' => ?_)
  · split
    case isTrue heq =>
      subst heq
      exact hf x hx
    case isFalse =>
      exact ⟨Transits.same ⟨rfl, rfl, rfl, rfl⟩ (h.regular k' x hx) rfl rfl rfl, .inr⟩
  · rw [Table.lookup_modify]
    split <;> simp

theorem insert (h : WellKeyed t) (hx : t.lookup k = some x) (hf : Forward x y)
    (hs : y.state = .attempting → begun k ∨ x.state = .attempting) :
    Turns awake begun t (t.insert k y) := by
  refine @mapForward awake begun t _ (fun k' x' => if k' = k then y else x') h
    (fun k' x' hx' => ?_) (fun k' => ?_)
  · split
    case isTrue heq =>
      subst heq
      cases hx.symm.trans hx'
      exact ⟨hf, hs⟩
    case isFalse =>
      exact ⟨Transits.same ⟨rfl, rfl, rfl, rfl⟩ (h.regular k' x' hx') rfl rfl rfl, .inr⟩
  · by_cases heq : k' = k
    · subst heq
      rw [AList.lookup_insert, hx, Option.map_some, if_pos rfl]
    · rw [AList.lookup_insert_ne heq]
      simp [heq]

theorem insertNew (h : WellKeyed t)
    (hnone : t.lookup k = none) (hkey : k = y.key) (hy : Regular y) (hs : y.state ≠ .attempting) :
    Turns awake begun t (t.insert k y) where
  wellKeyed := by
    constructor
    · intro k' z hz
      by_cases heq : k' = k
      · subst heq
        rw [AList.lookup_insert] at hz
        cases hz
        exact hkey
      · rw [AList.lookup_insert_ne heq] at hz
        exact h.key k' z hz
    · intro k' z hz
      by_cases heq : k' = k
      · subst heq
        rw [AList.lookup_insert] at hz
        cases hz
        exact hy
      · rw [AList.lookup_insert_ne heq] at hz
        exact h.regular k' z hz
  persists k' x hx := by
    have hne : k' ≠ k := by
      rintro rfl
      cases hnone.symm.trans hx
    exact ⟨x, by rwa [AList.lookup_insert_ne hne], .refl x, fun _ => id⟩
  held k' z hz hsz := by
    by_cases heq : k' = k
    · subst heq
      rw [AList.lookup_insert] at hz
      cases hz
      exact absurd hsz hs
    · rw [AList.lookup_insert_ne heq] at hz
      exact .inr ⟨z, hz, hsz⟩

end Turns

end NilsCli.Coordination
