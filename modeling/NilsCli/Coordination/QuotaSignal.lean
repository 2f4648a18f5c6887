import NilsCli.Coordination.History
import NilsCli.Coordination.WorkSafety

/-!
# What becomes of a quota signal

A refused message leaves a signal on the wake-up receipt of its recipient.
-/

namespace NilsCli.Coordination

open Lib

variable {env : Env} {r : Registry} {sessionId incarnation : String} {now : Int}

theorem hasQuotaPending_iff : hasQuotaPending r sessionId incarnation now ↔
    ∃ k x, r.notifications.lookup k = some x ∧ x.targetSessionId = sessionId ∧
      x.targetIncarnation = incarnation ∧ quotaPending now x := by
  unfold hasQuotaPending
  rw [List.any_eq_true]
  simp only [Table.mem_values_iff, Bool.and_eq_true, decide_eq_true_eq]
  constructor
  · rintro ⟨x, ⟨k, hl⟩, ⟨hs, hi⟩, hp⟩
    exact ⟨k, x, hl, hs, hi, hp⟩
  · rintro ⟨k, x, hl, hs, hi, hp⟩
    exact ⟨x, ⟨k, hl⟩, ⟨hs, hi⟩, hp⟩

structure SignalKept (now : Int) (r : Registry) (sessionId incarnation : String) : Prop where
  mail : ∃ m ∈ r.messages, m.addressedTo sessionId incarnation ∧
    Retained now r.messages m.messageId
  receipt : ∃ k x, r.notifications.lookup k = some x ∧ x.targetSessionId = sessionId ∧
    x.targetIncarnation = incarnation ∧ quotaPending now x ∧
    ∀ id, k = .message id → ¬ TimedOut now r.messages id

/-- The target of a receipt has mail after retention. -/
theorem targetRetained_maintainRetention {x : NotificationReceipt} :
    targetRetained (maintainRetention now r).messages x ↔
      ∃ m ∈ r.messages, m.addressedTo x.targetSessionId x.targetIncarnation ∧
        Retained now r.messages m.messageId := by
  have haddressed (m : StoredMessage) : (expireMessage now m).addressedTo x.targetSessionId
      x.targetIncarnation = m.addressedTo x.targetSessionId x.targetIncarnation := by
    unfold StoredMessage.addressedTo
    rw [(expireMessage_same now m).2.1, (expireMessage_same now m).2.2]
  unfold targetRetained
  rw [List.any_eq_true]
  constructor
  · rintro ⟨_, hm, ha⟩
    obtain ⟨m, hmem, rfl, hkept⟩ := mem_maintainRetention.mp hm
    exact ⟨m, hmem, haddressed m ▸ ha, hkept⟩
  · rintro ⟨m, hmem, ha, hkept⟩
    exact ⟨_, mem_maintainRetention.mpr ⟨m, hmem, rfl, hkept⟩, (haddressed m).trans ha⟩

theorem hasQuotaPending_maintainRetention :
    hasQuotaPending (maintainRetention now r) sessionId incarnation now ↔
      SignalKept now r sessionId incarnation := by
  rw [hasQuotaPending_iff]
  constructor
  · rintro ⟨k, x, hl, rfl, rfl, hp⟩
    obtain ⟨hl, hkey, ht⟩ := lookup_maintainRetention.mp hl
    exact ⟨targetRetained_maintainRetention.mp ht, k, x, hl, rfl, rfl, hp, hkey⟩
  · rintro ⟨hmail, k, x, hl, rfl, rfl, hp, hkey⟩
    exact ⟨k, x, lookup_maintainRetention.mpr
      ⟨hl, hkey, targetRetained_maintainRetention.mpr hmail⟩, rfl, rfl, hp⟩

/-- A pending quota signal survives retention exactly if some mail of its target does. -/
theorem quota_signal_survives_iff :
    (hasQuotaPending r sessionId incarnation now →
        hasQuotaPending (maintainRetention now r) sessionId incarnation now ∧
        hasQuotaPending (cleanExpired env now r) sessionId incarnation now) ↔
      (hasQuotaPending r sessionId incarnation now → SignalKept now r sessionId incarnation) := by
  have hclean : hasQuotaPending (cleanExpired env now r) sessionId incarnation now =
      hasQuotaPending (maintainRetention now r) sessionId incarnation now := rfl
  rw [hclean, and_self, hasQuotaPending_maintainRetention]

/-- A signal to a recipient without mail, as the next maintenance finds it. -/
theorem quota_signal_lost :
    let r := quotaRejected sampleCodec Registry.empty
      (.session ⟨"host", "alpha", "launch-1"⟩) ⟨"host", "beta", "launch-1"⟩ none 100
    hasQuotaPending r "beta" "launch-1" 101 = true ∧
      hasQuotaPending (maintainRetention 101 r) "beta" "launch-1" 101 = false ∧
      hasQuotaPending (cleanExpired (sampleEnv 101 "id-1") 101 r) "beta" "launch-1" 101 = false := by
  decide +kernel

end NilsCli.Coordination
