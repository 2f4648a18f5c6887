import NilsCli.Lib.Guard
import NilsCli.Lib.Text
import NilsCli.Coordination.Registry

/-!
# Idempotency receipts (`mod.rs`, `receipt_retention.rs`)

A mutating request stores its outcome under its idempotency key.
-/

namespace NilsCli.Coordination

open Lib

def receiptTtlSecs : Int := 24 * 60 * 60

def maxReceiptsPerPrincipal : Nat := 4096

def maxReceiptsGlobal : Nat := 32768

def maxReceiptBytesPerPrincipal : Nat := 4 * 1024 * 1024

def quotaRecoveryHint : String :=
  "The recipient must read pending messages with agent-session message show, then acknowledge " ++
    "handled messages with agent-session message ack using the returned revision and an " ++
    "idempotency key; senders/operators cannot acknowledge on the recipient's behalf"

/-- A recipient's quota names the way out. -/
def quotaExceeded (message quota : String) (count limit : Nat) : CliError :=
  let message := if quota = "recipient-messages" ∨ quota = "recipient-bytes"
    then message ++ "; " ++ quotaRecoveryHint else message
  .dataErr "quota-exceeded"
    (message ++ " (" ++ quota ++ " " ++ toString count ++ "/" ++ toString limit ++ ")")

def validateIdempotencyKey (key : String) : Except CliError Unit :=
  ensure (8 ≤ key.utf8ByteSize ∧ key.utf8ByteSize ≤ 128 ∧ key.toList.all isAscii ∧
      ¬ key.toList.any fun c => isAsciiControl c || c = ' ')
    (.usageErr "invalid-idempotency-key"
      "idempotency key must be 8-128 printable non-space ASCII bytes")

def idempotencyKeyReused : CliError :=
  .dataErr "idempotency-key-reused" "idempotency key is already bound to another request"

/-- The stored outcome of a repeated request. -/
def idempotencyReplay (env : Env) (registry : Registry) (key : ReceiptKey)
    (digest : RequestDigest) : Except CliError (Option Outcome) := do
  validateIdempotencyKey key.key
  match registry.receipts.lookup key with
  | none => pure none
  | some receipt =>
    if receipt.expiresAtEpoch ≤ env.replayNow then pure none
    else if receipt.principal = key.principal ∧ receipt.incarnation = key.incarnation ∧
        receipt.operation = key.operation ∧ receipt.digest = digest then
      pure (some receipt.outcome)
    else .error idempotencyKeyReused

/-! ## Eviction -/

/-- The state of the message `id` in the map that collects the messages in order. -/
def messageState? (messages : List StoredMessage) (id : String) : Option MessageState :=
  (messages.reverse.find? fun message => message.messageId = id).map (·.state)

/-- An expired receipt, or one of a message that is terminal or no longer retained. -/
def finished (messages : List StoredMessage) (now : Int) (receipt : IdempotencyReceipt) : Bool :=
  receipt.expiresAtEpoch ≤ now ||
    match receipt.outcome.messageId? with
    | none => false
    | some id => (messageState? messages id).all (·.terminal)

/-- What the quotas count: all receipts, and the count and bytes of one principal. -/
structure ReceiptUsage where
  total : Nat
  count : Nat
  bytes : Nat

/-- A receipt of `candidateBytes` does not fit; only a new key counts against the counts. -/
def ReceiptUsage.exceeds (admitsNew : Bool) (candidateBytes : Nat) (usage : ReceiptUsage) : Bool :=
  (admitsNew &&
    (usage.count ≥ maxReceiptsPerPrincipal || usage.total ≥ maxReceiptsGlobal)) ||
    u64Add usage.bytes candidateBytes > maxReceiptBytesPerPrincipal

def ReceiptUsage.evict (usage : ReceiptUsage) (size : Nat) : ReceiptUsage :=
  ⟨usage.total - 1, usage.count - 1, usage.bytes - size⟩

def evictionPlan (exceeds : ReceiptUsage → Bool) :
    ReceiptUsage → List (ReceiptKey × Nat) → List ReceiptKey × ReceiptUsage
  | usage, [] => ([], usage)
  | usage, (key, size) :: rest =>
    if exceeds usage then
      let tail := evictionPlan exceeds (usage.evict size) rest
      (key :: tail.1, tail.2)
    else ([], usage)

variable (codec : Codec)

variable (registry : Registry) (principal : String) (receiptKey : ReceiptKey)

def principalReceipts : List (Sigma fun _ : ReceiptKey => IdempotencyReceipt) :=
  registry.receipts.entries.filter fun row => row.2.principal = principal && row.1 ≠ receiptKey

/-- `fold(0, u64::saturating_add)` of the sizes. -/
def receiptsBytes (rows : List (Sigma fun _ : ReceiptKey => IdempotencyReceipt)) : Nat :=
  rows.foldl (fun bytes row => u64Add bytes (codec.receiptBytes row.2)) 0

def evictable (now : Int) : List (Sigma fun _ : ReceiptKey => IdempotencyReceipt) :=
  sortBy (fun a b => a.2.expiresAtEpoch < b.2.expiresAtEpoch ||
      (a.2.expiresAtEpoch = b.2.expiresAtEpoch &&
        textLe (codec.receiptKeyText a.1) (codec.receiptKeyText b.1)))
    ((principalReceipts registry principal receiptKey).filter fun row =>
      finished registry.messages now row.2)

/-- `record.evicted` and `last_evicted_at_epoch` of `principal` after evicting `count`. -/
def recordEviction (evictions : Table String ReceiptEviction) (principal : String) (count : Nat)
    (now : Int) : Table String ReceiptEviction :=
  let evictions := Table.filter
    (fun _ record => decide (record.lastEvictedAtEpoch > i64Sub now receiptTtlSecs)) evictions
  let record := (evictions.lookup principal).getD ⟨0, 0⟩
  evictions.insert principal ⟨u64Add record.evicted count, now⟩

/-- `make_room`: the plan is applied only if it is enough to admit the candidate. -/
def makeRoom (candidateBytes : Nat) (now : Int) : Registry :=
  let admitsNew := (registry.receipts.lookup receiptKey).isNone
  let others := principalReceipts registry principal receiptKey
  let usage : ReceiptUsage :=
    ⟨Table.size registry.receipts, others.length, receiptsBytes codec others⟩
  let exceeds := ReceiptUsage.exceeds admitsNew candidateBytes
  if !exceeds usage then registry
  else
    let plan := evictionPlan exceeds usage
      ((evictable codec registry principal receiptKey now).map fun row =>
        (row.1, codec.receiptBytes row.2))
    if plan.1.isEmpty || exceeds plan.2 then registry
    else { registry with
      receipts := Table.filter (fun key _ => decide (key ∉ plan.1)) registry.receipts
      receiptEvictions := recordEviction registry.receiptEvictions principal plan.1.length now }

def storeReceipt (key : ReceiptKey) (digest : RequestDigest)
    (outcome : Outcome) (now : Int) : Except CliError Registry := do
  let candidate : IdempotencyReceipt :=
    { principal := key.principal
      incarnation := key.incarnation
      operation := key.operation
      digest := digest
      outcome := outcome
      expiresAtEpoch := i64Add now receiptTtlSecs }
  let registry := makeRoom codec registry key.principal key (codec.receiptBytes candidate) now
  let isNew := (registry.receipts.lookup key).isNone
  let total := Table.size registry.receipts
  ensure (¬ (isNew ∧ total ≥ maxReceiptsGlobal))
    (quotaExceeded "coordination idempotency receipt quota exceeded" "receipts" total
      maxReceiptsGlobal)
  let count := (registry.receipts.entries.filter fun row =>
    row.2.principal = key.principal).length
  ensure (¬ (isNew ∧ count ≥ maxReceiptsPerPrincipal))
    (quotaExceeded "coordination idempotency receipt quota exceeded" "principal-receipts" count
      maxReceiptsPerPrincipal)
  let retained := receiptsBytes codec (principalReceipts registry key.principal key)
  let bytes := u64Add retained (codec.receiptBytes candidate)
  ensure (bytes ≤ maxReceiptBytesPerPrincipal)
    (quotaExceeded "coordination idempotency receipt byte budget exceeded"
      "principal-receipt-bytes" bytes maxReceiptBytesPerPrincipal)
  pure { registry with receipts := registry.receipts.insert key candidate }

/-! ## What the receipt functions change -/

variable {codec}

theorem mem_of_mem_evictionPlan {exceeds : ReceiptUsage → Bool} {usage : ReceiptUsage}
    {rows : List (ReceiptKey × Nat)} {key : ReceiptKey}
    (h : key ∈ (evictionPlan exceeds usage rows).1) : ∃ size, (key, size) ∈ rows := by
  induction rows generalizing usage with
  | nil => cases h
  | cons row rows ih =>
    obtain ⟨key', size⟩ := row
    unfold evictionPlan at h
    split at h
    case isTrue =>
      rcases List.mem_cons.mp h with rfl | h
      · exact ⟨size, by simp⟩
      · obtain ⟨size', h'⟩ := ih h
        exact ⟨size', by simp [h']⟩
    case isFalse => cases h

theorem mem_evictable {registry : Registry} {principal : String} {receiptKey key : ReceiptKey}
    {receipt : IdempotencyReceipt} {now : Int}
    (h : (⟨key, receipt⟩ : Sigma fun _ : ReceiptKey => IdempotencyReceipt) ∈
      evictable codec registry principal receiptKey now) :
    registry.receipts.lookup key = some receipt ∧ receipt.principal = principal ∧
      key ≠ receiptKey ∧ finished registry.messages now receipt := by
  unfold evictable principalReceipts at h
  rw [mem_sortBy, List.mem_filter, List.mem_filter, Bool.and_eq_true, decide_eq_true_eq,
    decide_eq_true_eq] at h
  obtain ⟨⟨hmem, hprincipal, hne⟩, hfin⟩ := h
  exact ⟨Table.lookup_eq_some_iff.mpr hmem, hprincipal, hne, hfin⟩

def EvictedBy (now : Int) (key : ReceiptKey) : Prop :=
  ∃ receipt, registry.receipts.lookup key = some receipt ∧ receipt.principal = principal ∧
    key ≠ receiptKey ∧ finished registry.messages now receipt

theorem makeRoom_spec (registry : Registry) (principal : String) (receiptKey : ReceiptKey)
    (candidateBytes : Nat) (now : Int) :
    ∃ receipts evictions,
      makeRoom codec registry principal receiptKey candidateBytes now =
        { registry with receipts := receipts, receiptEvictions := evictions } ∧
      ∀ key, receipts.lookup key = registry.receipts.lookup key ∨
        (receipts.lookup key = none ∧ EvictedBy registry principal receiptKey now key) := by
  unfold makeRoom
  dsimp only
  split
  case isTrue => exact ⟨registry.receipts, registry.receiptEvictions, rfl, fun _ => .inl rfl⟩
  case isFalse =>
    split
    case isTrue => exact ⟨registry.receipts, registry.receiptEvictions, rfl, fun _ => .inl rfl⟩
    case isFalse =>
      refine ⟨_, _, rfl, fun key => ?_⟩
      rw [Table.lookup_filter]
      by_cases hmem : key ∈ (evictionPlan
          (ReceiptUsage.exceeds (registry.receipts.lookup receiptKey).isNone candidateBytes)
          ⟨Table.size registry.receipts, (principalReceipts registry principal receiptKey).length,
            receiptsBytes codec (principalReceipts registry principal receiptKey)⟩
          ((evictable codec registry principal receiptKey now).map fun row =>
            (row.1, codec.receiptBytes row.2))).1
      · right
        obtain ⟨size, hrow⟩ := mem_of_mem_evictionPlan hmem
        obtain ⟨⟨key', receipt⟩, hrow', heq⟩ := List.mem_map.mp hrow
        cases heq
        exact ⟨by simp [hmem], receipt, mem_evictable hrow'⟩
      · left
        cases h : registry.receipts.lookup key with
        | none => rfl
        | some receipt => simp [hmem]

theorem storeReceipt_spec {registry registry' : Registry} {key : ReceiptKey}
    {digest : RequestDigest} {outcome : Outcome} {now : Int}
    (h : storeReceipt codec registry key digest outcome now = .ok registry') :
    ∃ receipts evictions,
      registry' = { registry with receipts := receipts, receiptEvictions := evictions } ∧
      receipts.lookup key = some ⟨key.principal, key.incarnation, key.operation, digest, outcome,
        i64Add now receiptTtlSecs⟩ ∧
      ∀ key', key' ≠ key → receipts.lookup key' = registry.receipts.lookup key' ∨
        (receipts.lookup key' = none ∧ EvictedBy registry key.principal key now key') := by
  unfold storeReceipt at h
  obtain ⟨receipts, evictions, heq, hroom⟩ := @makeRoom_spec codec registry
    key.principal key (codec.receiptBytes ⟨key.principal, key.incarnation, key.operation, digest,
      outcome, i64Add now receiptTtlSecs⟩) now
  simp only [bind_eq_ok, ensure_eq_ok, exists_const, heq] at h
  obtain ⟨-, -, -, h⟩ := h
  cases h
  refine ⟨_, _, rfl, AList.lookup_insert _, fun key' hne => ?_⟩
  rw [AList.lookup_insert_ne hne]
  exact hroom key'

end NilsCli.Coordination
