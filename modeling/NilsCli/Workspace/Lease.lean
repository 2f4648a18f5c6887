import NilsCli.Lib.Guard
import NilsCli.Lib.ListUpdate
import NilsCli.Lib.Saturating
import NilsCli.Lib.Text
import NilsCli.Lib.Value

/-!
# Workspace leases (`workspace_lease.rs`)

One state file for each workspace: who is bound to it, and the operations that its current binding
was granted.
-/

namespace NilsCli.Workspace

open Lib

def stateSchema : String := "agent-hook.workspace-lease.state.v1"

def stateMaxBytes : Nat := 512 * 1024

def maxTextBytes : Nat := 512

def maxOperations : Nat := 256

def maxTombstones : Nat := 64

def leaseTtlSeconds : Nat := 30

def renewAfterMs : Value := .number "10000"

/-! ## Protocol generations -/

inductive ProtocolGeneration
  | v1
  | v2
  deriving DecidableEq

variable (protocol : ProtocolGeneration) (value : String)

namespace ProtocolGeneration

def wireVersion : ProtocolGeneration → Nat
  | v1 => 1
  | v2 => 2

/-- The schema of a result. -/
def resultSchema (operation : String) : ProtocolGeneration → String
  | v1 => "agent-hook.workspace-lease." ++ operation ++ "-result.v1"
  | v2 => "agent-hook.workspace-lease." ++ operation ++ "-result.v2"

def bindResultSchema : String := protocol.resultSchema "bind"

def beginResultSchema : String := protocol.resultSchema "begin"

def completeResultSchema : String := protocol.resultSchema "complete"

def renewResultSchema : String := protocol.resultSchema "renew"

def releaseResultSchema : String := protocol.resultSchema "release"

def admitsBindTarget : Bool := protocol = v2

def requiresManagedBindTarget : Bool := protocol = v2

def suppressesReadOnlyFence : Bool := protocol = v1

def projectsBoundTarget : Bool := protocol = v2

end ProtocolGeneration

/-! ## Errors -/

structure HookError where
  code : String
  message : String
  nextAction : Option String
  exitCode : Nat
  deriving DecidableEq

def HookError.data (code message : String) : HookError := ⟨code, message, none, 65⟩

def workspaceUnavailable (code message nextAction : String) : HookError :=
  ⟨code, message, some nextAction, 69⟩

def wireInvalid : HookError :=
  .data "workspace-wire-invalid" "workspace lease request does not match the strict protocol"

def identityUnavailable : HookError :=
  workspaceUnavailable "workspace-identity-unavailable" "workspace identity could not be resolved"
    "restore the exact workspace and retry the exact request once"

def stateInvalid : HookError :=
  .data "workspace-lease-state-invalid" "workspace lease state invariants are invalid"

def staleBinding : HookError :=
  .data "workspace-binding-stale" "workspace binding generation no longer owns this workspace"

def targetInvalid : HookError :=
  .data "workspace-target-invalid"
    "workspace lease target does not authenticate to a canonical repository"

def targetCallMismatch : HookError :=
  .data "workspace-target-call-mismatch"
    "workspace lease target is not bound to this operation's call facts"

def idempotencyReused : HookError :=
  .data "workspace-idempotency-key-reused"
    "workspace request id is already bound to different facts"

def clockUnavailable : HookError :=
  workspaceUnavailable "workspace-clock-unavailable" "workspace lease clock is unavailable"
    "restore the system clock and retry the exact request once"

def cwdInvalid (message : String) : HookError := .data "workspace-cwd-invalid" message

/-! ## State -/

inductive BindingMode
  | owned
  | unmanaged
  deriving DecidableEq

def BindingMode.asStr : BindingMode → String
  | owned => "owned"
  | unmanaged => "unmanaged"

inductive BindingStatus
  | active
  | released
  | recovered
  deriving DecidableEq

inductive OperationStatus
  | active
  | succeeded
  | failed
  | cancelled
  deriving DecidableEq

inductive OperationOutcome
  | succeeded
  | failed
  | cancelled

def OperationOutcome.status : OperationOutcome → OperationStatus
  | succeeded => .succeeded
  | failed => .failed
  | cancelled => .cancelled

def OperationOutcome.asStr : OperationOutcome → String
  | succeeded => "succeeded"
  | failed => "failed"
  | cancelled => "cancelled"

inductive SessionStartSource
  | startup
  | resume
  | clear
  | compact
  deriving DecidableEq

def SessionStartSource.asStr : SessionStartSource → String
  | startup => "startup"
  | resume => "resume"
  | clear => "clear"
  | compact => "compact"

structure ManagedIdentity where
  root : String
  rootDev : Nat
  rootIno : Nat
  gitDir : String
  gitDev : Nat
  gitIno : Nat
  commonDir : String
  commonDev : Nat
  commonIno : Nat
  deriving DecidableEq

inductive WorkspaceIdentity
  | managed (identity : ManagedIdentity)
  | unmanaged (root : Option String)
  deriving DecidableEq

structure Binding where
  bindingId : String
  generation : String
  sessionDigest : String
  parentSessionDigest : Option String
  mode : BindingMode
  status : BindingStatus
  bindRequestDigest : String
  bindRequestIdDigest : String
  refreshedAtEpoch : Nat
  expiresAtEpoch : Nat
  deriving DecidableEq

structure OperationRecord where
  operationId : String
  fence : String
  requestIdDigest : String
  requestDigest : String
  executionDigest : String
  completionExecutionDigest : String
  status : OperationStatus
  startedAtEpoch : Nat
  completedAtEpoch : Option Nat
  completionDigest : Option String
  deriving DecidableEq

structure BindingTombstone where
  bindingId : String
  generation : String
  sessionDigest : String
  workspaceId : String
  deriving DecidableEq

structure State where
  schemaVersion : String
  workspaceKey : String
  workspaceId : String
  identity : WorkspaceIdentity
  binding : Binding
  operations : List OperationRecord
  tombstones : List BindingTombstone
  deriving DecidableEq

/-- An operation without a terminal outcome. -/
def OperationRecord.isActive (operation : OperationRecord) : Bool := operation.status = .active

def State.busy (state : State) : Bool := state.operations.any (·.isActive)

/-! ## Requests -/

structure TargetRef where
  workspaceKey : String
  root : String

/-- The fields that every request has. -/
structure Common where
  version : Nat
  requestId : String
  sessionId : String
  parentSessionId : Option String

structure BindRequest extends Common where
  cwd : Option String
  target : Option TargetRef
  takeoverCapability : Bool
  takeoverConflict : Option String
  source : SessionStartSource

/-- The binding that a request is made under. -/
structure BindingRef where
  bindingId : String
  workspaceId : String
  generation : String

structure BeginRequest extends Common, BindingRef where
  bindingState : BindingMode
  callId : String
  rootCallId : String
  toolName : String
  arguments : Value
  nested : Bool
  anchorCwd : Option String
  target : Option TargetRef
  targetToken : Option String

structure CompleteRequest extends Common, BindingRef where
  operationId : String
  fence : String
  callId : String
  rootCallId : String
  toolName : String
  outcome : OperationOutcome
  errorCode : Option String

structure RenewRequest extends Common, BindingRef

structure ReleaseRequest extends Common, BindingRef

structure Host where
  /-- `digest`. -/
  digest : String → String
  /-- `digest_value`. -/
  digestValue : String → Value → String
  /-- `keyed_value` under the host's fingerprint key. -/
  keyedValue : String → Value → String
  /-- The equality of `Path`, by components. -/
  samePath : String → String → Bool
  /-- The length of `to_vec_pretty`. -/
  stateBytes : State → Nat

structure Env where
  /-- `now_epoch`, if the clock is readable. -/
  now : Option Nat
  /-- The identity of the directory a bind names. -/
  resolved : Except HookError WorkspaceIdentity
  /-- The identity at the root of the bound workspace. -/
  observed : Except HookError ManagedIdentity
  /-- Whether the checkout has uncommitted changes. -/
  dirty : Except HookError Bool
  /-- The branch and the commit of the checkout. -/
  head : Except HookError (String × String)
  workspaceNonce : String
  bindingNonce : String
  generationNonce : String
  operationNonce : String
  fenceNonce : String

def Env.nowEpoch (env : Env) : Except HookError Nat :=
  match env.now with
  | some now => .ok now
  | none => .error clockUnavailable

/-! ## Identifiers -/

def isLowerHex : Bool :=
  value.toList.all fun c => isAsciiHexDigit c && !isAsciiUpper c

def isHexDigest : Bool := value.utf8ByteSize = 64 && isLowerHex value

def bindingKey (bindingId : String) : Except HookError String :=
  match splitAt bindingId '.' with
  | [pre, key, nonce] =>
    if pre = "wlb1" && isHexDigest key && nonce.utf8ByteSize = 32 && isLowerHex nonce then .ok key
    else .error wireInvalid
  | _ => .error wireInvalid

def validBindingId (key : String) : Bool :=
  match bindingKey value with
  | .ok observed => observed = key
  | .error _ => false

def validOpaque (pre : String) : Bool :=
  match stripPrefix? value (pre ++ ".") with
  | some rest => (String.ofList rest).utf8ByteSize = 32 && isLowerHex (.ofList rest)
  | none => false

/-- `opaque`. -/
def opaqueId (pre nonce : String) : String := pre ++ "." ++ nonce

def absoluteStatePath : Bool :=
  value ≠ "" && decide (value.utf8ByteSize ≤ 16 * 1024) &&
    !value.toList.any (fun c => c.toNat = 0) && startsWith value '/'

/-- `validate_text`. -/
def validText : Bool :=
  value ≠ "" && decide (value.utf8ByteSize ≤ maxTextBytes) && !value.toList.any isControl

def unsupportedVersion : HookError :=
  .data "workspace-protocol-unsupported" "workspace lease protocol version is unsupported"

def validateCommon (request : Common) : Except HookError Unit := do
  ensure (request.version = protocol.wireVersion) unsupportedVersion
  ensure (validText request.requestId) wireInvalid
  ensure (validText request.sessionId) wireInvalid
  ensure (request.parentSessionId.all fun parent => validText parent && parent ≠ request.sessionId)
    wireInvalid

/-! ## The state file -/

section
variable (host : Host)

def optionalText : Option String → Value
  | some text => .string text
  | none => .null

def identityValue : WorkspaceIdentity → Value
  | .managed identity => .object [("kind", .string "managed"), ("identity", .object
      [("root", .string identity.root), ("root_dev", .number (toString identity.rootDev)),
        ("root_ino", .number (toString identity.rootIno)), ("git_dir", .string identity.gitDir),
        ("git_dev", .number (toString identity.gitDev)),
        ("git_ino", .number (toString identity.gitIno)), ("common_dir", .string identity.commonDir),
        ("common_dev", .number (toString identity.commonDev)),
        ("common_ino", .number (toString identity.commonIno))])]
  | .unmanaged root => .object [("kind", .string "unmanaged"), ("root", optionalText root)]

/-- The key of a workspace. -/
def workspaceKeyOf (identity : WorkspaceIdentity) (sessionDigest : String) : String :=
  match identity with
  | .managed _ => host.keyedValue "workspace-key" (identityValue identity)
  | .unmanaged root => host.keyedValue "workspace-unmanaged-key"
      (.object [("session", .string sessionDigest), ("root", optionalText root)])

def absoluteIdentity : WorkspaceIdentity → Bool
  | .managed identity =>
    absoluteStatePath identity.root && absoluteStatePath identity.gitDir &&
      absoluteStatePath identity.commonDir
  | .unmanaged root => root.all absoluteStatePath

/-- The checks of one operation record. -/
def validOperation (operation : OperationRecord) : Bool :=
  validOpaque operation.operationId "wlo1" && validOpaque operation.fence "wlf1" &&
    isHexDigest operation.requestIdDigest && isHexDigest operation.requestDigest &&
    isHexDigest operation.executionDigest && isHexDigest operation.completionExecutionDigest &&
    operation.completionDigest.all isHexDigest &&
    if operation.isActive then
      operation.completedAtEpoch.isNone && operation.completionDigest.isNone
    else operation.completedAtEpoch.isSome && operation.completionDigest.isSome

def validBinding (key : String) (binding : Binding) : Bool :=
  validBindingId binding.bindingId key && validOpaque binding.generation "wlg1" &&
    isHexDigest binding.sessionDigest && binding.parentSessionDigest.all isHexDigest &&
    isHexDigest binding.bindRequestDigest && isHexDigest binding.bindRequestIdDigest &&
    decide (binding.refreshedAtEpoch ≤ binding.expiresAtEpoch)

def validateLoadedState (key : String) (state : State) : Except HookError Unit :=
  ensure (state.schemaVersion = stateSchema && state.workspaceKey = key &&
    state.workspaceKey = workspaceKeyOf host state.identity state.binding.sessionDigest &&
    isHexDigest state.workspaceKey && validOpaque state.workspaceId "wlw1" &&
    validBinding key state.binding && decide (state.operations.length ≤ maxOperations) &&
    decide (state.tombstones.length ≤ maxTombstones) && absoluteIdentity state.identity &&
    decide (state.operations.map (·.operationId)).Nodup &&
    decide (state.operations.map (·.fence)).Nodup && state.operations.all validOperation)
    stateInvalid

def capacityExhausted : HookError :=
  workspaceUnavailable "workspace-lease-capacity-exhausted"
    "workspace lease state exceeded its conservative capacity"
    "complete or release prior lifecycle state before retrying"

def writeState (key : String) (state : State) : Except HookError State := do
  validateLoadedState host key state
  ensure (decide (host.stateBytes state ≤ stateMaxBytes)) capacityExhausted
  return state

def readState (key : String) (file : Option State) : Except HookError (Option State) :=
  match file with
  | none => .ok none
  | some state => (validateLoadedState host key state).map fun _ => some state

def readRequiredState (key : String) (file : Option State) : Except HookError State := do
  match ← readState host key file with
  | some state => return state
  | none => .error staleBinding

end

/-! ## Answers -/

/-- What a request is answered. -/
structure Outcome where
  data : Value
  text : String

/-- The member `kind` of an answer. -/
def Outcome.kind (outcome : Outcome) : Option String := (outcome.data.get "kind").bind (·.asStr)

/-- An answer, and the state that was written. -/
abbrev Reply := Except HookError (Outcome × Option State)

def denied (schema state code reason : String) : Outcome where
  data := .object [("schema_version", .string schema), ("kind", .string "denied"),
    ("state", .string state), ("code", .string code), ("reason", .string reason)]
  text := "workspace lease denied: " ++ code ++ "\n"

def ack (schema kind text : String) : Outcome where
  data := .object [("schema_version", .string schema), ("kind", .string kind)]
  text := "workspace lease: " ++ text ++ "\n"

def granted (protocol : ProtocolGeneration) (operation : OperationRecord) : Outcome where
  data := .object [("schema_version", .string protocol.beginResultSchema),
    ("kind", .string "granted"), ("operation_id", .string operation.operationId),
    ("fence", .string operation.fence)]
  text := "workspace lease: operation granted\n"

def boundTarget (protocol : ProtocolGeneration) (state : State) : List (String × Value) :=
  match protocol.projectsBoundTarget, state.identity with
  | true, .managed identity => [("target", .object [("workspace_key", .string state.workspaceKey),
      ("root", .string identity.root)])]
  | _, _ => []

def bound (protocol : ProtocolGeneration) (state : State) : Outcome where
  data := .object ([("schema_version", .string protocol.bindResultSchema), ("kind", .string "bound"),
    ("binding_id", .string state.binding.bindingId), ("workspace_id", .string state.workspaceId),
    ("generation", .string state.binding.generation),
    ("state", .string state.binding.mode.asStr), ("renew_after_ms", renewAfterMs)] ++
      boundTarget protocol state)
  text := "workspace lease: " ++ state.binding.mode.asStr ++ "\n"

def lostFromDenial (protocol : ProtocolGeneration) (outcome : Outcome) : Outcome where
  data := (outcome.data.insert "schema_version" (.string protocol.renewResultSchema)).insert "kind"
    (.string "lost")
  text := "workspace lease lost\n"

def uncertain (schema reason : String) : Outcome :=
  denied schema "uncertain" "WORKSPACE_OPERATION_UNCERTAIN" reason

/-! ## Checks of the binding -/

section
variable (host : Host)

variable (protocol : ProtocolGeneration) (env : Env) (request : BindRequest)

def exactBinding (state : State) (request : Common) (binding : BindingRef) : Bool :=
  state.binding.bindingId = binding.bindingId && state.binding.generation = binding.generation &&
    binding.workspaceId = state.workspaceId &&
    state.binding.sessionDigest = host.digest request.sessionId &&
    state.binding.parentSessionDigest = request.parentSessionId.map host.digest

def bindingDenial (state : State) (request : Common) (binding : BindingRef) : Option Outcome :=
  if exactBinding host state request binding && state.binding.status = .active then none
  else some (
    if state.binding.status = .active then
      denied protocol.beginResultSchema "foreign-active" "WORKSPACE_BINDING_STALE"
        "workspace binding generation no longer owns this workspace"
    else denied protocol.beginResultSchema "stale-clean" "WORKSPACE_BINDING_RELEASED"
      "workspace binding generation was released and must be rebound")

def requireBinding (state : State) (request : Common) (binding : BindingRef) :
    Except HookError Unit :=
  ensure (state.binding.status = .active && exactBinding host state request binding) staleBinding

def managedIdentity : WorkspaceIdentity → Except HookError ManagedIdentity
  | .managed identity => .ok identity
  | .unmanaged _ => .error identityUnavailable

def identityChanged : HookError :=
  workspaceUnavailable "workspace-identity-changed"
    "workspace physical identity changed after binding"
    "release the stale binding and bind the exact current workspace"

def revalidateManagedIdentity (state : State) : Except HookError Unit :=
  match state.identity with
  | .unmanaged _ => .ok ()
  | .managed identity => do
    let observed ← env.observed
    ensure (observed = identity) identityChanged

def dirty (env : Env) (identity : WorkspaceIdentity) : Except HookError Bool := do
  let _ ← managedIdentity identity
  env.dirty

def expiredDenial (state : State) : Except HookError Outcome :=
  let staleClean := denied protocol.beginResultSchema "stale-clean" "WORKSPACE_LEASE_EXPIRED"
    "workspace lease generation expired and must be rebound"
  if state.busy then .ok (uncertain protocol.beginResultSchema
    "workspace lease expired with an operation lacking a terminal outcome")
  else if state.binding.mode = .owned then do
    if ← dirty env state.identity then
      return denied protocol.beginResultSchema "dirty" "WORKSPACE_DIRTY"
        "workspace lease expired while the workspace remained dirty"
    else return staleClean
  else .ok staleClean

/-! ## `bind` -/

/-- `takeover_conflict`. -/
def takeoverConflictOf (state : State) : Except HookError String :=
  match state.identity with
  | .unmanaged _ => .error stateInvalid
  | .managed _ =>
    match env.head with
    | .error _ => .error stateInvalid
    | .ok (branch, commit) => .ok (host.digestValue "workspace-takeover-conflict" (.object
      [("workspace_key", .string state.workspaceKey),
        ("binding_id", .string state.binding.bindingId),
        ("generation", .string state.binding.generation), ("branch", .string branch),
        ("head", .string commit)]))

/-- The checks of a bind request alone. -/
def validateBind : Except HookError Unit := do
  validateCommon protocol request.toCommon
  ensure (!(request.target.isSome && (!protocol.admitsBindTarget || request.cwd.isSome))) wireInvalid
  ensure (!(request.takeoverCapability && protocol ≠ .v2)) wireInvalid
  ensure (!(request.takeoverConflict.isSome && (protocol ≠ .v2 || request.target.isNone ||
    !request.takeoverCapability || !request.takeoverConflict.all isHexDigest))) wireInvalid

/-- The identity that a bind request is about. -/
def resolveBind : Except HookError WorkspaceIdentity :=
  match request.target, request.cwd with
  -- `resolve_target_identity`
  | some target, _ => do
    ensure (isHexDigest target.workspaceKey && startsWith target.root '/') targetInvalid
    let identity ← managedIdentity (← env.resolved)
    ensure (host.samePath identity.root target.root) targetInvalid
    let identity := WorkspaceIdentity.managed identity
    ensure (host.keyedValue "workspace-key" (identityValue identity) = target.workspaceKey)
      targetInvalid
    return identity
  -- `resolve_identity`
  | none, none => .ok (.unmanaged none)
  | none, some cwd => do
    ensure (startsWith cwd '/') (cwdInvalid "workspace cwd must be an absolute path")
    env.resolved

def WorkspaceIdentity.isManaged : WorkspaceIdentity → Bool
  | .managed _ => true
  | .unmanaged _ => false

def bindFacts (identity : WorkspaceIdentity) : Value :=
  let facts : List (String × Value) := [("version", .number (toString request.version)),
    ("session_digest", .string (host.digest request.sessionId)),
    ("parent_session_digest", optionalText (request.parentSessionId.map host.digest)),
    ("identity", identityValue identity), ("source", .string request.source.asStr)]
  if request.takeoverCapability || request.takeoverConflict.isSome then
    .object (facts ++ [("takeover_capability", .bool request.takeoverCapability),
      ("takeover_conflict", optionalText request.takeoverConflict)])
  else .object facts

/-- A bind request whose workspace is known. -/
structure PreparedBind where
  identity : WorkspaceIdentity
  key : String
  sessionDigest : String
  parentSessionDigest : Option String
  requestDigest : String
  requestIdDigest : String

variable (prepared : PreparedBind)

def prepareBind : Except HookError (Option PreparedBind) := do
  validateBind protocol request
  let identity ← resolveBind host env request
  if protocol.requiresManagedBindTarget && !identity.isManaged then return none
  else
    let sessionDigest := host.digest request.sessionId
    let key := workspaceKeyOf host identity sessionDigest
    ensure (isHexDigest key) wireInvalid
    return some
      { identity, key, sessionDigest
        parentSessionDigest := request.parentSessionId.map host.digest
        requestDigest := host.digestValue "workspace-bind" (bindFacts host request identity)
        requestIdDigest := host.digest request.requestId }

/-- A live owner. -/
def State.live (now : Nat) (state : State) : Bool :=
  state.binding.status = .active && decide (now < state.binding.expiresAtEpoch)

def samePrincipalRecovery (state : State) : Bool :=
  (request.source = .resume || request.source = .compact) &&
    state.binding.sessionDigest = prepared.sessionDigest &&
    state.binding.parentSessionDigest = prepared.parentSessionDigest && !state.busy

def releasedTargetHandoff (state : State) : Bool :=
  protocol = .v2 && request.target.isSome && state.binding.status = .released && !state.busy

/-- A bind request that is settled before a new binding is considered: its retry. -/
def bindRetry (now : Nat) : Option State → Except HookError (Option Outcome)
  | none => .ok none
  | some existing =>
    if existing.identity ≠ prepared.identity then .error stateInvalid
    else if existing.binding.bindRequestIdDigest = prepared.requestIdDigest then
      if existing.binding.bindRequestDigest ≠ prepared.requestDigest then .error idempotencyReused
      else if existing.live now then .ok (some (bound protocol existing))
      else .ok none
    else .ok none

def takeoverStale (reason : String) : Outcome :=
  denied protocol.bindResultSchema "uncertain" "WORKSPACE_TAKEOVER_STALE" reason

/-- An approved takeover: refused, or accepted. -/
def approveTakeover (presented : String) (now : Nat)
    (state : Option State) : Except HookError (Option Outcome) :=
  match state.filter (·.live now) with
  | none => .ok (some (takeoverStale protocol "the approved workspace conflict is no longer active"))
  | some existing => do
    let expected ← takeoverConflictOf host env existing
    if presented ≠ expected then
      return some (takeoverStale protocol "the approved workspace conflict changed")
    else if existing.busy then
      return some (uncertain protocol.bindResultSchema
        "the previous workspace owner still has an active operation")
    else return none

def foreignActive (existing : State) : Outcome :=
  let outcome := denied protocol.bindResultSchema "foreign-active" "WORKSPACE_FOREIGN_ACTIVE"
    "another live session owns this workspace"
  if protocol = .v2 && request.target.isSome && request.takeoverCapability then
    match takeoverConflictOf host env existing with
    | .ok conflict => { outcome with data := outcome.data.insert "conflict" (.string conflict) }
    | .error _ => outcome
  else outcome

def refuseManaged (approvedTakeover : Bool) (now : Nat) (state : Option State) :
    Except HookError (Option Outcome) :=
  if state.any (fun existing => existing.live now) && !approvedTakeover then
    .ok (state.map (foreignActive host protocol env request))
  else if state.any fun existing => existing.binding.status = .active &&
      existing.operations.any fun operation =>
        operation.isActive && (stripPrefix? operation.operationId "wlo1.").isSome then
    .ok (some (uncertain protocol.bindResultSchema
      "an expired workspace operation has no durable terminal outcome"))
  else if !state.any (samePrincipalRecovery request prepared) &&
      !state.any (releasedTargetHandoff protocol request) && !approvedTakeover then do
    if ← dirty env prepared.identity then
      return some (denied protocol.bindResultSchema "dirty" "WORKSPACE_DIRTY"
        "the workspace has uncommitted state and cannot be reassigned safely")
    else return none
  else .ok none

def compactTombstones (tombstones : List BindingTombstone) : List BindingTombstone :=
  tombstones.drop (tombstones.length - maxTombstones)

def tombstone (state : State) : BindingTombstone :=
  ⟨state.binding.bindingId, state.binding.generation, state.binding.sessionDigest, state.workspaceId⟩

def newState (now : Nat) (state : Option State) : State where
  schemaVersion := stateSchema
  workspaceKey := prepared.key
  workspaceId := (state.map (·.workspaceId)).getD (opaqueId "wlw1" env.workspaceNonce)
  identity := prepared.identity
  binding :=
    { bindingId := "wlb1." ++ prepared.key ++ "." ++ env.bindingNonce
      generation := opaqueId "wlg1" env.generationNonce
      sessionDigest := prepared.sessionDigest
      parentSessionDigest := prepared.parentSessionDigest
      mode := if prepared.identity.isManaged then .owned else .unmanaged
      status := .active
      bindRequestDigest := prepared.requestDigest
      bindRequestIdDigest := prepared.requestIdDigest
      refreshedAtEpoch := now
      expiresAtEpoch := u64Add now leaseTtlSeconds }
  operations := []
  tombstones := match state with
    | some existing => compactTombstones (existing.tombstones ++ [tombstone existing])
    | none => []

/-- The reason that a workspace is not bound anew. -/
def refuseBind (approvedTakeover : Bool) (now : Nat) (state : Option State) :
    Except HookError (Option Outcome) :=
  if prepared.identity.isManaged then
    refuseManaged host protocol env request prepared approvedTakeover now state
  else .ok none

def installBinding (approvedTakeover : Bool) (now : Nat) (state : Option State) : Reply := do
  match ← refuseBind host protocol env request prepared approvedTakeover now state with
  | some outcome => return (outcome, none)
  | none =>
    let written ← writeState host prepared.key (newState env prepared now state)
    return (bound protocol written, some written)

def takeoverBinding (now : Nat) (state : Option State) : Reply :=
  match request.takeoverConflict with
  | none => installBinding host protocol env request prepared false now state
  | some presented => do
    match ← approveTakeover host protocol env presented now state with
    | some outcome => return (outcome, none)
    | none => installBinding host protocol env request prepared true now state

/-- `bind` while the workspace is locked. -/
def bindLocked (file : Option State) : Reply := do
  let state ← readState host prepared.key file
  let now ← env.nowEpoch
  match ← bindRetry protocol prepared now state with
  | some outcome => return (outcome, none)
  | none => takeoverBinding host protocol env request prepared now state

/-! ## `begin`, `complete`, `renew`, `release` -/

def executionDigest (request : BeginRequest) : String :=
  host.digestValue "workspace-execution" (.object
    [("call_id", .string request.callId), ("root_call_id", .string request.rootCallId),
      ("tool_name", .string request.toolName), ("arguments", request.arguments),
      ("nested", .bool request.nested)])

def completionExecution (callId rootCallId toolName : String) : String :=
  host.digestValue "workspace-execution-complete" (.object
    [("call_id", .string callId), ("root_call_id", .string rootCallId),
      ("tool_name", .string toolName)])

def toolIsReadOnly (request : BeginRequest) : Bool :=
  ["Read", "read", "Glob", "glob", "Grep", "grep"].any (· = request.toolName) ||
    request.toolName = "str_replace_editor" &&
      ((request.arguments.get "command").bind (·.asStr)).any (· = "view")

def dropTerminal : Nat → List OperationRecord → List OperationRecord
  | _, [] => []
  | 0, operations => operations
  | n + 1, operation :: operations =>
    if operation.isActive then operation :: dropTerminal (n + 1) operations
    else dropTerminal n operations

def compactOperations (operations : List OperationRecord) : List OperationRecord :=
  dropTerminal (operations.length - (maxOperations - 1)) operations

/-- The operations that a new one is added to. -/
def roomFor (operations : List OperationRecord) : List OperationRecord :=
  if maxOperations ≤ operations.length then compactOperations operations else operations

def requireTargetIdentity (state : State) (target : TargetRef) : Except HookError Unit :=
  match state.identity with
  | .managed identity => ensure (isHexDigest target.workspaceKey &&
      target.workspaceKey = state.workspaceKey && host.samePath identity.root target.root)
    targetInvalid
  | .unmanaged _ => .error targetInvalid

mutual

def canonicalValue : Value → Value
  | .object members => .object (sortBy (fun a b => textLe a.1 b.1) (canonicalMembers members))
  | .array items => .array (canonicalItems items)
  | other => other

def canonicalMembers : List (String × Value) → List (String × Value)
  | [] => []
  | (key, value) :: members => (key, canonicalValue value) :: canonicalMembers members

def canonicalItems : List Value → List Value
  | [] => []
  | item :: items => canonicalValue item :: canonicalItems items

end

def callFactsDigest (request : BeginRequest) : String :=
  host.digestValue "workspace-call-facts" (.object
    [("call_id", .string request.callId), ("root_call_id", .string request.rootCallId),
      ("tool_name", .string request.toolName),
      ("arguments_digest",
        .string (host.digestValue "workspace-arguments" (canonicalValue request.arguments))),
      ("anchor_cwd", optionalText request.anchorCwd), ("nested", .bool request.nested)])

def requireTargetCallBinding (target : TargetRef) (request : BeginRequest) :
    Except HookError Unit := do
  ensure (request.targetToken.any isHexDigest) targetCallMismatch
  ensure (request.anchorCwd.all (startsWith · '/'))
    (cwdInvalid "workspace anchor cwd must be an absolute path")
  ensure (request.targetToken = some (host.keyedValue "workspace-target-call" (.object
    [("workspace_key", .string target.workspaceKey),
      ("call_digest", .string (callFactsDigest host request))]))) targetCallMismatch

/-- The target of a begin request. -/
def requireTarget (protocol : ProtocolGeneration) (state : State) (request : BeginRequest) :
    Except HookError Unit :=
  match protocol, request.target with
  | .v2, some target => do
    requireTargetIdentity host state target
    requireTargetCallBinding host target request
  | .v2, none => .error wireInvalid
  | .v1, some _ => .error wireInvalid
  | .v1, none => ensure (request.targetToken.isNone && request.anchorCwd.isNone) wireInvalid

def bindingStateInvalid : HookError :=
  .data "workspace-binding-state-invalid" "workspace binding state does not match durable authority"

def operationCapacityExhausted : HookError :=
  workspaceUnavailable "workspace-operation-capacity-exhausted"
    "workspace operation history is at its conservative capacity"
    "complete or release prior operations, then retry the exact request once"

def validTexts (values : List String) : Except HookError Unit :=
  ensure (values.all validText) wireInvalid

/-- The operation that a begin request asks for. -/
def newOperation (env : Env) (request : BeginRequest) (requestDigest : String) (now : Nat) :
    OperationRecord where
  operationId := opaqueId "wlo1" env.operationNonce
  fence := opaqueId "wlf1" env.fenceNonce
  requestIdDigest := host.digest request.requestId
  requestDigest := requestDigest
  executionDigest := executionDigest host request
  completionExecutionDigest := completionExecution host request.callId request.rootCallId
    request.toolName
  status := .active
  startedAtEpoch := now
  completedAtEpoch := none
  completionDigest := none

/-- `begin` under a live binding. -/
def beginOperation (protocol : ProtocolGeneration) (env : Env) (request : BeginRequest)
    (key : String) (now : Nat) (state : State) : Reply :=
  let requestDigest := host.digestValue "workspace-begin" (.object
    [("request", .string (executionDigest host request)), ("binding_id", .string request.bindingId),
      ("generation", .string request.generation)])
  match state.operations.find? (·.requestIdDigest = host.digest request.requestId) with
  | some existing =>
    if existing.requestDigest ≠ requestDigest then .error idempotencyReused
    else if !existing.isActive then
      .ok (denied protocol.beginResultSchema "uncertain" "WORKSPACE_OPERATION_REPLAYED"
        "the operation identity already reached a terminal state", none)
    else .ok (granted protocol existing, none)
  | none =>
    if maxOperations ≤ (roomFor state.operations).length then .error operationCapacityExhausted
    else do
      let operation := newOperation host env request requestDigest now
      let written ← writeState host key
        { state with operations := roomFor state.operations ++ [operation] }
      return (granted protocol operation, some written)

/-- `begin` while the workspace is locked. -/
def beginLocked (protocol : ProtocolGeneration) (env : Env) (request : BeginRequest) (key : String)
    (file : Option State) : Reply := do
  let state ← readRequiredState host key file
  match bindingDenial host protocol state request.toCommon request.toBindingRef with
  | some denial => return (denial, none)
  | none =>
    revalidateManagedIdentity env state
    requireTarget host protocol state request
    ensure (request.bindingState = state.binding.mode) bindingStateInvalid
    if state.binding.mode = .unmanaged ||
        (protocol.suppressesReadOnlyFence && toolIsReadOnly request) then
      return (ack protocol.beginResultSchema "not-required"
        "operation does not require a mutation fence", none)
    else
      let now ← env.nowEpoch
      if state.binding.expiresAtEpoch ≤ now then
        return (← expiredDenial protocol env state, none)
      else beginOperation host protocol env request key now state

/-- The key of a request under a binding. -/
def requestKey (protocol : ProtocolGeneration) (request : Common) (binding : BindingRef)
    (texts : List String) : Except HookError String := do
  validateCommon protocol request
  validTexts texts
  bindingKey binding.bindingId

def operationUnavailable : HookError :=
  .data "workspace-operation-unavailable" "workspace operation identity is unavailable"

def fenceInvalid : HookError :=
  .data "workspace-operation-fence-invalid" "workspace operation fence is invalid"

def operationIdentityInvalid : HookError :=
  .data "workspace-operation-identity-invalid" "workspace operation completion identity is invalid"

def outcomeConflict : HookError :=
  .data "workspace-operation-outcome-conflict"
    "workspace operation already has a different terminal outcome"

def completionDigestOf (request : CompleteRequest) (execution : String) : String :=
  host.digestValue "workspace-complete" (.object
    [("operation_id", .string request.operationId), ("fence", .string request.fence),
      ("execution", .string execution), ("outcome", .string request.outcome.asStr),
      ("error_code", optionalText request.errorCode)])

/-- The operation with its terminal outcome. -/
def OperationRecord.ended (operation : OperationRecord) (outcome : OperationOutcome) (now : Nat)
    (completionDigest : String) : OperationRecord :=
  { operation with
    status := outcome.status
    completedAtEpoch := some now
    completionDigest := some completionDigest }

/-- `complete` while the workspace is locked. -/
def completeLocked (protocol : ProtocolGeneration) (env : Env) (request : CompleteRequest)
    (key : String) (file : Option State) : Reply := do
  let state ← readRequiredState host key file
  requireBinding host state request.toCommon request.toBindingRef
  match state.operations.find? (·.operationId = request.operationId) with
  | none => .error operationUnavailable
  | some operation =>
    ensure (operation.fence = request.fence) fenceInvalid
    let execution := completionExecution host request.callId request.rootCallId request.toolName
    ensure (execution = operation.completionExecutionDigest) operationIdentityInvalid
    let digest := completionDigestOf host request execution
    if !operation.isActive then
      if operation.completionDigest = some digest then
        return (ack protocol.completeResultSchema "duplicate" "completion already recorded", none)
      else .error outcomeConflict
    else
      let now ← env.nowEpoch
      let written ← writeState host key { state with
        operations := updateFirst (·.operationId = request.operationId)
          (·.ended request.outcome now digest) state.operations }
      return (ack protocol.completeResultSchema "completed" "operation completed", some written)

def renewed (protocol : ProtocolGeneration) : Outcome where
  data := .object [("schema_version", .string protocol.renewResultSchema),
    ("kind", .string "renewed"), ("renew_after_ms", renewAfterMs)]
  text := "workspace lease renewed\n"

/-- `renew` while the workspace is locked. -/
def renewLocked (protocol : ProtocolGeneration) (env : Env) (request : RenewRequest) (key : String)
    (file : Option State) : Reply := do
  let state ← readRequiredState host key file
  match bindingDenial host protocol state request.toCommon request.toBindingRef with
  | some denial => return (lostFromDenial protocol denial, none)
  | none =>
    revalidateManagedIdentity env state
    let now ← env.nowEpoch
    if state.binding.expiresAtEpoch ≤ now then
      return (lostFromDenial protocol (← expiredDenial protocol env state), none)
    else
      let binding := { state.binding with
        refreshedAtEpoch := now, expiresAtEpoch := u64Add now leaseTtlSeconds }
      let written ← writeState host key { state with binding }
      return (renewed protocol, some written)

def releaseUncertain : HookError :=
  workspaceUnavailable "workspace-release-uncertain"
    "workspace binding has an operation without a terminal outcome"
    "complete the exact active operation, then retry the exact release once"

/-- `release` while the workspace is locked. -/
def releaseLocked (protocol : ProtocolGeneration) (env : Env) (request : ReleaseRequest)
    (key : String) (file : Option State) : Reply := do
  let state ← readRequiredState host key file
  if state.binding.status ≠ .active then
    if exactBinding host state request.toCommon request.toBindingRef ||
        state.tombstones.any fun t => t.bindingId = request.bindingId &&
          t.generation = request.generation && t.sessionDigest = host.digest request.sessionId &&
          t.workspaceId = request.workspaceId then
      return (ack protocol.releaseResultSchema "duplicate" "binding already released", none)
    else .error staleBinding
  else
    requireBinding host state request.toCommon request.toBindingRef
    ensure (!state.busy) releaseUncertain
    let now ← env.nowEpoch
    let binding := { state.binding with status := .released, expiresAtEpoch := now }
    let written ← writeState host key { state with binding }
    return (ack protocol.releaseResultSchema "released" "binding released", some written)

/-! ## Requests to the state root -/

inductive Request
  | bind (request : BindRequest)
  | begin_ (request : BeginRequest)
  | complete (request : CompleteRequest)
  | renew (request : RenewRequest)
  | release (request : ReleaseRequest)

/-- The state files by workspace key. -/
abbrev Files := String → Option State

def bindNotRequired (protocol : ProtocolGeneration) : Outcome where
  data := .object [("schema_version", .string protocol.bindResultSchema),
    ("kind", .string "not-required")]
  text := "workspace lease: target requires no repository binding\n"

def BeginRequest.texts (request : BeginRequest) : List String :=
  [request.bindingId, request.workspaceId, request.generation, request.callId, request.rootCallId,
    request.toolName]

def CompleteRequest.texts (request : CompleteRequest) : List String :=
  [request.bindingId, request.workspaceId, request.generation, request.operationId, request.fence,
    request.callId, request.rootCallId, request.toolName] ++ request.errorCode.toList

/-- A request whose workspace is `key`. -/
def underKey (key : String) (reply : Option State → Reply) (files : Files) :
    Except HookError (Outcome × Option (String × State)) :=
  (reply (files key)).map fun (outcome, written) => (outcome, written.map (key, ·))

def serve (protocol : ProtocolGeneration) (env : Env) (request : Request) (files : Files) :
    Except HookError (Outcome × Option (String × State)) :=
  match request with
  | .bind request => do
    match ← prepareBind host protocol env request with
    | none => return (bindNotRequired protocol, none)
    | some prepared => underKey prepared.key (bindLocked host protocol env request prepared) files
  | .begin_ request => do
    let key ← requestKey protocol request.toCommon request.toBindingRef request.texts
    underKey key (beginLocked host protocol env request key) files
  | .complete request => do
    let key ← requestKey protocol request.toCommon request.toBindingRef request.texts
    underKey key (completeLocked host protocol env request key) files
  | .renew request => do
    let key ← requestKey protocol request.toCommon request.toBindingRef []
    underKey key (renewLocked host protocol env request key) files
  | .release request => do
    let key ← requestKey protocol request.toCommon request.toBindingRef []
    underKey key (releaseLocked host protocol env request key) files

/-- The files after a request. -/
def Files.after (files : Files) (served : Except HookError (Outcome × Option (String × State))) :
    Files :=
  match served with
  | .ok (_, some (key, state)) => Function.update files key (some state)
  | _ => files

end

end NilsCli.Workspace
