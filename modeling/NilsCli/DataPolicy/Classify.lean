import NilsCli.Lib.Guard
import NilsCli.Lib.Text
import NilsCli.Lib.Value

/-!
# The data policy

A payload is classified by a recursion over its values (`scan`), and a second recursion writes the
redacted payload (`redact`).
-/

namespace NilsCli.DataPolicy

open Lib

def requestSchema : String := "agent-hook.data-policy.evaluate.v1"
def decisionSchema : String := "agent-hook.data-policy.decision.v1"
def maxIdBytes : Nat := 256
def redactedSensitive : String := "[redacted:sensitive]"
def redactedPath : String := "[redacted:machine-local-path]"

/-! ## Classes and rules -/

inductive DataClass where
  | sensitive
  | machineLocalPath
  | protectedRoot
  deriving DecidableEq

def DataClass.asStr : DataClass → String
  | sensitive => "sensitive"
  | machineLocalPath => "machine-local-path"
  | protectedRoot => "protected-root"

/-- A `BTreeSet` of classes. -/
structure Classes where
  sensitive : Bool
  machineLocalPath : Bool
  protectedRoot : Bool

namespace Classes

def empty : Classes := ⟨false, false, false⟩

def contains (classes : Classes) : DataClass → Bool
  | .sensitive => classes.sensitive
  | .machineLocalPath => classes.machineLocalPath
  | .protectedRoot => classes.protectedRoot

def set (classes : Classes) (c : DataClass) (value : Bool) : Classes :=
  match c with
  | .sensitive => { classes with sensitive := value }
  | .machineLocalPath => { classes with machineLocalPath := value }
  | .protectedRoot => { classes with protectedRoot := value }

def insert (classes : Classes) (c : DataClass) : Classes := classes.set c true

def remove (classes : Classes) (c : DataClass) : Classes := classes.set c false

/-- In order. -/
def toList (classes : Classes) : List DataClass :=
  [.sensitive, .machineLocalPath, .protectedRoot].filter classes.contains

end Classes

inductive Action where
  | allow
  | deny
  | redact
  | quarantine
  deriving DecidableEq

def Action.rank : Action → Nat
  | allow => 0
  | redact => 1
  | quarantine => 2
  | deny => 3

def Action.display : Action → String
  | allow => "allow"
  | deny => "deny"
  | redact => "redact"
  | quarantine => "quarantine"

structure Rule where
  ruleId : String
  classId : DataClass
  action : Action

structure Identity where
  sessionId : String
  workspaceDigest : String
  workspaceGeneration : String
  callId : String
  rootCallId : String
  parentCallId : Option String
  turn : Nat
  step : Nat

inductive Phase where
  | preCall
  | finalResult
  | protectedRoot
  deriving DecidableEq

structure Request where
  schemaVersion : String
  phase : Phase
  sourceId : String
  sinkId : String
  identity : Identity
  rules : List Rule
  payload : Value

/-- `HookError::data`. -/
structure HookError where
  code : String
  message : String
  deriving DecidableEq

/-! ## Texts -/

def matchRests (pattern : List Char) : Nat → List Char → List (List Char)
  | _, [] => []
  | skip + 1, _ :: cs => matchRests pattern skip cs
  | 0, c :: cs =>
    if pattern.isPrefixOf (c :: cs) then
      (c :: cs).drop pattern.length :: matchRests pattern (pattern.length - 1) cs
    else matchRests pattern 0 cs

def sensitiveKeys : List String :=
  ["secret", "token", "password", "passwd", "api_key", "private_key", "credential"]

def sensitiveKey (key : String) : Bool :=
  let normalized := (replaceChar (toAsciiLowercase key) '-' '_').toList
  sensitiveKeys.any fun needle =>
    normalized = needle.toList || ('_' :: needle.toList).isSuffixOf normalized

def isTokenChar (c : Char) : Bool :=
  isAsciiLower c || isAsciiUpper c || isAsciiDigit c || c = '_' || c = '-'

def sensitiveValue (value : String) : Bool :=
  let lower := toAsciiLowercase value
  containsText lower "-----begin private key-----" ||
    ["ghp_", "github_pat_", "glpat-", "sk-proj-"].any fun pre =>
      (matchRests pre.toList 0 lower.toList).any fun rest =>
        ((rest.takeWhile isTokenChar).take 8).length = 8

/-- What ends a component of a path in a text. -/
def isPathEnd (c : Char) : Bool :=
  c = '/' || c.toNat = 0x5C || c = ' ' || c = '\t' || c = '\r' || c = '\n' || c.toNat = 0x22 ||
    c.toNat = 0x27

def hasComponentAfter (value marker : String) : Bool :=
  (matchRests marker.toList 0 value.toList).any fun rest =>
    !(rest.takeWhile fun c => !isPathEnd c).isEmpty

/-- A drive letter, a colon and a slash. -/
def hasDrive : List Char → Bool
  | a :: b :: c :: cs =>
    ((isAsciiLower a || isAsciiUpper a) && b = ':' && (c.toNat = 0x5C || c = '/')) ||
      hasDrive (b :: c :: cs)
  | _ => false

def machineLocalPath (value : String) : Bool :=
  hasComponentAfter value "/home/" || hasComponentAfter value "/Users/" ||
    hasComponentAfter value "/private/var/folders/" || hasDrive value.toList

/-! ## Scan and redaction -/

def sequenceText : Value → Option String
  | .string text => some text
  | .object members => ((members.find? (·.1 = "text")).map (·.2)).bind Value.asStr
  | _ => none

def joined (items : List Value) : Option String :=
  (items.mapM sequenceText).map String.join

def scanText (text : String) (classes : Classes) : Classes :=
  let classes := if sensitiveValue text then classes.insert .sensitive else classes
  if machineLocalPath text then classes.insert .machineLocalPath else classes

mutual

def scan : Value → Bool → Classes → Classes
  | value, keySensitive, classes =>
    let classes := if keySensitive then classes.insert .sensitive else classes
    match value with
    | .string text => scanText text classes
    | .array items =>
      let classes := scanItems items keySensitive classes
      if items.length > 1 then
        match joined items with
        | some text => scanText text classes
        | none => classes
      else classes
    | .object members => scanMembers members keySensitive classes
    | .null => classes
    | .bool _ => classes
    | .number _ => classes

def scanItems : List Value → Bool → Classes → Classes
  | [], _, classes => classes
  | item :: items, keySensitive, classes =>
    scanItems items keySensitive (scan item keySensitive classes)

def scanMembers : List (String × Value) → Bool → Classes → Classes
  | [], _, classes => classes
  | (key, item) :: members, keySensitive, classes =>
    scanMembers members keySensitive (scan item (keySensitive || sensitiveKey key) classes)

end

mutual

def redact (value : Value) (keySensitive : Bool) (classes : Classes) : Value :=
  if keySensitive && classes.contains .sensitive then .string redactedSensitive
  else
    match value with
    | .string text =>
      if classes.contains .sensitive && sensitiveValue text then .string redactedSensitive
      else if classes.contains .machineLocalPath && machineLocalPath text then .string redactedPath
      else .string text
    | .array items => .array (redactItems items keySensitive classes)
    | .object members => .object (redactMembers members keySensitive classes)
    | .null => .null
    | .bool b => .bool b
    | .number text => .number text

def redactItems : List Value → Bool → Classes → List Value
  | [], _, _ => []
  | item :: items, keySensitive, classes =>
    redact item keySensitive classes :: redactItems items keySensitive classes

def redactMembers : List (String × Value) → Bool → Classes → List (String × Value)
  | [], _, _ => []
  | (key, item) :: members, keySensitive, classes =>
    (key, redact item (keySensitive || sensitiveKey key) classes) ::
      redactMembers members keySensitive classes

end

/-! ## Evaluation -/

def validId (value : String) : Bool :=
  value ≠ "" && value.utf8ByteSize ≤ maxIdBytes && !value.toList.any isAsciiControl

def validDigest (value : String) : Bool :=
  value.utf8ByteSize = 71 && "sha256:".toList.isPrefixOf value.toList &&
    (value.toList.drop 7).all fun c => isAsciiHexDigit c && !isAsciiUpper c

def dataError (code message : String) : HookError := ⟨code, message⟩

def validateRules (seenIds : List String) (seenClasses : List DataClass) :
    List Rule → Except HookError Unit
  | [] => .ok ()
  | rule :: rules => do
    ensure (validId rule.ruleId = true ∧ rule.ruleId ∉ seenIds)
      (dataError "data-policy-rules-invalid"
        "data-policy rule identities must be valid and unique")
    ensure (rule.classId ∉ seenClasses)
      (dataError "data-policy-rules-invalid" "data-policy class rules must be unique")
    validateRules (rule.ruleId :: seenIds) (rule.classId :: seenClasses) rules

def validate (request : Request) : Except HookError Unit := do
  ensure (request.schemaVersion = requestSchema)
    (dataError "data-policy-schema-invalid" "unsupported data-policy request schema")
  ensure (validId request.sourceId = true ∧ validId request.sinkId = true)
    (dataError "data-policy-identity-invalid" "source or sink identity is invalid")
  let identity := request.identity
  ensure (validId identity.sessionId = true ∧ validDigest identity.workspaceDigest = true ∧
      validId identity.workspaceGeneration = true ∧ validId identity.callId = true ∧
      validId identity.rootCallId = true ∧ identity.parentCallId.all validId = true)
    (dataError "data-policy-identity-invalid" "data-policy execution identity is invalid")
  ensure (request.rules ≠ [] ∧ request.rules.length ≤ 16)
    (dataError "data-policy-rules-invalid" "data-policy rules must contain 1 through 16 entries")
  validateRules [] [] request.rules

/-- The request as JSON text: its id, and the digests of its payload and of its binding. -/
structure Digests where
  requestId : Request → String
  payload : Value → String
  binding : Request → String → String

structure Audit where
  action : Action
  code : String
  classes : List String
  matchedRuleIds : List String
  sourceId : String
  sinkId : String
  payloadDigest : String
  bindingDigest : String

structure Decision where
  schemaVersion : String
  requestId : String
  action : Action
  code : String
  replacement : Option Value
  audit : Audit

/-- The classes that the decision is based on. -/
def requestClasses (request : Request) : Classes :=
  let classes := scan request.payload false .empty
  let classes := if request.phase = .protectedRoot then classes.insert .protectedRoot else classes
  if request.sourceId = "provider.opaque-reference" then classes.remove .machineLocalPath
  else classes

def strongest : List Action → Option Action :=
  List.foldl (fun best action =>
    match best with
    | none => some action
    | some best => some (if best.rank ≤ action.rank then action else best)) none

def evaluate (digests : Digests) (request : Request) : Except HookError Decision := do
  validate request
  let payloadDigest := digests.payload request.payload
  let bindingDigest := digests.binding request payloadDigest
  let classes := requestClasses request
  let matched := request.rules.filter fun rule => classes.contains rule.classId
  let action := (strongest (matched.map (·.action))).getD .allow
  let names := classes.toList.map DataClass.asStr
  let code := if names.isEmpty then "data-policy-allow"
    else "data-policy-" ++ action.display ++ "-" ++ "+".intercalate names
  let replacement := match action with
    | .redact => some (redact request.payload false classes)
    | .quarantine =>
      some (.object [("locator", .string payloadDigest), ("quarantined", .bool true)])
    | .allow => none
    | .deny => none
  .ok {
    schemaVersion := decisionSchema
    requestId := digests.requestId request
    action, code, replacement
    audit := {
      action, code
      classes := names
      matchedRuleIds := sortBy textLe (matched.map (·.ruleId))
      sourceId := request.sourceId
      sinkId := request.sinkId
      payloadDigest, bindingDigest } }

end NilsCli.DataPolicy
