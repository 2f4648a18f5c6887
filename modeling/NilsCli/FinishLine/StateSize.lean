import NilsCli.FinishLine.State
import NilsCli.Lib.JsonSize

/-!
# The size of the acceptance file

The acceptance file is saved as compact JSON of at most 384 KiB.
-/

namespace NilsCli.FinishLine

open Lib List

variable (repoDigest key : String) (session : AcceptanceSession) (a : AcceptanceState)

/-! ## The file as JSON -/

def RequirementStatus.name : RequirementStatus → String
  | .active => "active"
  | .satisfied => "satisfied"
  | .failed => "failed"
  | .uncertain => "uncertain"
  | .infrastructureBlocked => "infrastructure-blocked"

def ObservationStatus.name : ObservationStatus → String
  | .succeeded => "succeeded"
  | .failed => "failed"
  | .cancelled => "cancelled"
  | .timedOut => "timed-out"
  | .signalled => "signalled"
  | .uncertain => "uncertain"
  | .infrastructureBlocked => "infrastructure-blocked"

def CompletionDisposition.name : CompletionDisposition → String
  | .applied => "applied"
  | .stale => "stale"
  | .superseded => "superseded"

def AdmissionStatus.name : AdmissionStatus → String
  | .reserved => "reserved"
  | .admitted => "admitted"

def ValidatorExecution.json : ValidatorExecution → List Char
  | .hostObserved => jsonObject [("kind", jsonString "host-observed")]
  | .containedBash intent commandDigest targetDigest validationContractDigest =>
    jsonObject [
      ("kind", jsonString "contained-bash"),
      ("intent", jsonString intent),
      ("command_digest", jsonString commandDigest),
      ("target_digest", jsonString targetDigest),
      ("validation_contract_digest", jsonString validationContractDigest)]

def ValidatorContract.json (validator : ValidatorContract) : List Char :=
  jsonObject [
    ("binding_digest", jsonString validator.bindingDigest),
    ("execution", validator.execution.json)]

def RequirementContract.json (requirement : RequirementContract) : List Char :=
  jsonObject [("validators", jsonMap ValidatorContract.json requirement.validators)]

/-- A set of strings, in order. -/
def jsonSet (texts : List String) : List Char :=
  jsonArray ((sortBy textLe texts).map jsonString)

def AcceptanceContract.json (contract : AcceptanceContract) : List Char :=
  jsonObject [
    ("requirements", jsonMap RequirementContract.json contract.requirements),
    ("invalidators", jsonSet contract.invalidators)]

def RequirementEvidence.json (evidence : RequirementEvidence) : List Char :=
  jsonObject [
    ("contract_digest", jsonString evidence.contractDigest),
    ("generation", jsonNat evidence.generation),
    ("attempt_sequence", jsonNat evidence.attemptSequence),
    ("validator_id", jsonString evidence.validatorId),
    ("status", jsonString evidence.status.name)]

def AcceptanceSession.json (session : AcceptanceSession) : List Char :=
  jsonObject ([
    ("contract_digest", jsonString session.contractDigest),
    ("contract", session.contract.json),
    ("evidence", jsonMap RequirementEvidence.json session.evidence),
    ("claimed_sources", jsonSet session.claimedSources)] ++
    (session.claimedSourcesGeneration.map fun generation =>
      ("claimed_sources_generation", jsonNat generation)).toList ++
    [("sequence", jsonNat session.sequence)])

def AcceptanceOperationKind.json : AcceptanceOperationKind → List Char
  | .mutation => jsonObject [("kind", jsonString "mutation")]
  | .validator requirement validatorId =>
    jsonObject [
      ("kind", jsonString "validator"),
      ("requirement", jsonString requirement),
      ("validator_id", jsonString validatorId)]
  | .completion => jsonObject [("kind", jsonString "completion")]

def AcceptanceTerminal.json (terminal : AcceptanceTerminal) : List Char :=
  jsonObject [
    ("observation", jsonString terminal.observation.name),
    ("source_digest", jsonString terminal.sourceDigest),
    ("disposition", jsonString terminal.disposition.name)]

def AcceptanceOperation.json (operation : AcceptanceOperation) : List Char :=
  jsonObject [
    ("session_key", jsonString operation.sessionKey),
    ("turn_key", jsonString operation.turnKey),
    ("token_digest", jsonString operation.tokenDigest),
    ("capability_digest", jsonString operation.capabilityDigest),
    ("contract_digest", jsonString operation.contractDigest),
    ("generation", jsonNat operation.generation),
    ("sequence", jsonNat operation.sequence),
    ("binding_digest", jsonString operation.bindingDigest),
    ("source_operation_key", jsonOption jsonString operation.sourceOperationKey),
    ("kind", operation.kind.json),
    ("admission", jsonString operation.admission.name),
    ("terminal", jsonOption AcceptanceTerminal.json operation.terminal)]

def stateSchema : String := "agent-hook.finish-line.acceptance-state.v1"

def AcceptanceState.serialized : List Char :=
  jsonObject [
    ("schema_version", jsonString stateSchema),
    ("repo_digest", jsonString repoDigest),
    ("next_sequence", jsonNat a.nextSequence),
    ("sessions", jsonMap AcceptanceSession.json a.sessions),
    ("operations", jsonMap AcceptanceOperation.json a.operations)]

/-! ## What a save counts -/

def stateMaxBytes : Nat := 384 * 1024

/-- The longest terminal. -/
def longestTerminal : AcceptanceTerminal :=
  ⟨.infrastructureBlocked, .ofList ("sha256:".toList ++ List.replicate 64 'f'), .superseded⟩

def terminalHeadroomBytes : Nat := utf8Size longestTerminal.json - utf8Size jsonNull

def evidenceStatusHeadroomBytes : Nat :=
  utf8Size (jsonString RequirementStatus.infrastructureBlocked.name) -
    utf8Size (jsonString RequirementStatus.active.name)

/-- The evidence of a session that is active. -/
def AcceptanceSession.activeEvidence : List RequirementEvidence :=
  session.evidence.values.filter (·.status = .active)

def AcceptanceState.projectedTerminalStateBytes : Nat :=
  let activeOperations := (a.operations.values.filter (·.terminal.isNone)).length
  let activeEvidence := (a.sessions.values.flatMap (·.activeEvidence)).length
  utf8Size (a.serialized repoDigest) + activeOperations * terminalHeadroomBytes +
    activeEvidence * evidenceStatusHeadroomBytes

/-- The size check of `save_state`. -/
def AcceptanceState.Fits : Prop :=
  a.projectedTerminalStateBytes repoDigest ≤ stateMaxBytes

instance (repoDigest : String) (a : AcceptanceState) : Decidable (a.Fits repoDigest) :=
  inferInstanceAs (Decidable (_ ≤ _))

def isDigest (value : String) : Bool :=
  (stripPrefix? value "sha256:").any fun hex =>
    hex.length = 64 && hex.all fun c => isAsciiDigit c || charIn 'a' 'f' c

/-! ## Sizes of the parts -/

theorem utf8Size_digest {value : String} (h : isDigest value = true) :
    utf8Size (jsonString value) = 73 := by
  unfold isDigest stripPrefix? at h
  split at h
  · rename_i hfront
    obtain ⟨hex, hvalue⟩ := List.isPrefixOf_iff_prefix.mp hfront
    rw [← hvalue, drop_left, Option.any_some, Bool.and_eq_true, decide_eq_true_eq,
      all_eq_true] at h
    have hscheme : utf8Size ("sha256:".toList.flatMap jsonChar) = 7 := by decide
    have hquote : Char.utf8Size '\x22' = 1 := by decide
    simp only [jsonString, ← hvalue, flatMap_append, utf8Size_cons, utf8Size_append,
      utf8Size_nil, hscheme, hquote, utf8Size_hexDigits h.2, h.1]
  · cases h

theorem AcceptanceTerminal.size (terminal : AcceptanceTerminal) :
    utf8Size terminal.json = utf8Size (jsonString terminal.observation.name) +
      utf8Size (jsonString terminal.sourceDigest) +
        utf8Size (jsonString terminal.disposition.name) + 48 := by
  have hobservation : utf8Size (jsonString "observation") = 13 := by decide
  have hsource : utf8Size (jsonString "source_digest") = 15 := by decide
  have hdisposition : utf8Size (jsonString "disposition") = 13 := by decide
  simp only [AcceptanceTerminal.json, utf8Size_jsonObject, map_cons, map_nil,
    sum_cons, sum_nil, length_cons, length_nil, utf8Size_jsonMember,
    hobservation, hsource, hdisposition]
  omega

theorem ObservationStatus.size_le (observation : ObservationStatus) :
    utf8Size (jsonString observation.name) ≤ 24 := by
  cases observation <;> decide

theorem CompletionDisposition.size_le (disposition : CompletionDisposition) :
    utf8Size (jsonString disposition.name) ≤ 12 := by
  cases disposition <;> decide

theorem utf8Size_null : utf8Size jsonNull = 4 := by decide

theorem terminalHeadroomBytes_eq : terminalHeadroomBytes = 153 := by
  have hobservation : utf8Size (jsonString longestTerminal.observation.name) = 24 := by decide
  have hdisposition : utf8Size (jsonString longestTerminal.disposition.name) = 12 := by decide
  have hsource : utf8Size (jsonString longestTerminal.sourceDigest) = 73 :=
    utf8Size_digest (by decide)
  rw [terminalHeadroomBytes, longestTerminal.size, hobservation, hdisposition, hsource,
    utf8Size_null]

theorem AcceptanceTerminal.size_le {terminal : AcceptanceTerminal}
    (h : utf8Size (jsonString terminal.sourceDigest) ≤ 73) :
    utf8Size terminal.json ≤ terminalHeadroomBytes + 4 := by
  have hobservation := terminal.observation.size_le
  have hdisposition := terminal.disposition.size_le
  rw [terminal.size, terminalHeadroomBytes_eq]
  omega

theorem RequirementStatus.size_le (status : RequirementStatus) :
    utf8Size (jsonString status.name) ≤
      utf8Size (jsonString RequirementStatus.active.name) + evidenceStatusHeadroomBytes := by
  cases status <;> decide

/-! ## Weights -/

/-- What a save counts for a row of evidence. -/
def RequirementEvidence.weight (requirement : String) (evidence : RequirementEvidence) : Nat :=
  utf8Size (jsonMember (requirement, evidence.json)) +
    if decide (evidence.status = .active) then evidenceStatusHeadroomBytes else 0

/-- What a save counts for a session. -/
def AcceptanceSession.weight : Nat :=
  utf8Size (jsonMember (key, session.json)) +
    session.activeEvidence.length * evidenceStatusHeadroomBytes

/-- What a save counts for an operation. -/
def AcceptanceOperation.weight (operation : AcceptanceOperation) : Nat :=
  utf8Size (jsonMember (key, operation.json)) +
    if operation.terminal.isNone then terminalHeadroomBytes else 0

theorem AcceptanceState.projected_eq : a.projectedTerminalStateBytes repoDigest =
      utf8Size (({ a with sessions := ∅, operations := ∅ } : AcceptanceState).serialized
        repoDigest) + a.sessions.total AcceptanceSession.weight + (a.sessions.size - 1) +
        a.operations.total AcceptanceOperation.weight + (a.operations.size - 1) := by
  have hsessions : jsonMap AcceptanceSession.json ∅ = ['\x7b', '\x7d'] := rfl
  have hoperations : jsonMap AcceptanceOperation.json ∅ = ['\x7b', '\x7d'] := rfl
  have hempty : utf8Size ['\x7b', '\x7d'] = 2 := by decide
  have hweight := Table.total_add
    (fun key (session : AcceptanceSession) => utf8Size (jsonMember (key, session.json)))
    (fun _ session => session.activeEvidence.length * evidenceStatusHeadroomBytes) a.sessions
  have hweight' := Table.total_add
    (fun key (operation : AcceptanceOperation) => utf8Size (jsonMember (key, operation.json)))
    (fun _ operation => if operation.terminal.isNone then terminalHeadroomBytes else 0)
    a.operations
  have hactive := Table.length_flatMap_values_mul AcceptanceSession.activeEvidence
    evidenceStatusHeadroomBytes a.sessions
  have hopen := Table.length_filter_values_mul (fun operation => operation.terminal.isNone)
    terminalHeadroomBytes a.operations
  have hsession : a.sessions.total AcceptanceSession.weight =
      a.sessions.total (fun key session => utf8Size (jsonMember (key, session.json))) +
        (a.sessions.values.flatMap (·.activeEvidence)).length * evidenceStatusHeadroomBytes := by
    rw [hactive, hweight]
    rfl
  have hoperation : a.operations.total AcceptanceOperation.weight =
      a.operations.total (fun key operation => utf8Size (jsonMember (key, operation.json))) +
        (a.operations.values.filter (·.terminal.isNone)).length * terminalHeadroomBytes := by
    rw [hopen, hweight']
    rfl
  rw [hsession, hoperation]
  simp only [AcceptanceState.projectedTerminalStateBytes, AcceptanceState.serialized,
    utf8Size_jsonObject, map_cons, map_nil, sum_cons, sum_nil,
    length_cons, length_nil, hsessions, hoperations, hempty, utf8Size_jsonMap,
    utf8Size_jsonMember ("sessions", _), utf8Size_jsonMember ("operations", _)]
  omega

theorem AcceptanceState.projected_le {repoDigest : String} {a a' : AcceptanceState}
    (hsequence : a'.nextSequence = a.nextSequence) (hsessions : a'.sessions.size = a.sessions.size)
    (hoperations : a'.operations.size = a.operations.size)
    (hsession : a'.sessions.total AcceptanceSession.weight ≤
      a.sessions.total AcceptanceSession.weight)
    (hoperation : a'.operations.total AcceptanceOperation.weight ≤
      a.operations.total AcceptanceOperation.weight) :
    a'.projectedTerminalStateBytes repoDigest ≤ a.projectedTerminalStateBytes repoDigest := by
  rw [a.projected_eq, a'.projected_eq, hsessions, hoperations]
  have hrest : ({ a' with sessions := ∅, operations := ∅ } : AcceptanceState) =
      { a with sessions := ∅, operations := ∅ } := by rw [hsequence]
  rw [hrest]
  omega

/-! ## Rows that end -/

theorem AcceptanceOperation.weight_ended (key : String) {operation : AcceptanceOperation}
    {terminal : AcceptanceTerminal} (hopen : operation.terminal = none)
    (hterminal : utf8Size (jsonString terminal.sourceDigest) ≤ 73) :
    ({ operation with terminal := some terminal } : AcceptanceOperation).weight key ≤
      operation.weight key := by
  have hsize := AcceptanceTerminal.size_le hterminal
  simp only [AcceptanceOperation.weight, AcceptanceOperation.json, hopen, Option.isNone_some,
    Option.isNone_none, if_true, Bool.false_eq_true, if_false, jsonOption, utf8Size_jsonMember,
    utf8Size_jsonObject, map_cons, map_nil, sum_cons, sum_nil,
    length_cons, length_nil, utf8Size_null]
  omega

/-- Active evidence that is settled is no heavier. -/
theorem RequirementEvidence.weight_settled (requirement : String) {evidence : RequirementEvidence}
    (hactive : evidence.status = .active) (status : RequirementStatus) :
    ({ evidence with status } : RequirementEvidence).weight requirement ≤
      evidence.weight requirement := by
  have hsize := status.size_le
  simp only [RequirementEvidence.weight, RequirementEvidence.json, hactive, utf8Size_jsonMember,
    utf8Size_jsonObject, map_cons, map_nil, sum_cons, sum_nil,
    length_cons, length_nil, decide_true, if_true]
  by_cases hstatus : status = .active
  · subst hstatus
    simp
  · simp only [hstatus, decide_false, Bool.false_eq_true, if_false]
    omega

theorem AcceptanceSession.weight_evidence {key : String} {session : AcceptanceSession}
    {evidence : Table String RequirementEvidence} (hsize : evidence.size = session.evidence.size)
    (hweight : evidence.total RequirementEvidence.weight ≤
      session.evidence.total RequirementEvidence.weight) :
    ({ session with evidence } : AcceptanceSession).weight key ≤ session.weight key := by
  have hsplit : ∀ evidence : Table String RequirementEvidence,
      utf8Size (jsonMap RequirementEvidence.json evidence) +
          (evidence.values.filter (·.status = .active)).length * evidenceStatusHeadroomBytes =
        evidence.total RequirementEvidence.weight + (evidence.size - 1) + 2 := fun evidence => by
    have htotal := Table.total_add
      (fun key (row : RequirementEvidence) => utf8Size (jsonMember (key, row.json)))
      (fun _ row => if decide (row.status = .active) then evidenceStatusHeadroomBytes else 0)
      evidence
    unfold RequirementEvidence.weight
    rw [utf8Size_jsonMap, Table.length_filter_values_mul, ← htotal]
    omega
  have hold := hsplit session.evidence
  have hnew := hsplit evidence
  rw [hsize] at hnew
  simp only [AcceptanceSession.weight, AcceptanceSession.json, AcceptanceSession.activeEvidence,
    utf8Size_jsonMember, utf8Size_jsonObject, map_append, sum_append, map_cons,
    map_nil, sum_cons, sum_nil]
  simp only [length_append, length_cons, length_nil]
  omega

theorem AcceptanceSession.weight_cleared : ({ session with
      evidence := ∅, claimedSources := [], claimedSourcesGeneration := none } :
      AcceptanceSession).weight key ≤ session.weight key := by
  have hevidence : jsonMap RequirementEvidence.json ∅ = ['\x7b', '\x7d'] := rfl
  have hsources : jsonSet [] = ['[', ']'] := rfl
  have hempty : utf8Size ['\x7b', '\x7d'] = 2 ∧ utf8Size ['[', ']'] = 2 := by decide
  have hmap : 2 ≤ utf8Size (jsonMap RequirementEvidence.json session.evidence) := by
    rw [utf8Size_jsonMap]
    omega
  have hset : 2 ≤ utf8Size (jsonSet session.claimedSources) := by
    have hbrackets : Char.utf8Size '[' = 1 ∧ Char.utf8Size ']' = 1 := by decide
    simp only [jsonSet, jsonArray, utf8Size_append, utf8Size_cons, utf8Size_nil, hbrackets]
    omega
  have hactive : ({ session with
      evidence := ∅, claimedSources := [], claimedSourcesGeneration := none } :
      AcceptanceSession).activeEvidence = [] := rfl
  simp only [AcceptanceSession.weight, AcceptanceSession.json, utf8Size_jsonMember,
    utf8Size_jsonObject, map_append, sum_append, map_cons, map_nil,
    sum_cons, sum_nil, hevidence, hsources, hempty, hactive, Option.map_none,
    Option.toList_none]
  simp only [length_append, length_cons, length_nil]
  omega

end NilsCli.FinishLine
