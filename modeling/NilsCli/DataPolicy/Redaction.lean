import NilsCli.DataPolicy.Classify

/-!
# What redaction leaves

`scan` finds a class in a text of its own, in the joined texts of an array, or, for sensitive data,
in a key that governs a value (`contains_scan`).
-/

namespace NilsCli.DataPolicy

open Lib List

/-! ## What a payload holds -/

mutual

/-- The texts in a value. -/
def texts : Value → List String
  | .string text => [text]
  | .array items => textsItems items
  | .object members => textsMembers members
  | .null => []
  | .bool _ => []
  | .number _ => []

def textsItems : List Value → List String
  | [] => []
  | item :: items => texts item ++ textsItems items

def textsMembers : List (String × Value) → List String
  | [] => []
  | (_, item) :: members => texts item ++ textsMembers members

end

mutual

/-- The joined texts of the arrays in a value. -/
def projections : Value → List String
  | .string _ => []
  | .array items =>
    (if items.length > 1 then (joined items).toList else []) ++ projectionsItems items
  | .object members => projectionsMembers members
  | .null => []
  | .bool _ => []
  | .number _ => []

def projectionsItems : List Value → List String
  | [] => []
  | item :: items => projections item ++ projectionsItems items

def projectionsMembers : List (String × Value) → List String
  | [] => []
  | (_, item) :: members => projections item ++ projectionsMembers members

end

mutual

/-- The values under a sensitive key. -/
def governed : Value → List Value
  | .string _ => []
  | .array items => governedItems items
  | .object members => governedMembers members
  | .null => []
  | .bool _ => []
  | .number _ => []

def governedItems : List Value → List Value
  | [] => []
  | item :: items => governed item ++ governedItems items

def governedMembers : List (String × Value) → List Value
  | [] => []
  | (key, item) :: members =>
    (if sensitiveKey key then [item] else governed item) ++ governedMembers members

end

/-- A text has a class by itself. -/
def hasClass (c : DataClass) (text : String) : Bool :=
  match c with
  | .sensitive => sensitiveValue text
  | .machineLocalPath => machineLocalPath text
  | .protectedRoot => false

/-! ## Scan -/

variable {c d : DataClass} {classes : Classes}

@[simp] theorem contains_insert : (classes.insert d).contains c ↔ c = d ∨ classes.contains c := by
  cases c <;> cases d <;> simp [Classes.insert, Classes.set, Classes.contains]

@[simp] theorem contains_empty : Classes.empty.contains c = false := by cases c <;> rfl

theorem contains_scanText {text : String} :
    (scanText text classes).contains c ↔ classes.contains c ∨ hasClass c text := by
  unfold scanText hasClass
  cases c <;> by_cases hs : sensitiveValue text = true <;>
    by_cases hp : machineLocalPath text = true <;> simp [hs, hp]

/-- What makes `scan` report a class: a sensitive key above the value or in it, or a text. -/
def Found (c : DataClass) (keySensitive : Prop) (under : List Value) (all : List String) : Prop :=
  (c = .sensitive ∧ (keySensitive ∨ under ≠ [])) ∨ ∃ text ∈ all, hasClass c text = true

theorem found_append {above : Prop} {under under' : List Value} {all all' more more' : List String} :
    Found c above (under ++ under') ((all ++ all') ++ (more ++ more')) ↔
      Found c above under (all ++ more) ∨ Found c above under' (all' ++ more') := by
  simp only [Found, mem_append, ne_eq, append_eq_nil_iff, not_and_or]
  grind

mutual

theorem contains_scan (value : Value) (keySensitive : Bool) (classes : Classes) :
    (scan value keySensitive classes).contains c ↔ classes.contains c ∨
      Found c (keySensitive = true) (governed value) (texts value ++ projections value) := by
  have habove : (if keySensitive then classes.insert .sensitive else classes).contains c ↔
      classes.contains c ∨ c = .sensitive ∧ keySensitive = true := by
    cases keySensitive <;> simp [or_comm]
  match value with
  | .null => simp [scan, habove, Found, governed, texts, projections]
  | .bool _ => simp [scan, habove, Found, governed, texts, projections]
  | .number _ => simp [scan, habove, Found, governed, texts, projections]
  | .string text =>
    simp only [scan, contains_scanText, habove, Found, governed, texts, projections,
      append_nil, mem_singleton, exists_eq_left, ne_eq, not_true_eq_false, or_false,
      or_assoc]
  | .array items =>
    have hitems := contains_scanItems items keySensitive
      (if keySensitive then classes.insert .sensitive else classes)
    rw [habove] at hitems
    simp only [scan, governed, texts, projections]
    by_cases hlen : items.length > 1
    · rw [if_pos hlen, if_pos hlen]
      cases joined items with
      | none =>
        rw [hitems, Option.toList_none, nil_append]
        unfold Found
        grind
      | some text =>
        simp only [contains_scanText, hitems, Option.toList_some]
        unfold Found
        grind
    · rw [if_neg hlen, if_neg hlen, hitems, nil_append]
      unfold Found
      grind
  | .object members =>
    have hmembers := contains_scanMembers members keySensitive
      (if keySensitive then classes.insert .sensitive else classes)
    rw [habove] at hmembers
    simp only [scan, governed, texts, projections]
    rw [hmembers]
    unfold Found
    grind

theorem contains_scanItems (items : List Value) (keySensitive : Bool) (classes : Classes) :
    (scanItems items keySensitive classes).contains c ↔ classes.contains c ∨
      Found c (keySensitive = true ∧ items ≠ []) (governedItems items)
        (textsItems items ++ projectionsItems items) := by
  match items with
  | [] => simp [scanItems, Found, governedItems, textsItems, projectionsItems]
  | item :: items =>
    rw [scanItems, contains_scanItems items, contains_scan item]
    simp only [governedItems, textsItems, projectionsItems, found_append]
    unfold Found
    grind

theorem contains_scanMembers (members : List (String × Value)) (keySensitive : Bool)
    (classes : Classes) :
    (scanMembers members keySensitive classes).contains c ↔ classes.contains c ∨
      Found c (keySensitive = true ∧ members ≠ []) (governedMembers members)
        (textsMembers members ++ projectionsMembers members) := by
  match members with
  | [] => simp [scanMembers, Found, governedMembers, textsMembers, projectionsMembers]
  | (key, item) :: members =>
    rw [scanMembers, contains_scanMembers members, contains_scan item]
    simp only [governedMembers, textsMembers, projectionsMembers, found_append, Bool.or_eq_true]
    unfold Found
    by_cases hkey : sensitiveKey key = true
    · simp only [hkey, if_true]
      grind
    · simp only [hkey]
      grind

end

/-! ## Redaction -/

theorem hasClass_token : hasClass c redactedSensitive = false ∧ hasClass c redactedPath = false := by
  cases c <;> decide +kernel

mutual

theorem texts_redact (value : Value) (keySensitive : Bool) (classes : Classes)
    (hc : classes.contains c = true) (text : String)
    (h : text ∈ texts (redact value keySensitive classes)) : hasClass c text = false := by
  unfold redact at h
  split at h
  · obtain rfl : text = redactedSensitive := by simpa [texts] using h
    exact hasClass_token.1
  · match value with
    | .null => simp [texts] at h
    | .bool _ => simp [texts] at h
    | .number _ => simp [texts] at h
    | .string original =>
      simp only at h
      split at h
      · obtain rfl : text = redactedSensitive := by simpa [texts] using h
        exact hasClass_token.1
      · next hsensitive =>
        split at h
        · obtain rfl : text = redactedPath := by simpa [texts] using h
          exact hasClass_token.2
        · next hpath =>
          obtain rfl : text = original := by simpa [texts] using h
          cases c with
          | sensitive => simpa [hc, hasClass] using hsensitive
          | machineLocalPath => simpa [hc, hasClass] using hpath
          | protectedRoot => rfl
    | .array items => exact texts_redactItems items keySensitive classes hc text h
    | .object members => exact texts_redactMembers members keySensitive classes hc text h

theorem texts_redactItems (items : List Value) (keySensitive : Bool) (classes : Classes)
    (hc : classes.contains c = true) (text : String)
    (h : text ∈ textsItems (redactItems items keySensitive classes)) : hasClass c text = false := by
  match items with
  | [] => simp [redactItems, textsItems] at h
  | item :: items =>
    rw [redactItems, textsItems, mem_append] at h
    rcases h with h | h
    · exact texts_redact item keySensitive classes hc text h
    · exact texts_redactItems items keySensitive classes hc text h

theorem texts_redactMembers (members : List (String × Value)) (keySensitive : Bool)
    (classes : Classes) (hc : classes.contains c = true) (text : String)
    (h : text ∈ textsMembers (redactMembers members keySensitive classes)) :
    hasClass c text = false := by
  match members with
  | [] => simp [redactMembers, textsMembers] at h
  | (key, item) :: members =>
    rw [redactMembers, textsMembers, mem_append] at h
    rcases h with h | h
    · exact texts_redact item (keySensitive || sensitiveKey key) classes hc text h
    · exact texts_redactMembers members keySensitive classes hc text h

end

mutual

theorem governed_redact (value : Value) (classes : Classes)
    (hc : classes.contains .sensitive = true) :
    governed (redact value false classes) =
      (governed value).map fun _ => .string redactedSensitive := by
  match value with
  | .null => rfl
  | .bool _ => rfl
  | .number _ => rfl
  | .string text =>
    unfold redact
    simp only [Bool.false_and, Bool.false_eq_true, if_false]
    split
    · rfl
    · split <;> rfl
  | .array items => exact governed_redactItems items classes hc
  | .object members => exact governed_redactMembers members classes hc

theorem governed_redactItems (items : List Value) (classes : Classes)
    (hc : classes.contains .sensitive = true) :
    governedItems (redactItems items false classes) =
      (governedItems items).map fun _ => .string redactedSensitive := by
  match items with
  | [] => rfl
  | item :: items =>
    rw [redactItems, governedItems, governedItems, map_append, governed_redact item classes hc,
      governed_redactItems items classes hc]

theorem governed_redactMembers (members : List (String × Value)) (classes : Classes)
    (hc : classes.contains .sensitive = true) :
    governedMembers (redactMembers members false classes) =
      (governedMembers members).map fun _ => .string redactedSensitive := by
  match members with
  | [] => rfl
  | (key, item) :: members =>
    rw [redactMembers, governedMembers, governedMembers, map_append,
      governed_redactMembers members classes hc]
    by_cases hkey : sensitiveKey key = true
    · have htoken : redact item (false || sensitiveKey key) classes =
          .string redactedSensitive := by
        unfold redact
        rw [if_pos (by simp [hkey, hc])]
      rw [if_pos hkey, if_pos hkey, htoken]
      rfl
    · have hplain : (false || sensitiveKey key) = false := by simpa using hkey
      rw [if_neg hkey, if_neg hkey, hplain, governed_redact item classes hc]

end

def Decision.names (decision : Decision) (c : DataClass) : Prop := c.asStr ∈ decision.audit.classes

instance {decision : Decision} : Decidable (decision.names c) :=
  inferInstanceAs (Decidable (c.asStr ∈ decision.audit.classes))

theorem asStr_mem {c : DataClass} : c.asStr ∈ classes.toList.map DataClass.asStr ↔
    classes.contains c = true := by
  have hinj : ∀ d : DataClass, d.asStr = c.asStr → d = c := by
    intro d h
    cases c <;> cases d <;> first | rfl | exact absurd h (by decide)
  constructor
  · intro h
    obtain ⟨d, hd, heq⟩ := List.mem_map.mp h
    obtain rfl := hinj d heq
    exact (List.mem_filter.mp hd).2
  · intro h
    refine mem_map_of_mem (List.mem_filter.mpr ⟨?_, h⟩)
    cases c <;> simp

theorem evaluate_redact {digests : Digests} {request : Request} {decision : Decision}
    (h : evaluate digests request = .ok decision) (haction : decision.action = .redact) :
    decision.replacement = some (redact request.payload false (requestClasses request)) ∧
      decision.audit.classes = (requestClasses request).toList.map DataClass.asStr := by
  obtain ⟨-, -, h⟩ := bind_eq_ok.mp h
  cases h
  refine ⟨?_, rfl⟩
  simp only at haction ⊢
  rw [haction]

/-- Where a decision redacts, no text of the replacement has one of its classes by itself, and every
value under a governed key is the token if one of them is the sensitive class. The same scan finds a
class of the decision again only in a governed key, which stays, and in the joined texts of an
array. -/
theorem redaction_removes (digests : Digests) (request : Request) (decision : Decision)
    (h : evaluate digests request = .ok decision) (haction : decision.action = .redact) :
    ∃ replacement, decision.replacement = some replacement ∧ ∀ c : DataClass, decision.names c →
      (∀ text ∈ texts replacement, hasClass c text = false) ∧
        (c = .sensitive → ∀ value ∈ governed replacement, value = .string redactedSensitive) ∧
        ((scan replacement false .empty).contains c ↔
          c = .sensitive ∧ governed request.payload ≠ [] ∨
            ∃ text ∈ projections replacement, hasClass c text = true) := by
  obtain ⟨hreplacement, hclasses⟩ := evaluate_redact h haction
  refine ⟨_, hreplacement, fun c hc => ?_⟩
  have hcontains : (requestClasses request).contains c = true := by
    rw [← asStr_mem, ← hclasses]
    exact hc
  have htexts := texts_redact (c := c) request.payload false _ hcontains
  refine ⟨htexts, ?_, ?_⟩
  · rintro rfl value hvalue
    rw [governed_redact request.payload _ hcontains] at hvalue
    obtain ⟨-, -, rfl⟩ := List.mem_map.mp hvalue
    rfl
  · rw [contains_scan]
    have hgoverned : c = .sensitive →
        (governed (redact request.payload false (requestClasses request)) = [] ↔
          governed request.payload = []) := by
      rintro rfl
      rw [governed_redact request.payload _ hcontains, List.map_eq_nil_iff]
    simp only [Found, contains_empty, Bool.false_eq_true, false_or, List.mem_append]
    grind

/-- A token that is sensitive for its key only. -/
def keyedRequest : Request where
  schemaVersion := requestSchema
  phase := .preCall
  sourceId := "source"
  sinkId := "sink"
  identity := {
    sessionId := "session-1"
    workspaceDigest := "sha256:0000000000000000000000000000000000000000000000000000000000000000"
    workspaceGeneration := "1"
    callId := "call-1"
    rootCallId := "call-1"
    parentCallId := none
    turn := 1
    step := 1 }
  rules := [⟨"data.sensitive.redact", .sensitive, .redact⟩]
  payload := .object [("token", .string "synthetic")]

def keyedDigests : Digests where
  requestId _ := "request:cd6c36e4af539c7da8e457d3652b2637"
  payload _ := "sha256:fc5f778e949511baac106ecdb3bf8088602f4852e35fb930a0af9251f6d7343e"
  binding _ _ := "sha256:a815ae327dffabb7e93d4e833f1f0a226e2da99f974bdc5b0b27a4b530640401"

theorem validate_keyedRequest : validate keyedRequest = .ok () := by decide +kernel

theorem exists_keyedDecision : ∃ decision, evaluate keyedDigests keyedRequest = .ok decision ∧
    decision.action = .redact ∧ decision.names .sensitive := by
  unfold evaluate
  rw [validate_keyedRequest]
  exact ⟨_, rfl, by decide +kernel, by decide +kernel⟩

theorem redaction_removes_keyed :
    ∃ decision, evaluate keyedDigests keyedRequest = .ok decision ∧ decision.action = .redact ∧
      ∃ replacement, decision.replacement = some replacement ∧
        ∀ c : DataClass, decision.names c →
          (∀ text ∈ texts replacement, hasClass c text = false) ∧
            (c = .sensitive → ∀ value ∈ governed replacement,
              value = .string redactedSensitive) ∧
            ((scan replacement false .empty).contains c ↔
              c = .sensitive ∧ governed keyedRequest.payload ≠ [] ∨
                ∃ text ∈ projections replacement, hasClass c text = true) := by
  obtain ⟨decision, h, haction, -⟩ := exists_keyedDecision
  exact ⟨decision, h, haction, redaction_removes keyedDigests keyedRequest decision h haction⟩

/-- The replacement keeps the key, so the same scan finds it sensitive again. -/
theorem governed_key_found_again :
    ∃ decision replacement, evaluate keyedDigests keyedRequest = .ok decision ∧
      decision.action = .redact ∧ decision.replacement = some replacement ∧
      decision.names .sensitive ∧ (scan replacement false .empty).contains .sensitive = true := by
  obtain ⟨decision, h, haction, hnames⟩ := exists_keyedDecision
  obtain ⟨hreplacement, -⟩ := evaluate_redact h haction
  exact ⟨decision, _, h, haction, hreplacement, hnames, by decide +kernel⟩

end NilsCli.DataPolicy
