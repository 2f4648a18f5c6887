import NilsCli.Review.Append
import NilsCli.Review.Markers
import NilsCli.Review.Receipts

/-!
# The comment of a record

A record is kept in a comment: a sentence that a person reads, and under it a marker with the JSON of
the record in hexadecimal digits.
-/

namespace NilsCli.Review

open Lib

variable (bytes : List UInt8) (state : ReviewLoopState) (json : RecordJson) (record : LoopRecord)

/-! ## Hexadecimal digits -/

/-- The digits of a byte, `{byte:02x}`. -/
def hexByte (b : UInt8) : List Char := [Nat.digitChar (b.toNat / 16), Nat.digitChar (b.toNat % 16)]

def hexEncode : List Char := bytes.flatMap hexByte

def isHexLower (c : Char) : Bool := isAsciiDigit c || charIn 'a' 'f' c

/-- The value of a digit, `u8::from_str_radix`. -/
def hexValue (c : Char) : Nat := if isAsciiDigit c then c.toNat - 48 else c.toNat - 87

/-- The bytes of the digits, two by two. -/
def hexPairs : List Char → List UInt8
  | high :: low :: rest => UInt8.ofNat (16 * hexValue high + hexValue low) :: hexPairs rest
  | _ => []

def notCanonicalHex : ForgeError := stateConflict "review-state marker payload is not canonical hex"

def hexDecode (encoded : List Char) : Except ForgeError (List UInt8) :=
  if encoded = [] ∨ encoded.length % 2 ≠ 0 ∨ ¬ encoded.all isHexLower then .error notCanonicalHex
  else .ok (hexPairs encoded)

theorem digitChar_lower : ∀ n < 16, isHexLower (Nat.digitChar n) = true ∧
    hexValue (Nat.digitChar n) = n := by
  decide

theorem hexPairs_hexEncode : hexPairs (hexEncode bytes) = bytes := by
  induction bytes with
  | nil => rfl
  | cons b bytes ih =>
    have hb : b.toNat < 256 := b.toNat_lt
    have hcons : hexEncode (b :: bytes) =
        Nat.digitChar (b.toNat / 16) :: Nat.digitChar (b.toNat % 16) :: hexEncode bytes := rfl
    rw [hcons, hexPairs, ih, (digitChar_lower _ (by omega)).2, (digitChar_lower _ (by omega)).2,
      Nat.div_add_mod, UInt8.ofNat_toNat]

theorem hexEncode_lower : (hexEncode bytes).all isHexLower = true := by
  refine List.all_eq_true.mpr fun c hc => ?_
  obtain ⟨b, -, hb⟩ := List.mem_flatMap.mp hc
  have hlt : b.toNat < 256 := b.toNat_lt
  simp only [hexByte, List.mem_cons, List.not_mem_nil, or_false] at hb
  rcases hb with rfl | rfl
  · exact (digitChar_lower _ (by omega)).1
  · exact (digitChar_lower _ (by omega)).1

theorem length_hexEncode : (hexEncode bytes).length = 2 * bytes.length := by
  induction bytes with
  | nil => rfl
  | cons b bytes ih =>
    show (hexEncode bytes).length + 1 + 1 = 2 * (bytes.length + 1)
    omega

theorem hexDecode_hexEncode {bytes : List UInt8} (h : bytes ≠ []) :
    hexDecode (hexEncode bytes) = .ok bytes := by
  have hlength := length_hexEncode bytes
  have hne : hexEncode bytes ≠ [] := by
    rintro hnil
    rw [hnil, List.length_nil] at hlength
    exact h (List.eq_nil_of_length_eq_zero (by omega))
  have hcond : ¬ (hexEncode bytes = [] ∨ (hexEncode bytes).length % 2 ≠ 0 ∨
      ¬ (hexEncode bytes).all isHexLower) := by
    rw [hexEncode_lower, hlength]
    simp [hne]
  rw [hexDecode, if_neg hcond, hexPairs_hexEncode]

theorem digitChar_hexValue {c : Char} (h : isHexLower c = true) :
    hexValue c < 16 ∧ Nat.digitChar (hexValue c) = c := by
  have hchar : Char.ofNat c.toNat = c := Char.ofNat_toNat c
  have hall : ∀ n < 128, isHexLower (Char.ofNat n) = true → hexValue (Char.ofNat n) < 16 ∧
      Nat.digitChar (hexValue (Char.ofNat n)) = Char.ofNat n := by decide +kernel
  have hlt : c.toNat < 128 := by
    simp only [isHexLower, isAsciiDigit, charIn, Bool.or_eq_true, decide_eq_true_eq] at h
    have h9 : '9'.toNat = 57 := rfl
    have hf : 'f'.toNat = 102 := rfl
    omega
  have hc := hall c.toNat hlt
  rw [hchar] at hc
  exact hc h

theorem hexEncode_hexPairs : ∀ {encoded : List Char}, encoded.length % 2 = 0 →
    (∀ c ∈ encoded, isHexLower c = true) → hexEncode (hexPairs encoded) = encoded
  | [], _, _ => rfl
  | [_], h, _ => by simp at h
  | high :: low :: rest, h, hall => by
    obtain ⟨hhigh, hhigh'⟩ := digitChar_hexValue (hall high (by simp))
    obtain ⟨hlow, hlow'⟩ := digitChar_hexValue (hall low (by simp))
    have hrest : hexEncode (hexPairs rest) = rest := by
      refine hexEncode_hexPairs ?_ fun c hc => hall c (by simp [hc])
      simp only [List.length_cons] at h
      omega
    have hbyte : (UInt8.ofNat (16 * hexValue high + hexValue low)).toNat =
        16 * hexValue high + hexValue low := by
      rw [UInt8.toNat_ofNat']
      exact Nat.mod_eq_of_lt (by omega)
    have hcons : hexEncode (hexPairs (high :: low :: rest)) =
        hexByte (UInt8.ofNat (16 * hexValue high + hexValue low)) ++ hexEncode (hexPairs rest) := rfl
    have hdiv : (16 * hexValue high + hexValue low) / 16 = hexValue high := by omega
    have hmod : (16 * hexValue high + hexValue low) % 16 = hexValue low := by omega
    rw [hcons, hrest, hexByte, hbyte, hdiv, hmod, hhigh', hlow']
    rfl

theorem hexEncode_of_hexDecode {encoded : List Char} {bytes : List UInt8}
    (h : hexDecode encoded = .ok bytes) : hexEncode bytes = encoded := by
  unfold hexDecode at h
  split at h
  next => cases h
  next hcond =>
    cases h
    simp only [not_or, not_not] at hcond
    exact hexEncode_hexPairs hcond.2.1 (List.all_eq_true.mp hcond.2.2)

/-! ## The sentence -/

def shortSha (sha : String) : String :=
  if sha.utf8ByteSize = 40 ∧ sha.toList.all isAsciiHexDigit then .ofList (sha.toList.take 7)
  else "unknown"

def safeCategories : List String :=
  ["api-contract", "correctness", "maintainability", "performance", "reliability", "security",
    "testing", "usability"]

/-- The category of a finding, as it is shown. -/
def visibleCategory (fingerprint : String) : String :=
  let category := (splitAt fingerprint ':').head?.getD ""
  if safeCategories.contains category then category else "other"

def openRows (blocking : Bool) : List (String × ReviewLoopFinding) :=
  state.findings.rows.filter fun row => row.2.status = .open_ && row.2.blocking = blocking

def visibleFindingCategories (blocking : Bool) : String :=
  let categories := sortDedup ((openRows state blocking).map fun row => visibleCategory row.1)
  .ofList ([',', ' '].intercalate (categories.map (·.toList)))

def countedFindings (blocking : Bool) (label : String) : String :=
  let categories := visibleFindingCategories state blocking
  if categories = "" then "0 " ++ label
  else toString (openRows state blocking).length ++ " " ++ label ++ " (" ++ categories ++ ")"

/-- The sentence of an ordinary state. -/
def loopSentence : String :=
  match state.hardStop with
  | some stop =>
    if stop.extensionApplied then
      "Review budget extension recorded at head " ++ shortSha stop.attemptedHeadSha ++
        ". Resume the review observation before merge."
    else
      "Review paused at head " ++ shortSha stop.attemptedHeadSha ++
        " by a review budget stop. Resolve the stop before continuing."
  | none =>
    if 0 < (openRows state true).length + (openRows state false).length then
      "Review findings recorded at head " ++ shortSha state.headSha ++ ": " ++
        countedFindings state true "blocking" ++ ", " ++
        countedFindings state false "non-blocking" ++
        ". The author may fix only these findings; the same reviewer re-checks the fix."
    else
      let fixed := state.findings.values.countP fun finding => finding.status = .fixed
      "Review closed at head " ++ shortSha state.headSha ++ ": " ++ toString fixed ++ " " ++
        (if fixed = 1 then "finding" else "findings") ++ " fixed, 0 open. Ready for merge checks."

/-- The sentence of a handoff. -/
def handoffSentence (handoff : ReviewHandoff) : String :=
  if handoff.coordinatorTransfer.isSome then
    "Coordinator ownership transferred (coordinator-retired); review assignment generation " ++
      toString handoff.assignmentGeneration ++ " revoked. Findings remain in this ledger."
  else if handoff.surrendered then
    "Reviewer released this assignment at head " ++ shortSha handoff.assignedHead ++
      ". Waiting for reassignment."
  else if handoff.returnedReason.isSome then
    "Review assignment recovered at head " ++ shortSha handoff.assignedHead ++
      ". Waiting for reassignment."
  else
    "Review assigned to " ++ handoff.reviewAuthor ++ " for head " ++ shortSha handoff.assignedHead ++
      " (base " ++ shortSha handoff.baseSha ++
      "). Only this exact head is under review; a new push needs re-review before merge."

def acceptanceSentence (acceptance : AcceptanceReceipt) : String :=
  "Review accepted risk recorded at head " ++ shortSha state.headSha ++ ": " ++
    toString acceptance.acceptedFingerprints.length ++
    " findings accepted; original stop, counters, and budgets retained. Approval: "

/-- `state_comment_visible_metadata`. -/
def stateCommentVisibleMetadata : Option String :=
  match record.payload with
  | .reviewRunReceipt (.run receipt) =>
    some ("Review receipt recorded at head " ++ shortSha receipt.expectedHead ++
      ". Follow the review findings before merge.")
  | .reviewLoopAcceptance state (.acceptance acceptance) =>
    some (acceptanceSentence state acceptance ++ acceptance.approvalReference ++ ".")
  | .reviewLoopSupersession state (.supersession supersession) =>
    state.hardStop.map fun stop =>
      "Review stop superseded from head " ++ shortSha supersession.fromHead ++ " to head " ++
        shortSha stop.attemptedHeadSha ++
        ". A new maintainer approval is required before resume."
  | .reviewLoopCorrection state (.correction correction) =>
    some ("Review correction recorded at head " ++ shortSha state.headSha ++ ": " ++
      toString correction.restoredFindings.length ++
      " omitted findings restored; prior history and budgets retained." ++
      (if state.hardStop.isSome then " Review remains paused by its budget stop." else ""))
  | .reviewLoop state => some (loopSentence state)
  | .reviewHandoff handoff => some (handoffSentence handoff)
  | .reviewSyncCarryOver carryOver =>
    some ("Designated review pass at head " ++ shortSha carryOver.reviewedHead ++
      " carried to head " ++ shortSha carryOver.head ++ ": a clean merge of base " ++
      shortSha carryOver.baseCommit ++ " with an identical tree. Ready for merge checks.")
  | _ => none

/-! ## The comment -/

structure RecordJson where
  toJson : LoopRecord → String
  fromJson : String → Option LoopRecord

def maxProviderStateMarkerBytes : Nat := 64 * 1024

def maxProviderStateCommentBytes : Nat := 64 * 1024

/-- `str::len`. -/
def byteLength (text : List Char) : Nat := (String.ofList text).utf8ByteSize

/-- `ReviewStateRecord::marker`. -/
def stateMarker : Except ForgeError (List Char) := do
  let marker := stateMarkerOpen ++ hexEncode (json.toJson record).toByteArray.data.toList ++ markerClose
  ensure (byteLength marker ≤ maxProviderStateMarkerBytes) (fail "review_state_record_too_large"
    "the provider-visible review-state record exceeds the safe comment-body limit")
  .ok marker

def commentTooLarge (message : String) : ForgeError := fail "review_state_comment_too_large" message

def commentInvalid (message : String) : ForgeError := fail "review_state_comment_invalid" message

def validateOutcomeBody (outcome : List Char) : Except ForgeError (List Char) := do
  let body := trimmed outcome
  ensure (body ≠ []) (commentInvalid "the review-loop outcome body is empty")
  ensure (¬ body.tails.any stateMarkerOpen.isPrefixOf)
    (commentInvalid "the review-loop outcome body must not contain a review-state marker")
  ensure (¬ body.tails.any ['<', '!', '-', '-'].isPrefixOf)
    (commentInvalid "the review-loop outcome body must not contain an HTML comment")
  ensure (byteLength body ≤ maxProviderStateCommentBytes)
    (commentTooLarge "the review-loop outcome body exceeds the safe comment-body limit")
  .ok body

/-- What follows the marker in a body. -/
def outcomeText (visibleOutcome : Option (List Char)) : Except ForgeError (List Char) :=
  match visibleOutcome with
  | some outcome => (validateOutcomeBody outcome).map ("\n\n---\n\n".toList ++ ·)
  | none => .ok []

def renderStateCommentBody
    (visibleOutcome : Option (List Char)) : Option (Except ForgeError (List Char)) :=
  match stateMarker json record with
  | .error error => some (.error error)
  | .ok marker =>
    (stateCommentVisibleMetadata record).map fun metadata => do
      let outcome ← outcomeText visibleOutcome
      let body := metadata.toList ++ '\n' :: (marker ++ outcome)
      ensure (byteLength body ≤ maxProviderStateCommentBytes) (commentTooLarge
        "the complete provider review-state comment body exceeds the safe comment-body limit")
      .ok body

def parseStateMarker (body : List Char) : Except ForgeError (Option LoopRecord) :=
  match splitOnce stateMarkerOpen body with
  | none => .ok none
  | some (_, payload) => do
    let (encoded, _) ← orErr (splitOnce markerClose payload)
      (stateConflict "review-state marker is unterminated")
    let bytes ← hexDecode encoded
    let text ← orErr (String.fromUTF8? ⟨bytes.toArray⟩)
      (stateConflict "review-state marker payload is not UTF-8")
    let record ← orErr (json.fromJson text)
      (stateConflict "review-state marker payload does not match the current record contract; ask the reviewer or steward to coordinate current input; never rewrite retained ledgers")
    .ok (some record)

end NilsCli.Review
