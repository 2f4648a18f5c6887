import NilsCli.Review.OpenFindings
import NilsCli.Review.OwnedMarkers
import NilsCli.Review.StateComments

/-!
# Reading a record back from its comment

The first marker text of a comment is the record's own (`state_comment_round_trip`): of the fields that
the sentence is made of only the approval reference of an acceptance can hold marker text.
-/

namespace NilsCli.Review

open Lib List

variable {c : Char} {texts : Host ReviewLoopState LoopReceipt} {handoff : ReviewHandoff}
  {pattern : List Char}

variable {json : RecordJson} {record : LoopRecord} {sentence : String} {text after : List Char}

variable (s : String) (state : ReviewLoopState)

/-! ## Sentences -/

/-- A text that begins no HTML comment. -/
def Plain : Prop := '<' ∉ s.toList

instance (s : String) : Decidable (Plain s) := inferInstanceAs (Decidable ('<' ∉ s.toList))

@[simp]
theorem plain_append {s t : String} : Plain (s ++ t) ↔ Plain s ∧ Plain t := by
  unfold Plain
  rw [String.toList_append, mem_append, not_or]

@[simp]
theorem plain_repr (n : Nat) : Plain n.repr := by
  intro hmem
  have hdigits : n.repr.toList = Nat.toDigits 10 n := by simp
  rw [hdigits] at hmem
  exact absurd (isAsciiDigit_of_mem_toDigits hmem) (by decide)

@[simp]
theorem plain_shortSha (sha : String) : Plain (shortSha sha) := by
  unfold shortSha
  split
  next h =>
    intro hmem
    rw [String.toList_ofList] at hmem
    exact absurd (List.all_eq_true.mp h.2 '<' (mem_of_mem_take hmem)) (by decide)
  next => decide

theorem plain_visibleCategory (fingerprint : String) : Plain (visibleCategory fingerprint) := by
  have hsafe : ∀ category ∈ safeCategories, Plain category := by decide
  unfold visibleCategory
  dsimp only
  split
  next h => exact hsafe _ (List.contains_iff_mem.mp h)
  next => decide

theorem not_mem_intercalate {sep : List Char} {parts : List (List Char)} (hsep : c ∉ sep)
    (h : ∀ part ∈ parts, c ∉ part) : c ∉ sep.intercalate parts := by
  induction parts with
  | nil => simp
  | cons part parts ih =>
    rw [forall_mem_cons] at h
    cases parts with
    | nil => simpa using h.1
    | cons next parts =>
      rw [intercalate_cons_cons]
      simp only [mem_append, not_or]
      exact ⟨⟨h.1, hsep⟩, ih h.2⟩

@[simp]
theorem plain_categories (blocking : Bool) : Plain (visibleFindingCategories state blocking) := by
  unfold Plain visibleFindingCategories
  dsimp only
  rw [String.toList_ofList]
  refine not_mem_intercalate (by decide) fun part hpart => ?_
  obtain ⟨category, hcategory, rfl⟩ := List.mem_map.mp hpart
  obtain ⟨row, -, rfl⟩ := List.mem_map.mp (mem_sortDedup.mp hcategory)
  exact plain_visibleCategory row.1

@[simp]
theorem plain_countedFindings (blocking : Bool) {label : String}
    (h : Plain label) : Plain (countedFindings state blocking label) := by
  unfold countedFindings
  dsimp only
  split <;> simp +decide [h]

theorem plain_loopSentence : Plain (loopSentence state) := by
  have hblocking : Plain "blocking" := by decide
  have hnonBlocking : Plain "non-blocking" := by decide
  unfold loopSentence
  split
  next stop _ => split <;> simp +decide
  next =>
    split
    · simp +decide [hblocking, hnonBlocking]
    · dsimp only
      split <;> simp +decide

theorem plain_reviewAuthor
    (h : validateHandoff texts handoff = .ok ()) : Plain handoff.reviewAuthor := by
  obtain ⟨-, -, -, -, -, -, -, -, -, -, -, -, hchars, -⟩ := ensure_eq_ok.mp h
  intro hmem
  exact absurd (List.all_eq_true.mp hchars '<' hmem) (by decide)

theorem plain_handoffSentence (h : Plain handoff.reviewAuthor) :
    Plain (handoffSentence handoff) := by
  unfold handoffSentence
  split
  · simp +decide
  · split
    · simp +decide
    · split
      · simp +decide
      · simp +decide [h]

theorem plain_acceptanceSentence (acceptance : AcceptanceReceipt) :
    Plain (acceptanceSentence state acceptance) := by
  unfold acceptanceSentence
  simp +decide

theorem sentence_cases (h : stateCommentVisibleMetadata record = some sentence)
    (hhandoff : ∀ handoff, record.payload = .reviewHandoff handoff →
      validateHandoff texts handoff = .ok ()) :
    Plain sentence ∨ ∃ state acceptance,
      record.payload = .reviewLoopAcceptance state (.acceptance acceptance) ∧
        sentence = acceptanceSentence state acceptance ++ acceptance.approvalReference ++ "." := by
  unfold stateCommentVisibleMetadata at h
  split at h
  next receipt _ =>
    cases h
    exact .inl (by simp +decide)
  next state acceptance hpayload =>
    cases h
    exact .inr ⟨state, acceptance, hpayload, rfl⟩
  next state supersession _ =>
    obtain ⟨stop, -, rfl⟩ := Option.map_eq_some_iff.mp h
    exact .inl (by simp +decide)
  next state correction _ =>
    cases h
    refine .inl ?_
    cases state.hardStop <;> simp +decide
  next state _ =>
    cases h
    exact .inl (plain_loopSentence state)
  next handoff hpayload =>
    cases h
    exact .inl (plain_handoffSentence (plain_reviewAuthor (hhandoff handoff hpayload)))
  next carryOver _ =>
    cases h
    exact .inl (by simp +decide)
  next => cases h

/-! ## The first marker -/

theorem infix_of_infix_append {before : List Char} (hc : c ∉ before)
    (h : c :: pattern <:+: before ++ text) : c :: pattern <:+: text := by
  induction before with
  | nil => exact h
  | cons d before ih =>
    rw [mem_cons, not_or] at hc
    rcases List.infix_cons_iff.mp h with hprefix | hinfix
    · exact absurd (List.cons_prefix_cons.mp hprefix).1 hc.1
    · exact ih hc.2 hinfix

theorem not_infix_of_plain (h : Plain sentence) : ¬ stateMarkerOpen <:+: sentence.toList := fun hin =>
  h (hin.subset (by decide))

theorem not_infix_acceptance {state : ReviewLoopState} {acceptance : AcceptanceReceipt}
    (h : ¬ stateMarkerOpen <:+: acceptance.approvalReference.toList) :
    ¬ stateMarkerOpen <:+:
      (acceptanceSentence state acceptance ++ acceptance.approvalReference ++ ".").toList := by
  intro hin
  rw [String.toList_append, String.toList_append, append_assoc] at hin
  have hrest : stateMarkerOpen <:+: acceptance.approvalReference.toList ++ ['.'] :=
    infix_of_infix_append (plain_acceptanceSentence state acceptance) hin
  rcases List.infix_concat_iff.mp hrest with hsuffix | hinfix
  · have hlast := hsuffix.getLast (by decide)
    rw [getLast_append_singleton] at hlast
    exact absurd hlast (by decide)
  · exact h hinfix

theorem splitOnce_of_not_infix (hfeed : '\n' ∉ c :: pattern)
    (h : ¬ c :: pattern <:+: text) (after : List Char) :
    splitOnce (c :: pattern) (text ++ '\n' :: (c :: pattern ++ after)) =
      some (text ++ ['\n'], after) := by
  induction text with
  | nil =>
    have hc : '\n' ≠ c := fun heq => hfeed (heq ▸ mem_cons_self)
    have hfirst : splitOnce (c :: pattern) (['\n'] ++ (c :: pattern) ++ after) =
        some (['\n'], after) := splitOnce_append (by simpa using Ne.symm hc) after
    simpa using hfirst
  | cons d text ih =>
    have hrest : ¬ c :: pattern <:+: text := fun hin => h (hin.trans (suffix_cons d text).isInfix)
    have hprefix : ¬ (c :: pattern).isPrefixOf
        (d :: (text ++ '\n' :: (c :: pattern ++ after))) = true := by
      intro hprefix
      have hpre : c :: pattern <+: d :: text ++ '\n' :: (c :: pattern ++ after) :=
        List.isPrefixOf_iff_prefix.mp hprefix
      rcases prefix_or_prefix_of_prefix hpre (prefix_append (d :: text) _) with hle | hle
      · exact h hle.isInfix
      · obtain ⟨rest, hrest⟩ := hle
        rw [← hrest, prefix_append_right_inj] at hpre
        cases rest with
        | nil =>
          rw [append_nil] at hrest
          exact h (hrest ▸ infix_refl _)
        | cons e rest =>
          have he : e = '\n' := (List.cons_prefix_cons.mp hpre).1
          refine hfeed ?_
          rw [← hrest, he]
          simp
    rw [cons_append, splitOnce, if_neg hprefix, ih hrest]
    rfl

/-! ## Result -/

theorem fromUTF8_toByteArray : String.fromUTF8? ⟨s.toByteArray.data.toList.toArray⟩ = some s := by
  have hbytes : (⟨s.toByteArray.data.toList.toArray⟩ : ByteArray) = s.toByteArray := by
    rw [Array.toArray_toList]
  rw [hbytes, String.fromUTF8?, dif_pos s.isValidUTF8]
  rfl

theorem parseStateMarker_body (hsentence : ¬ stateMarkerOpen <:+: sentence.toList)
    (hjson : json.fromJson (json.toJson record) = some record) (hne : json.toJson record ≠ "") :
    parseStateMarker json (sentence.toList ++ '\n' :: (stateMarkerOpen ++
      hexEncode (json.toJson record).toByteArray.data.toList ++ markerClose ++ after)) =
        .ok (some record) := by
  have hfirst : splitOnce stateMarkerOpen (sentence.toList ++ '\n' :: (stateMarkerOpen ++
      (hexEncode (json.toJson record).toByteArray.data.toList ++ markerClose ++ after))) =
        some (sentence.toList ++ ['\n'],
          hexEncode (json.toJson record).toByteArray.data.toList ++ markerClose ++ after) :=
    splitOnce_of_not_infix (c := '<') (by decide) hsentence _
  have hspace : ' ' ∉ hexEncode (json.toJson record).toByteArray.data.toList := fun hmem =>
    absurd (List.all_eq_true.mp (hexEncode_lower _) ' ' hmem) (by decide)
  have hclose : splitOnce markerClose
      (hexEncode (json.toJson record).toByteArray.data.toList ++ markerClose ++ after) =
        some (hexEncode (json.toJson record).toByteArray.data.toList, after) :=
    splitOnce_append hspace after
  have hbytes : (json.toJson record).toByteArray.data.toList ≠ [] := fun hnil =>
    hne (String.toByteArray_inj.mp (ByteArray.ext (Array.toList_inj.mp hnil)))
  have hshape : stateMarkerOpen ++ hexEncode (json.toJson record).toByteArray.data.toList ++
      markerClose ++ after = stateMarkerOpen ++
        (hexEncode (json.toJson record).toByteArray.data.toList ++ markerClose ++ after) := by
    simp only [append_assoc]
  rw [parseStateMarker, hshape, hfirst]
  dsimp only
  rw [hclose, orErr, ok_bind]
  dsimp only
  rw [hexDecode_hexEncode hbytes, ok_bind, fromUTF8_toByteArray, orErr, ok_bind, hjson]
  rfl

theorem renderStateCommentBody_ok {visibleOutcome : Option (List Char)} {body : List Char}
    (h : renderStateCommentBody json record visibleOutcome = some (.ok body)) :
    ∃ sentence after, stateCommentVisibleMetadata record = some sentence ∧
      body = sentence.toList ++ '\n' :: (stateMarkerOpen ++
        hexEncode (json.toJson record).toByteArray.data.toList ++ markerClose ++ after) := by
  unfold renderStateCommentBody at h
  split at h
  next => cases h
  next marker hmarker =>
    obtain ⟨-, hmarker⟩ := ensure_bind_ok.mp hmarker
    cases hmarker
    obtain ⟨sentence, hsentence, h⟩ := Option.map_eq_some_iff.mp h
    obtain ⟨after, -, h⟩ := bind_eq_ok.mp h
    obtain ⟨-, h⟩ := ensure_bind_ok.mp h
    exact ⟨sentence, after, hsentence, (Except.ok.inj h).symm⟩

/-- A record that is made for a ledger is read back from its comment, with its digest, where the
approval reference of an acceptance has no marker text; and hexadecimal digits stand for bytes one to
one, except that no digits stand for nothing. -/
theorem state_comment_round_trip {ledger : Host ReviewLoopState LoopReceipt} {repository : String}
    {pr : Nat} {expectedHead : String} {chain : LoopChain}
    {payload : ReviewStatePayload ReviewLoopState LoopReceipt} {generation : Option Nat}
    {visibleOutcome : Option (List Char)} {body : List Char}
    (hhandoff : ∀ handoff, payload = .reviewHandoff handoff →
      validateHandoff ledger handoff = .ok ())
    (hreference : ∀ state acceptance,
      payload = .reviewLoopAcceptance state (.acceptance acceptance) →
        ¬ stateMarkerOpen <:+: acceptance.approvalReference.toList)
    (hjson : json.fromJson (json.toJson
      (newRecord ledger repository pr expectedHead chain payload generation)) =
        some (newRecord ledger repository pr expectedHead chain payload generation))
    (hne : json.toJson (newRecord ledger repository pr expectedHead chain payload generation) ≠ "")
    (h : renderStateCommentBody json
      (newRecord ledger repository pr expectedHead chain payload generation) visibleOutcome =
        some (.ok body)) :
    (∃ record, parseStateMarker json body = .ok (some record) ∧
      record = newRecord ledger repository pr expectedHead chain payload generation ∧
      computeDigest ledger record.toReviewStatePreimage = record.recordDigest) ∧
    (∀ bytes, bytes ≠ [] → hexDecode (hexEncode bytes) = .ok bytes) ∧
    ∀ encoded bytes, hexDecode encoded = .ok bytes → hexEncode bytes = encoded := by
  refine ⟨⟨_, ?_, rfl, rfl⟩, fun _ => hexDecode_hexEncode, fun _ _ => hexEncode_of_hexDecode⟩
  obtain ⟨sentence, after, hsentence, rfl⟩ := renderStateCommentBody_ok h
  refine parseStateMarker_body ?_ hjson hne
  rcases sentence_cases hsentence hhandoff with hplain | ⟨state, acceptance, hpayload, rfl⟩
  · exact not_infix_of_plain hplain
  · exact not_infix_acceptance (hreference state acceptance hpayload)

/-! ## Short records -/

theorem byteLength_le (text : List Char) : byteLength text ≤ 4 * text.length := by
  induction text with
  | nil => exact Nat.le_refl 0
  | cons c text ih =>
    have hcons : String.ofList (c :: text) = String.singleton c ++ String.ofList text := by
      rw [String.singleton_eq_ofList, ← String.ofList_append]
      rfl
    have hc := c.utf8Size_le_four
    unfold byteLength at ih ⊢
    rw [hcons, String.utf8ByteSize_append, String.utf8ByteSize_singleton, length_cons]
    omega

theorem byteLength_append (text after : List Char) :
    byteLength (text ++ after) = byteLength text + byteLength after := by
  unfold byteLength
  rw [String.ofList_append, String.utf8ByteSize_append]

theorem byteLength_toList : byteLength s.toList = s.utf8ByteSize := by
  rw [byteLength, String.ofList_toList]

theorem renderStateCommentBody_of_short (hsentence : stateCommentVisibleMetadata record = some sentence)
    (hshort : sentence.utf8ByteSize + 8 * (json.toJson record).utf8ByteSize ≤ 16000) :
    ∃ body, renderStateCommentBody json record none = some (.ok body) := by
  have hbytes : (json.toJson record).toByteArray.data.toList.length =
      (json.toJson record).utf8ByteSize := rfl
  have hopen : stateMarkerOpen.length = 31 := by decide
  have hclose : markerClose.length = 4 := by decide
  have hmax : maxProviderStateMarkerBytes = 65536 ∧ maxProviderStateCommentBytes = 65536 := ⟨rfl, rfl⟩
  have hlength : (stateMarkerOpen ++ hexEncode (json.toJson record).toByteArray.data.toList ++
      markerClose).length = 35 + 2 * (json.toJson record).utf8ByteSize := by
    rw [length_append, length_append, length_hexEncode]
    omega
  have hmarker := byteLength_le
    (stateMarkerOpen ++ hexEncode (json.toJson record).toByteArray.data.toList ++ markerClose)
  rw [hlength] at hmarker
  have hfeed : byteLength ['\n'] ≤ 4 := byteLength_le _
  have hbody : byteLength (sentence.toList ++ '\n' :: (stateMarkerOpen ++
      hexEncode (json.toJson record).toByteArray.data.toList ++ markerClose ++ [])) ≤
        maxProviderStateCommentBytes := by
    rw [append_nil, ← singleton_append, byteLength_append, byteLength_append,
      byteLength_toList]
    omega
  have hok : stateMarker json record = .ok (stateMarkerOpen ++
      hexEncode (json.toJson record).toByteArray.data.toList ++ markerClose) :=
    ensure_bind_ok.mpr ⟨by omega, rfl⟩
  refine ⟨sentence.toList ++ '\n' :: (stateMarkerOpen ++
    hexEncode (json.toJson record).toByteArray.data.toList ++ markerClose ++ []), ?_⟩
  rw [renderStateCommentBody, hok, hsentence]
  refine congrArg some ?_
  dsimp only
  rw [outcomeText, ok_bind]
  exact ensure_bind_ok.mpr ⟨hbody, rfl⟩

/-! ## A record and its comment -/

def emptyChain : LoopChain := ⟨[], none, []⟩

def carryOverPayload : ReviewStatePayload ReviewLoopState LoopReceipt :=
  .reviewSyncCarryOver
    { reviewUrl := "https://x", reviewedHead := "a", head := "b", baseCommit := "c"
      mergeTree := "d" }

def carryOverRecord : LoopRecord :=
  newRecord (sampleLoopHost.ledger carriedTexts) "o/r" 1 "b" emptyChain carryOverPayload (some 1)

def carryOverJson : String :=
  "\x7b\"schema\":\"forge-cli.review-loop.v1\",\"repository\":\"o/r\",\"pr\":1," ++
    "\"expected_head\":\"b\",\"generation\":0,\"previous_digest\":null,\"payload\":\x7b" ++
    "\"kind\":\"review-sync-carry-over\",\"carry_over\":\x7b\"review_url\":\"https://x\"," ++
    "\"reviewed_head\":\"a\",\"head\":\"b\",\"base_commit\":\"c\",\"merge_tree\":\"d\"\x7d\x7d," ++
    "\"assignment_generation\":1,\"record_digest\":\"sha256:0\"\x7d"

/-- The JSON of one record. -/
def oneRecordJson (text : String) (record : LoopRecord) : RecordJson where
  toJson _ := text
  fromJson other := if other = text then some record else none

theorem oneRecordJson_reads (text : String) (record : LoopRecord) :
    (oneRecordJson text record).fromJson ((oneRecordJson text record).toJson record) = some record :=
  if_pos rfl

def carryOverTexts : RecordJson := oneRecordJson carryOverJson carryOverRecord

def carryOverSentence : String :=
  "Designated review pass at head " ++ shortSha "a" ++ " carried to head " ++ shortSha "b" ++
    ": a clean merge of base " ++ shortSha "c" ++
    " with an identical tree. Ready for merge checks."

theorem carryOver_rendered :
    ∃ body, renderStateCommentBody carryOverTexts carryOverRecord none = some (.ok body) := by
  have hsentence : carryOverSentence.utf8ByteSize ≤ 200 := by decide +kernel
  have hjson : carryOverJson.utf8ByteSize ≤ 400 := by decide +kernel
  have hmetadata : stateCommentVisibleMetadata carryOverRecord = some carryOverSentence := rfl
  have htext : carryOverTexts.toJson carryOverRecord = carryOverJson := rfl
  refine renderStateCommentBody_of_short hmetadata ?_
  rw [htext]
  omega

theorem carryOverJson_ne : carryOverJson ≠ "" := by decide +kernel

theorem state_comment_round_trip_carryOver : ∃ body,
    renderStateCommentBody carryOverTexts carryOverRecord none = some (.ok body) ∧
      ∃ record, parseStateMarker carryOverTexts body = .ok (some record) ∧
        record = carryOverRecord := by
  obtain ⟨body, hbody⟩ := carryOver_rendered
  have hhandoff : ∀ handoff, carryOverPayload = .reviewHandoff handoff →
      validateHandoff (sampleLoopHost.ledger carriedTexts) handoff = .ok () := by
    intro handoff h
    cases h
  have hreference : ∀ state acceptance,
      carryOverPayload = .reviewLoopAcceptance state (.acceptance acceptance) →
        ¬ stateMarkerOpen <:+: acceptance.approvalReference.toList := by
    intro state acceptance h
    cases h
  obtain ⟨⟨record, hparse, hrecord, -⟩, -⟩ := state_comment_round_trip hhandoff hreference
    (oneRecordJson_reads carryOverJson carryOverRecord) carryOverJson_ne hbody
  exact ⟨body, hbody, record, hparse, hrecord⟩

/-! ## An approval reference with marker text -/

def acceptingHost : LoopHost :=
  { sampleLoopHost with parseUrl := fun _ => some ("/o/r/pull/1", some "issuecomment-5") }

def blockingRow : ReviewFindingObservation where
  fingerprint := "a:b:c"
  rootCauseFingerprint := none
  blocking := true
  status := .open_
  threads := []

def acceptedRow : ReviewFindingObservation := { blockingRow with status := .accepted, blocking := false }

def sampleStop : ReviewLoopHardStop where
  code := "review_no_progress"
  budgetField := "max_no_progress_rounds"
  increment := 1
  proposalDigest := "p"
  attemptedHeadSha := "h3"
  observationDigest := "sha256:0"
  extensionApplied := false

def stoppedRecord : LoopRecord :=
  { schema := reviewStateSchema, repository := "o/r", pr := 1, expectedHead := "h2"
    generation := 0, previousDigest := none
    payload := .reviewLoop { carriedState with hardStop := some sampleStop }
    assignmentGeneration := none, recordDigest := hexText 'e' }

def stoppedChain : LoopChain := ⟨[stoppedRecord], some (hexText 'e'), []⟩

def acceptanceRequest : AcceptanceRequest := ⟨hexText 'e', [blockingRow], some 5⟩

/-- A URL with marker text in its query. -/
def markedReference : String :=
  "https://x/o/r/pull/1?" ++ "<!-- forge-cli:review-state:v1 " ++ "0" ++ " -->" ++ "#issuecomment-5"

def acceptedState : ReviewLoopState :=
  { carriedState with
    headSha := "h3"
    findings := SortedMap.empty.insert "a:b:c"
      { carriedFinding with status := .accepted, blocking := false, lastSeenHead := "h3" } }

def acceptedReceipt : AcceptanceReceipt where
  request := acceptanceRequest
  proposalDigest := "sha256:0"
  originalStop := sampleStop
  approvalReference := markedReference
  acceptedFingerprints := ["a:b:c"]
  findings := [acceptedRow]

def acceptedRecord : LoopRecord :=
  newRecord (acceptingHost.ledger carriedTexts) "o/r" 1 "h3" stoppedChain
    (.reviewLoopAcceptance acceptedState (.acceptance acceptedReceipt)) none

def acceptedSentence : String :=
  acceptanceSentence acceptedState acceptedReceipt ++ acceptedReceipt.approvalReference ++ "."

theorem parseStateMarker_accepted (json : RecordJson) (rest : List Char) :
    parseStateMarker json (acceptedSentence.toList ++ rest) = .error notCanonicalHex := by
  have hplain : Plain (acceptanceSentence acceptedState acceptedReceipt ++ "https://x/o/r/pull/1?") :=
    plain_append.mpr ⟨plain_acceptanceSentence _ _, by decide⟩
  have hshape : acceptedSentence.toList ++ rest =
      (acceptanceSentence acceptedState acceptedReceipt ++ "https://x/o/r/pull/1?").toList ++
        stateMarkerOpen ++ (['0'] ++ markerClose ++ ("#issuecomment-5.".toList ++ rest)) := by
    unfold acceptedSentence acceptedReceipt markedReference
    simp only [String.toList_append, append_assoc]
    rfl
  have hopen : splitOnce stateMarkerOpen (acceptedSentence.toList ++ rest) =
      some ((acceptanceSentence acceptedState acceptedReceipt ++ "https://x/o/r/pull/1?").toList,
        ['0'] ++ markerClose ++ ("#issuecomment-5.".toList ++ rest)) := by
    rw [hshape]
    exact splitOnce_append hplain _
  have hspace : ' ' ∉ ['0'] := by decide
  have hclose : splitOnce markerClose (['0'] ++ markerClose ++ ("#issuecomment-5.".toList ++ rest)) =
      some (['0'], "#issuecomment-5.".toList ++ rest) := splitOnce_append hspace _
  have hodd : hexDecode ['0'] = .error notCanonicalHex := rfl
  rw [parseStateMarker, hopen]
  dsimp only
  rw [hclose, orErr, ok_bind]
  dsimp only
  rw [hodd]
  rfl

/-- No digits stand for no bytes, and an acceptance with marker text in its approval reference is not
read back. -/
theorem state_comment_misread :
    (¬ ∀ bytes, hexDecode (hexEncode bytes) = .ok bytes) ∧
    ¬ ∀ (host : LoopHost) (texts : Host ReviewLoopState LoopReceipt) (json : RecordJson)
      (repository : String) (pr : Nat) (head : String) (chain : LoopChain) (tip : Option String)
      (request : AcceptanceRequest) (findings : List ReviewFindingObservation) (reference : String)
      (t : ReceiptTransition AcceptanceReceipt) (body : List Char),
      applyAcceptance host chain head tip request findings reference = .ok t →
      json.fromJson (json.toJson (newRecord (host.ledger texts) repository pr head chain
        (.reviewLoopAcceptance t.state (.acceptance t.receipt)) none)) =
          some (newRecord (host.ledger texts) repository pr head chain
            (.reviewLoopAcceptance t.state (.acceptance t.receipt)) none) →
      renderStateCommentBody json (newRecord (host.ledger texts) repository pr head chain
        (.reviewLoopAcceptance t.state (.acceptance t.receipt)) none) none = some (.ok body) →
      parseStateMarker json body = .ok (some (newRecord (host.ledger texts) repository pr head chain
        (.reviewLoopAcceptance t.state (.acceptance t.receipt)) none)) := by
  constructor
  · intro hall
    have hnone : hexDecode (hexEncode []) ≠ .ok [] := by decide
    exact hnone (hall [])
  · intro hall
    have happlied : applyAcceptance acceptingHost stoppedChain "h3" (some (hexText 'e'))
        acceptanceRequest [acceptedRow] markedReference =
          .ok ⟨acceptedState, true, acceptedReceipt⟩ := by decide +kernel
    have hmetadata : stateCommentVisibleMetadata acceptedRecord = some acceptedSentence := rfl
    have htext : (oneRecordJson "0" acceptedRecord).toJson acceptedRecord = "0" := rfl
    have hshort : acceptedSentence.utf8ByteSize +
        8 * ((oneRecordJson "0" acceptedRecord).toJson acceptedRecord).utf8ByteSize ≤ 16000 := by
      rw [htext]
      decide +kernel
    obtain ⟨body, hbody⟩ := @renderStateCommentBody_of_short (oneRecordJson "0" acceptedRecord)
      acceptedRecord acceptedSentence hmetadata hshort
    have hread := hall acceptingHost carriedTexts (oneRecordJson "0" acceptedRecord) "o/r" 1 "h3"
      stoppedChain (some (hexText 'e')) acceptanceRequest [acceptedRow] markedReference
      ⟨acceptedState, true, acceptedReceipt⟩ body happlied (oneRecordJson_reads "0" acceptedRecord) hbody
    obtain ⟨sentence, after, hsentence, rfl⟩ := renderStateCommentBody_ok hbody
    obtain rfl : acceptedSentence = sentence := Option.some.inj (hmetadata.symm.trans hsentence)
    rw [parseStateMarker_accepted] at hread
    cases hread

end NilsCli.Review
