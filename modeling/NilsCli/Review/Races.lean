import NilsCli.Review.Append
import NilsCli.Review.Reads

/-!
# Racing appends

A post that arrives late can win a fork over everything that has been appended below its previous
record since.
-/

namespace NilsCli.Review

open Lib

section
variable {State Receipt : Type}

/-! ## What the reads owe each other -/

/-- The last accepted read. -/
def lastRead (log : List (Event State Receipt)) : Option (ReviewStateChain State Receipt) :=
  log.findSome? fun
    | .read chain => some chain
    | .success _ => none

def Retains (chain : ReviewStateChain State Receipt) : Event State Receipt → Prop
  | .read earlier => latestGeneration earlier.records ≤ latestGeneration chain.records
  | .success record => Kept record chain.records

/-- No accepted read falls behind an event before it; the log has the last event first. -/
def NeverRollsBack (log : List (Event State Receipt)) : Prop :=
  log.Pairwise fun newer older => ∀ chain, newer = .read chain → Retains chain older

def SafeLanding (host : Host State Receipt) (label : Label State Receipt)
    (world : World State Receipt) : Prop :=
  ∀ body, label = .land body → ∀ record, host.parseStateMarker body = .ok (some record) →
    ∀ chain, lastRead world.log = some chain → Harmless chain.records record

instance (host : Host State Receipt) (label : Label State Receipt) (world : World State Receipt) :
    Decidable (SafeLanding host label world) :=
  match label with
  | .land body =>
    match hparse : host.parseStateMarker body with
    | .ok (some record) =>
      decidable_of_iff ((lastRead world.log).all fun chain => decide (Harmless chain.records record))
        (by simp [SafeLanding, hparse, Option.all_eq_true])
    | .ok none => .isTrue (by simp [SafeLanding, hparse])
    | .error _ => .isTrue (by simp [SafeLanding, hparse])
  | .append _ _ | .lose _ | .readBack _ _ _ | .read | .note _ => .isTrue (by simp [SafeLanding])

/-! ## The invariant -/

variable [DecidableEq State] [DecidableEq Receipt] {host : Host State Receipt}
  {repository : String} {pr : Nat} {world world' : World State Receipt}
  {chain : ReviewStateChain State Receipt}

structure Sound (host : Host State Receipt) (repository : String) (pr : Nat)
    (world : World State Receipt) : Prop where
  log : NeverRollsBack world.log
  unread : lastRead world.log = none → world.log = []
  grown : ∀ chain, lastRead world.log = some chain → ∃ old added,
    world.comments = old ++ added ∧ parseChain host repository pr old = .ok chain ∧
      ∀ comment ∈ added, ∀ record, host.parseStateMarker comment = .ok (some record) →
        Harmless chain.records record
  retained : ∀ chain, lastRead world.log = some chain → ∀ event ∈ world.log, Retains chain event

section

variable (h : Sound host repository pr world)

include h

theorem Sound.of_eq (hcomments : world'.comments = world.comments)
    (hlog : world'.log = world.log) : Sound host repository pr world' where
  log := hlog ▸ h.log
  unread := hlog ▸ h.unread
  grown := by rw [hcomments, hlog]; exact h.grown
  retained := hlog ▸ h.retained

theorem Sound.comment {body : String}
    (hcomments : world'.comments = world.comments ++ [body]) (hlog : world'.log = world.log)
    (hbody : ∀ chain, lastRead world.log = some chain → ∀ record,
      host.parseStateMarker body = .ok (some record) → Harmless chain.records record) :
    Sound host repository pr world' where
  log := hlog ▸ h.log
  unread := hlog ▸ h.unread
  retained := hlog ▸ h.retained
  grown := by
    rw [hcomments, hlog]
    intro chain hlast
    obtain ⟨old, added, hgrown, hparse, hadded⟩ := h.grown chain hlast
    refine ⟨old, added ++ [body], by rw [hgrown, List.append_assoc], hparse, ?_⟩
    intro comment hmem
    rw [List.mem_append, List.mem_singleton] at hmem
    rcases hmem with hmem | rfl
    · exact hadded comment hmem
    · exact hbody chain hlast

theorem Sound.retains
    (hparse : parseChain host repository pr world.comments = .ok chain) {event : Event State Receipt}
    (hmem : event ∈ world.log) : Retains chain event := by
  cases hlast : lastRead world.log with
  | none =>
    rw [h.unread hlast] at hmem
    cases hmem
  | some earlier =>
    obtain ⟨old, added, hgrown, hold, hadded⟩ := h.grown earlier hlast
    rw [hgrown] at hparse
    have hearlier := parseChain_admitted hold
    have hkept := parseChain_kept hold hparse hadded
    have hretained := h.retained earlier hlast event hmem
    cases event with
    | read first =>
      exact le_trans hretained
        (latestGeneration_mono hearlier (parseChain_admitted hparse) hkept)
    | success record => exact Kept.trans hearlier hretained hkept

theorem Sound.observe
    (hread : observe host repository pr world = .ok (chain, world')) :
    Sound host repository pr world' ∧ lastRead world'.log = some chain := by
  unfold Review.observe at hread
  rw [bind_eq_ok] at hread
  obtain ⟨chain', hparse, hread⟩ := hread
  cases hread
  have hretains : ∀ event ∈ world.log, Retains chain event := fun event => h.retains hparse
  refine ⟨⟨?_, ?_, ?_, ?_⟩, rfl⟩
  · refine List.pairwise_cons.mpr ⟨?_, h.log⟩
    rintro event hmem _ ⟨⟩
    exact hretains event hmem
  · intro hnone
    cases hnone
  · rintro _ ⟨⟩
    exact ⟨world.comments, [], by simp, hparse, by simp⟩
  · rintro _ ⟨⟩ event hmem
    rcases List.mem_cons.mp hmem with rfl | hmem
    · exact le_rfl
    · exact hretains event hmem

theorem Sound.success
    (hlast : lastRead world.log = some chain) {record : ReviewStateRecord State Receipt}
    (hmem : record ∈ chain.records) :
    Sound host repository pr { world with log := .success record :: world.log } where
  log := by
    refine List.pairwise_cons.mpr ⟨?_, h.log⟩
    rintro event - _ ⟨⟩
  unread := by
    intro hnone
    rw [show lastRead (.success record :: world.log) = lastRead world.log from rfl, hlast] at hnone
    cases hnone
  grown := h.grown
  retained := by
    intro last hread event hevent
    rw [show lastRead (.success record :: world.log) = lastRead world.log from rfl, hlast] at hread
    cases hread
    rcases List.mem_cons.mp hevent with rfl | hevent
    · exact .inl hmem
    · exact h.retained chain hlast event hevent

end

omit [DecidableEq State] [DecidableEq Receipt] in
theorem mem_of_finishAppend {record observed : ReviewStateRecord State Receipt}
    {visibleOutcome : Option String} {posted : Except ForgeError Unit} {comments : List String}
    {outcomePosted : Bool} (h : finishAppend host record visibleOutcome posted comments chain =
      .ok (observed, outcomePosted)) : observed ∈ chain.records := by
  unfold finishAppend at h
  split at h
  next found hfind =>
    have hmem := List.mem_of_find?_eq_some hfind
    cases visibleOutcome with
    | none =>
      cases h
      exact hmem
    | some outcome =>
      dsimp only at h
      rw [bind_eq_ok] at h
      obtain ⟨marker, -, h⟩ := h
      rw [ensure_bind_ok] at h
      cases h.2
      exact hmem
  next => cases posted <;> cases h

theorem Sound.next (h : Sound host repository pr world) {label : Label State Receipt}
    (hsafe : SafeLanding host label world)
    (hnext : next host repository pr world label = some world') :
    Sound host repository pr world' := by
  cases label with
  | append env request =>
    unfold Review.next at hnext
    dsimp only at hnext
    split at hnext
    next =>
      cases hnext
      exact h
    next chain read hread =>
      split at hnext
      next =>
        cases hnext
        exact (h.observe hread).1
      next record body _ =>
        cases hnext
        exact (h.observe hread).1.of_eq rfl rfl
  | land body =>
    unfold Review.next at hnext
    dsimp only at hnext
    split at hnext
    next =>
      cases hnext
      exact h.comment rfl rfl fun chain hlast record hparse =>
        hsafe body rfl record hparse chain hlast
    next => cases hnext
  | lose body =>
    unfold Review.next at hnext
    dsimp only at hnext
    split at hnext
    next =>
      cases hnext
      exact h.of_eq rfl rfl
    next => cases hnext
  | readBack record visibleOutcome posted =>
    unfold Review.next at hnext
    dsimp only at hnext
    have hrest : Sound host repository pr
        { world with waiting := world.waiting.erase (record, visibleOutcome) } := h.of_eq rfl rfl
    split at hnext
    next =>
      split at hnext
      next =>
        cases hnext
        exact hrest
      next chain read hread =>
        obtain ⟨hsound, hlast⟩ := hrest.observe hread
        split at hnext
        next =>
          cases hnext
          exact hsound
        next observed outcomePosted hfinish =>
          cases hnext
          exact hsound.success hlast (mem_of_finishAppend hfinish)
    next => cases hnext
  | read =>
    unfold Review.next at hnext
    dsimp only at hnext
    split at hnext
    next =>
      cases hnext
      exact h
    next chain read hread =>
      cases hnext
      exact (h.observe hread).1
  | note body =>
    unfold Review.next at hnext
    dsimp only at hnext
    split at hnext
    next hnone =>
      cases hnext
      refine h.comment rfl rfl fun chain _ record hparse => ?_
      rw [hnone] at hparse
      cases hparse
    next => cases hnext

theorem Sound.init (hlog : world.log = []) : Sound host repository pr world where
  log := by rw [hlog]; exact List.Pairwise.nil
  unread _ := hlog
  grown chain hlast := by rw [hlog] at hlast; cases hlast
  retained chain hlast := by rw [hlog] at hlast; cases hlast

/-- In a run in which every record that arrives is harmless to the last read, no accepted read rolls
the ledger back. -/
theorem reads_never_roll_back
    (h : ((ledger host repository pr).restrict (SafeLanding host)).Reach world) :
    NeverRollsBack world.log := by
  refine (Lts.Reach.invariant (S := (ledger host repository pr).restrict (SafeLanding host))
    (I := Sound host repository pr) ?_ ?_ h).log
  · rintro s ⟨-, -, hlog⟩
    exact Sound.init hlog
  · rintro label s t hs ⟨hsafe, hnext⟩
    exact hs.next hsafe hnext

/-- The assignment generations that the reads of a log have found, the last read first. -/
def readGenerations (log : List (Event State Receipt)) : List Nat :=
  log.filterMap fun
    | .read chain => some (latestGeneration chain.records)
    | .success _ => none

omit [DecidableEq State] [DecidableEq Receipt] in
theorem NeverRollsBack.readGenerations {log : List (Event State Receipt)}
    (h : NeverRollsBack log) : (readGenerations log).Pairwise (· ≥ ·) := by
  refine List.Pairwise.filterMap _ ?_ h
  intro newer older hretains n hn m hm
  cases newer with
  | success record => cases hn
  | read chain =>
    cases older with
    | success record => cases hm
    | read earlier =>
      cases hn
      cases hm
      exact hretains chain rfl

end

/-! ## A late recovery -/

def sampleDigest (text : String) : String :=
  "sha256:" ++ String.ofList (text.toList ++ List.replicate (64 - text.length) '0')

/-- A text of the records of the run, which differ in their place or in being a recovery. -/
def sampleText (preimage : ReviewStatePreimage Empty Empty) : String :=
  String.ofList [Char.ofNat (48 + preimage.generation),
    if (preimage.handoff.bind (·.returnedReason)).isSome then 'f' else 'e']

def sampleRecord (generation : Nat) (previousDigest : Option String) (handoff : ReviewHandoff) :
    ReviewStateRecord Empty Empty :=
  let preimage : ReviewStatePreimage Empty Empty :=
    { schema := reviewStateSchema, repository := "o/r", pr := 1, expectedHead := "h", generation
      previousDigest, payload := .reviewHandoff handoff
      assignmentGeneration := some handoff.assignmentGeneration }
  { preimage with recordDigest := sampleDigest (sampleText preimage) }

def sampleSha : String := "aaaaaaaaaaaaaaaaaaaaaaaaaaaaaaaaaaaaaaaa"

def sampleHandoff : ReviewHandoff :=
  { approvalPolicy := .sourcePass, coordinatorDigest := sampleDigest "c0"
    reviewerDigest := sampleDigest "d0", reviewAuthor := "octo", baseSha := sampleSha
    assignedHead := sampleSha, returnedReason := none, assignmentGeneration := 1
    surrendered := false, coordinatorTransfer := none, baseRef := "main" }

def assignedOnce : ReviewStateRecord Empty Empty := sampleRecord 0 none sampleHandoff

def surrendered : ReviewStateRecord Empty Empty :=
  sampleRecord 1 (some assignedOnce.recordDigest) { sampleHandoff with surrendered := true }

def assignedAgain : ReviewStateRecord Empty Empty :=
  sampleRecord 2 (some surrendered.recordDigest) { sampleHandoff with assignmentGeneration := 2 }

def recovered : ReviewStateRecord Empty Empty :=
  sampleRecord 3 (some assignedAgain.recordDigest)
    { sampleHandoff with
      assignmentGeneration := 3, returnedReason := some "reviewer-unreachable" }

/-- A recovery of the first assignment, prepared before the reviewer surrendered. -/
def delayed : ReviewStateRecord Empty Empty :=
  sampleRecord 1 (some assignedOnce.recordDigest)
    { sampleHandoff with assignmentGeneration := 2, returnedReason := some "reviewer-declined" }

/-- Comments are the short texts of the records. -/
def sampleHost : Host Empty Empty where
  sha256Digest := sampleDigest
  preimageText := sampleText
  parseStateMarker body :=
    .ok ([assignedOnce, surrendered, assignedAgain, recovered, delayed].find? fun record =>
      sampleText record.toReviewStatePreimage = body)
  marker record := .ok (sampleText record.toReviewStatePreimage)
  renderStateCommentBody record _ := .ok (sampleText record.toReviewStatePreimage)
  validTimestamp _ := true
  validRole _ := true
  headSha := nofun
  attemptedHeadSha := nofun
  validateReviewLoopState := nofun
  validateCorrection _ _ := .ok ()
  validateSupersession _ _ := .ok ()
  validateAcceptance _ _ := .ok ()

def sampleEnv (session : String) : Surroundings where
  agentSessionId := session
  agentReviewerSession := none
  agentReviewAssignmentGeneration := none
  providerHead := .ok (some "h")
  providerBase := .ok sampleSha
  supervisorPolicy := .ok ([], 0)
  retirementEvidence := .error competing
  supervisorAttestation := .error competing

/-- The append that makes a record, by a session. -/
def sampleAppend (session : String) (record : ReviewStateRecord Empty Empty) :
    Label Empty Empty :=
  .append (sampleEnv session)
    { expectedHead := "h", expectedTip := record.previousDigest, payload := record.payload
      visibleOutcome := none }

def sampleLand (record : ReviewStateRecord Empty Empty) : Label Empty Empty :=
  .land (sampleText record.toReviewStatePreimage)

def sampleReadBack (record : ReviewStateRecord Empty Empty) : Label Empty Empty :=
  .readBack record none (.ok ())

def emptyLedger : World Empty Empty := ⟨[], [], [], []⟩

def reassignments : List (Label Empty Empty) :=
  [sampleAppend "c0" assignedOnce, sampleLand assignedOnce, sampleAppend "c0" delayed,
    sampleAppend "d0" surrendered, sampleLand surrendered, sampleAppend "c0" assignedAgain,
    sampleLand assignedAgain, sampleAppend "c0" recovered, sampleLand recovered,
    sampleReadBack recovered]

def safeNext (world : World Empty Empty) (label : Label Empty Empty) :
    Option (World Empty Empty) :=
  if SafeLanding sampleHost label world then next sampleHost "o/r" 1 world label else none

def generationsAfter (step : World Empty Empty → Label Empty Empty → Option (World Empty Empty))
    (labels : List (Label Empty Empty)) (world : World Empty Empty) : Option (List Nat) :=
  (labels.foldlM step world).map fun world => readGenerations world.log

theorem sample_runs : ∃ world, reassignments.foldlM safeNext emptyLedger = some world ∧
    generationsAfter safeNext [.read] world = some [3, 3, 2, 1, 1, 1, 0] ∧
    generationsAfter (next sampleHost "o/r" 1) [sampleLand delayed, .read] world =
      some [2, 3, 2, 1, 1, 1, 0] := by
  have hruns : ((reassignments.foldlM safeNext emptyLedger).map fun world =>
      (generationsAfter safeNext [.read] world,
        generationsAfter (next sampleHost "o/r" 1) [sampleLand delayed, .read] world)) =
      some (some [3, 3, 2, 1, 1, 1, 0], some [2, 3, 2, 1, 1, 1, 0]) := by decide +kernel
  obtain ⟨world, hworld, hgenerations⟩ := Option.map_eq_some_iff.mp hruns
  exact ⟨world, hworld, congrArg Prod.fst hgenerations, congrArg Prod.snd hgenerations⟩

theorem safeNext_ok {world world' : World Empty Empty} {label : Label Empty Empty}
    (h : safeNext world label = some world') :
    SafeLanding sampleHost label world ∧ next sampleHost "o/r" 1 world label = some world' := by
  unfold safeNext at h
  by_cases hsafe : SafeLanding sampleHost label world
  · rw [if_pos hsafe] at h
    exact ⟨hsafe, h⟩
  · rw [if_neg hsafe] at h
    cases h

theorem reads_never_roll_back_sample : ∃ world : World Empty Empty,
    NeverRollsBack world.log ∧ readGenerations world.log = [3, 3, 2, 1, 1, 1, 0] := by
  obtain ⟨shared, hshared, hread, -⟩ := sample_runs
  obtain ⟨world, hworld, hgenerations⟩ := Option.map_eq_some_iff.mp hread
  have hshared' : ((ledger sampleHost "o/r" 1).restrict (SafeLanding sampleHost)).Reach shared :=
    ⟨emptyLedger, _, ⟨rfl, rfl, rfl⟩, Lts.Run.of_foldlM (fun _ _ _ => safeNext_ok) hshared⟩
  have hreach := hshared'.run (Lts.Run.of_foldlM (fun _ _ _ => safeNext_ok) hworld)
  exact ⟨world, reads_never_roll_back hreach, hgenerations⟩

/-- The recovery arrives after the two later generations, and the next read is back at the second
one: the records of three appends are gone, among them one whose append has succeeded. -/
theorem ledger_rolls_back : ¬ ∀ (State Receipt : Type) [DecidableEq State] [DecidableEq Receipt]
    (host : Host State Receipt) (repository : String) (pr : Nat) (world : World State Receipt),
    (ledger host repository pr).Reach world → NeverRollsBack world.log := by
  intro hclaim
  obtain ⟨shared, hshared, -, hread⟩ := sample_runs
  obtain ⟨world, hworld, hgenerations⟩ := Option.map_eq_some_iff.mp hread
  have hshared' : (ledger sampleHost "o/r" 1).Reach shared :=
    ⟨emptyLedger, _, ⟨rfl, rfl, rfl⟩, Lts.Run.of_foldlM (fun _ _ _ h => (safeNext_ok h).2) hshared⟩
  have hreach := hshared'.run (Lts.Run.of_foldlM (S := ledger sampleHost "o/r" 1) (fun _ _ _ h => h)
    hworld)
  have hnever := (hclaim Empty Empty sampleHost "o/r" 1 world hreach).readGenerations
  rw [hgenerations] at hnever
  revert hnever
  decide

end NilsCli.Review
