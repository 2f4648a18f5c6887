import NilsCli.Review.Observations
import NilsCli.Review.Receipts

/-!
# Open findings under observation

An observation must account for every open finding. It does so at a new head and where its rows are
new ones.
-/

namespace NilsCli.Review

open Lib

variable {host : LoopHost} {s : ReviewLoopState} {head : String}
  {rows : List ReviewFindingObservation} {current : SortedMap String ReviewFindingObservation}
  {t : ReviewLoopTransition}

structure Followed (s : ReviewLoopState) (head : String) (f : ReviewLoopFinding)
    (row : ReviewFindingObservation) (f' : ReviewLoopFinding) : Prop where
  root : f'.rootCauseFingerprint = f.rootCauseFingerprint
  firstSeen : f'.firstSeenHead = f.firstSeenHead
  seen : f.seenCount ≤ f'.seenCount
  reopened : f.reopenCount ≤ f'.reopenCount
  threads : ∀ thread ∈ f.threads, thread ∈ f'.threads
  /-- It stops being open only if its row says so. -/
  closed : f'.status ≠ .open_ → row.status = f'.status
  /-- It is fixed only by a new head. -/
  fixed : f'.status = .fixed → head ≠ s.headSha
  /-- At an unchanged head it stops blocking only as it is accepted, preferred or put off. -/
  blocking : head = s.headSha → f.blocking = true → f'.blocking = false →
    row.status = .accepted ∨ row.status = .preference ∨ row.status = .followUp

structure KeepsFindings (s : ReviewLoopState) (head : String)
    (current : SortedMap String ReviewFindingObservation) (s' : ReviewLoopState) : Prop where
  named : ∀ k f, s.findings.find? k = some f → f.status = .open_ →
    ∃ row f', current.find? k = some row ∧ s'.findings.find? k = some f' ∧ Followed s head f row f'
  unnamed : ∀ k, current.find? k = none → s'.findings.find? k = s.findings.find? k

def RepeatsAllOpen (s : ReviewLoopState) (head : String)
    (current : SortedMap String ReviewFindingObservation) : Prop :=
  s.headSha = head → observationMatchesState s current = true →
    ∀ k f, s.findings.find? k = some f → f.status = .open_ → f.lastSeenHead = head

theorem Observed.followed {budget : ReviewLoopBudget} {f f' : ReviewLoopFinding}
    {row : ReviewFindingObservation}
    (h : Observed budget head (decide (s.headSha ≠ head)) row (some f) f') (hopen : f.status = .open_)
    (hsame : s.headSha = head → row.status ≠ .fixed ∧
      ¬ (f.blocking = true ∧ row.status = .open_ ∧ ¬ row.blocking = true)) :
    Followed s head f row f' := by
  cases h with
  | reasserted _ _ hfixed _ => cases hopen.symm.trans hfixed
  | seen reopenCount _ _ hreopen =>
    have hcount : reopenCount = f.reopenCount := by
      rcases hreopen with ⟨hfixed, -⟩ | ⟨-, hcount⟩
      · cases hopen.symm.trans hfixed
      · exact hcount
    refine ⟨rfl, rfl, le_u32Succ _, hcount.ge, fun thread hthread => ?_, fun _ => rfl, ?_, ?_⟩
    · exact mem_sortDedup.mpr (List.mem_append_left _ hthread)
    · intro hfixed hhead
      exact (hsame hhead.symm).1 hfixed
    · intro hhead hwas hblocking
      obtain ⟨hnotFixed, hclear⟩ := hsame hhead.symm
      simp only [Bool.and_eq_false_iff, decide_eq_false_iff_not] at hblocking
      cases hstatus : row.status with
      | open_ =>
        exfalso
        rcases hblocking with hne | hno
        · exact hne hstatus
        · exact hclear ⟨hwas, hstatus, by simp [hno]⟩
      | fixed => exact absurd hstatus hnotFixed
      | accepted => exact .inl rfl
      | preference => exact .inr (.inl rfl)
      | followUp => exact .inr (.inr rfl)

theorem Followed.refl {f : ReviewLoopFinding} {row : ReviewFindingObservation}
    (hopen : f.status = .open_) : Followed s head f row f where
  root := rfl
  firstSeen := rfl
  seen := Nat.le_refl _
  reopened := Nat.le_refl _
  threads _ hthread := hthread
  closed h := absurd hopen h
  fixed h := nomatch hopen.symm.trans h
  blocking _ h h' := absurd (h.symm.trans h') Bool.noConfusion

/-- An accepted observation keeps the open findings exactly where, if it is a repeated one, each of
them was last seen at its head. -/
theorem open_findings_kept (h : observeReviewLoop host (some s) head rows = .ok t)
    (hrows : canonicalObservations rows = .ok current) :
    KeepsFindings s head current t.state ↔ RepeatsAllOpen s head current := by
  obtain ⟨-, current', hcurrent, -, -, h⟩ := observeReviewLoop_eq_ok.mp h
  obtain rfl : current = current' := Except.ok.inj (hrows.symm.trans hcurrent)
  rcases observeFrom_eq_ok.mp h with ⟨hhead, hmatch, rfl⟩ | ⟨hmissing, hsame, hadv, -⟩
  · -- a repeated observation changes nothing and names what was last seen at the head
    have hmatch' := observationMatchesState_iff.mp hmatch
    constructor
    · intro hkeeps _ _ k f hf hopen
      obtain ⟨row, -, hrow, -⟩ := hkeeps.named k f hf hopen
      obtain ⟨f', hf', hlast, -⟩ := hmatch'.2 k row hrow
      obtain rfl : f = f' := Option.some.inj (hf.symm.trans hf')
      exact hlast.trans hhead
    · intro hall
      refine ⟨fun k f hf hopen => ?_, fun _ _ => rfl⟩
      obtain ⟨row, hrow⟩ := hmatch'.1 k f hf ((hall hhead hmatch k f hf hopen).trans hhead.symm)
      exact ⟨row, f, hrow, hf, .refl hopen⟩
  · have hrepeat : RepeatsAllOpen s head current := fun hhead hmatch =>
      absurd hmatch (hsame hhead).1
    refine iff_of_true ⟨fun k f hf hopen => ?_, fun k hk => hadv.unnamed k hk⟩ hrepeat
    have hrow : ∃ row, current.find? k = some row ∧ (s.headSha = head → row.status ≠ .fixed ∧
        ¬ (f.blocking = true ∧ row.status = .open_ ∧ ¬ row.blocking = true)) := by
      by_cases hhead : s.headSha = head
      · obtain ⟨row, hrow, hcheck⟩ := checkSameHead_eq_ok.mp ((hsame hhead).2 k f hf) hopen
        exact ⟨row, hrow, fun _ => hcheck⟩
      · obtain ⟨row, hrow⟩ := missing_eq_nil.mp (hmissing hhead) k f hf hopen
        exact ⟨row, hrow, fun h => absurd h hhead⟩
    obtain ⟨row, hrow, hcheck⟩ := hrow
    obtain ⟨f', hobserved, hf'⟩ := hadv.named k row hrow
    have hobserved' : Observed s.budget head (decide (s.headSha ≠ head)) row (some f) f' := by
      rw [← hf]
      exact hobserved
    exact ⟨row, f', hrow, hf', hobserved'.followed hopen hcheck⟩

/-! ## An open finding that is left out -/

def sampleLoopHost : LoopHost where
  sha256Hex _ := "0"
  observationText _ _ := ""
  proposalText _ _ _ _ := ""
  supersessionText _ _ := ""
  acceptanceText _ _ _ _ := ""
  parseUrl _ := none

def carriedFinding : ReviewLoopFinding where
  rootCauseFingerprint := none
  status := .open_
  blocking := true
  firstSeenHead := "h1"
  lastSeenHead := "h1"
  seenCount := 1
  reopenCount := 0
  threads := []

/-- The state at a later head, as a correction leaves it that restores the finding. -/
def carriedState : ReviewLoopState where
  headSha := "h2"
  round := 1
  noProgressRounds := 1
  budget := .default
  findings := SortedMap.empty.insert "a:b:c" carriedFinding
  extensions := []
  hardStop := none

def carriedRecord : ReviewStateRecord ReviewLoopState LoopReceipt :=
  { schema := reviewStateSchema, repository := "o/r", pr := 1, expectedHead := "h2"
    generation := 0, previousDigest := none, payload := .reviewLoop carriedState
    assignmentGeneration := none, recordDigest := "sha256:0" }

def carriedTexts : Host ReviewLoopState LoopReceipt where
  sha256Digest := sampleLoopHost.sha256Digest
  preimageText _ := ""
  parseStateMarker _ := .ok (some carriedRecord)
  marker _ := .ok ""
  renderStateCommentBody _ _ := .ok ""
  validTimestamp _ := true
  validRole _ := true
  headSha := (·.headSha)
  attemptedHeadSha _ := none
  validateReviewLoopState := validateReviewLoopState
  validateCorrection _ _ := .ok ()
  validateSupersession _ _ := .ok ()
  validateAcceptance _ _ := .ok ()

theorem open_findings_kept_carried :
    KeepsFindings carriedState "h2" .empty carriedState ↔ RepeatsAllOpen carriedState "h2" .empty :=
  @open_findings_kept sampleLoopHost carriedState "h2" [] .empty ⟨carriedState, false⟩ (by decide) rfl

/-- With no rows, an observation of the state that has the finding is accepted. -/
theorem open_finding_dropped : ¬ ∀ (host : LoopHost) (texts : Host ReviewLoopState LoopReceipt)
    (repository : String) (pr : Nat) (comments : List String) (chain : LoopChain)
    (s : ReviewLoopState) (head : String) (rows : List ReviewFindingObservation)
    (current : SortedMap String ReviewFindingObservation) (t : ReviewLoopTransition),
    parseChain (host.ledger texts) repository pr comments = .ok chain →
    latestState chain.records = some s → observeReviewLoop host (some s) head rows = .ok t →
    canonicalObservations rows = .ok current → KeepsFindings s head current t.state := by
  intro hall
  have hchain : parseChain (sampleLoopHost.ledger carriedTexts) "o/r" 1 ["m"] =
      .ok ⟨[carriedRecord], some "sha256:0", []⟩ := by decide
  have hobserve : observeReviewLoop sampleLoopHost (some carriedState) "h2" [] =
      .ok ⟨carriedState, false⟩ := by decide
  have hkeeps := hall sampleLoopHost carriedTexts "o/r" 1 ["m"] _ carriedState "h2" [] .empty _
    hchain rfl hobserve rfl
  obtain ⟨row, _, hrow, -⟩ := hkeeps.named "a:b:c" carriedFinding (SortedMap.find?_insert_self _ _ _)
    rfl
  cases hrow

end NilsCli.Review
