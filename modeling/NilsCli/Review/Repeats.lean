import NilsCli.Review.OpenFindings

/-!
# Repeated observations

An observation is recognized as a repeated one by what was last seen at the head of the state.
-/

namespace NilsCli.Review

open Lib

variable {host : LoopHost} {s start next again : ReviewLoopState} {head : String}
  {rows : List ReviewFindingObservation} {current : SortedMap String ReviewFindingObservation}
  {t : ReviewLoopTransition} {row : ReviewFindingObservation} {f f' : ReviewLoopFinding}
  {budget : ReviewLoopBudget} {headChanged : Bool} {key : String} {before : Option ReviewLoopFinding}

def ReassertsSeen (s : ReviewLoopState) (head : String)
    (current : SortedMap String ReviewFindingObservation) : Prop :=
  s.headSha = head → ∀ k row f, current.find? k = some row → row.status = .fixed →
    s.findings.find? k = some f → f.lastSeenHead = head ∧ f.blocking = false

def NamesSeen (s : ReviewLoopState) (head : String)
    (current : SortedMap String ReviewFindingObservation) : Prop :=
  ∀ k f, s.findings.find? k = some f → current.find? k = none → f.lastSeenHead ≠ head

def CountsNothing (s : ReviewLoopState)
    (current : SortedMap String ReviewFindingObservation) : Prop :=
  ∀ k row, current.find? k = some row → row.status ≠ .fixed →
    ∃ f, s.findings.find? k = some f ∧ u32Max ≤ f.seenCount + 1

def Settles (s : ReviewLoopState) (head : String)
    (current : SortedMap String ReviewFindingObservation) : Prop :=
  ReassertsSeen s head current ∧ NamesSeen s head current ∨ CountsNothing s current

/-! ## What a row leaves behind -/

structure Settled (head : String) (row : ReviewFindingObservation) (f' : ReviewLoopFinding) :
    Prop where
  root : f'.rootCauseFingerprint = row.rootCauseFingerprint
  status : f'.status = row.status
  blocking : row.status ≠ .fixed → f'.blocking = row.blocking
  lastSeen : row.status ≠ .fixed → f'.lastSeenHead = head
  threads : ∀ thread ∈ row.threads, thread ∈ f'.threads
  sorted : f'.threads.Pairwise (· < ·)

theorem CanonicalRow.blocking_eq (h : CanonicalRow key row) :
    (decide (row.status = .open_) && row.blocking) = row.blocking := by
  cases hblocking : row.blocking with
  | false => exact Bool.and_false _
  | true => rw [Bool.and_true, decide_eq_true (h.blocking hblocking)]

theorem Observed.settled (h : Observed budget head headChanged row before f')
    (hrow : CanonicalRow key row) : Settled head row f' := by
  have hthreads : ∀ before : ReviewLoopFinding, ∀ thread ∈ row.threads,
      thread ∈ sortDedup (before.threads ++ row.threads) := fun _ _ hthread =>
    mem_sortDedup.mpr (List.mem_append_right _ hthread)
  cases h with
  | first => exact ⟨rfl, rfl, fun _ => hrow.blocking_eq, fun _ => rfl, fun _ h => h, hrow.threads⟩
  | reasserted hroot hfixed hwas _ =>
    exact ⟨hroot, hwas.trans hfixed.symm, fun h => absurd hfixed h, fun h => absurd hfixed h,
      hthreads _, sortDedup_sorted _⟩
  | seen _ hroot _ _ =>
    exact ⟨hroot, rfl, fun _ => hrow.blocking_eq, fun _ => rfl, hthreads _, sortDedup_sorted _⟩

def seenAgain (row : ReviewFindingObservation) (f : ReviewLoopFinding) : ReviewLoopFinding :=
  if row.status = .fixed then f else { f with seenCount := u32Succ f.seenCount }

theorem Settled.observed_iff (h : Settled head row f) (hrow : CanonicalRow key row) :
    Observed budget head false row (some f) f' ↔ f' = seenAgain row f := by
  have hthreads : sortDedup (f.threads ++ row.threads) = f.threads :=
    eq_of_mem_iff (sortDedup_sorted _) h.sorted fun thread => by
      rw [mem_sortDedup, List.mem_append]
      exact or_iff_left_of_imp (h.threads thread)
  have hnot : ¬ (f.status = .fixed ∧ row.status = .open_) := fun ⟨hwas, hopen⟩ =>
    nomatch hwas.symm.trans (h.status.trans hopen)
  have hseen : row.status ≠ .fixed →
      ({ f with
        status := row.status
        blocking := decide (row.status = .open_) && row.blocking
        lastSeenHead := head
        seenCount := u32Succ f.seenCount
        threads := sortDedup (f.threads ++ row.threads) } : ReviewLoopFinding) =
        { f with seenCount := u32Succ f.seenCount } := by
    intro hfixed
    rw [hthreads, hrow.blocking_eq, ← h.blocking hfixed, ← h.lastSeen hfixed, ← h.status]
  have hsame : ({ f with threads := sortDedup (f.threads ++ row.threads) } : ReviewLoopFinding) = f := by
    rw [hthreads]
  unfold seenAgain
  constructor
  · intro hobserved
    cases hobserved with
    | reasserted _ hfixed _ _ => rw [if_pos hfixed, hsame]
    | seen reopenCount _ hfixed hreopen =>
      have hne : row.status ≠ .fixed := fun h => Bool.false_ne_true (hfixed h)
      obtain rfl : reopenCount = f.reopenCount := by
        rcases hreopen with ⟨hwas, hopen, -⟩ | ⟨-, hcount⟩
        · exact absurd ⟨hwas, hopen⟩ hnot
        · exact hcount
      rw [if_neg hne, ← hseen hne]
  · rintro rfl
    by_cases hfixed : row.status = .fixed
    · have hreassert : Observed budget head false row (some f)
          { f with threads := sortDedup (f.threads ++ row.threads) } :=
        .reasserted h.root hfixed (h.status.trans hfixed) rfl
      rw [if_pos hfixed]
      rwa [hsame] at hreassert
    · rw [if_neg hfixed, ← hseen hfixed]
      exact .seen f.reopenCount h.root (fun h => absurd h hfixed) (.inr ⟨hnot, rfl⟩)

/-! ## The state that is observed again -/

theorem exists_advanced
    (hround : nextRound start (decide (start.headSha ≠ head)) ≤ start.budget.maxRepairRounds)
    (hno : nextNoProgress start (decide (start.headSha ≠ head)) current ≤
      start.budget.maxNoProgressRounds)
    (hrows : ∀ k row, current.find? k = some row → ∃ f, Observed start.budget head
      (decide (start.headSha ≠ head)) row (start.findings.find? k) f) :
    ∃ next, Advanced start head current next := by
  cases hfindings : SortedMap.upsertAll
      (fun _ => observeFinding start.budget head (decide (start.headSha ≠ head))) current.rows
      start.findings with
  | error e =>
    obtain ⟨row, hrow, herror⟩ := SortedMap.upsertAll_eq_error current.keys_nodup hfindings
    obtain ⟨f, hobserved⟩ := hrows row.1 row.2 (SortedMap.find?_eq_some_iff.mpr hrow)
    rw [observeFinding_eq_ok.mpr hobserved] at herror
    cases herror
  | ok findings =>
    have hadvance : (advance start head current).isOk = true := by
      unfold advance
      dsimp only
      rw [(ensure_eq_ok (u := ())).mpr hround, (ensure_eq_ok (u := ())).mpr hno, ok_bind, ok_bind,
        hfindings]
      rfl
    cases hresult : advance start head current with
    | error e => rw [hresult] at hadvance; cases hadvance
    | ok t => exact ⟨t.state, (advance_eq_ok.mp hresult).1⟩

theorem Advanced.valid (h : Advanced start head current next) (hhead : head ≠ "")
    (hvalid : validateReviewLoopState start = .ok ())
    (hcanonical : ∀ k row, current.find? k = some row → CanonicalRow k row) :
    validateReviewLoopState next = .ok () := by
  obtain ⟨-, hfindings, -⟩ := validateReviewLoopState_eq_ok.mp hvalid
  refine validateReviewLoopState_eq_ok.mpr ⟨h.headSha ▸ hhead, fun k f hf => ?_, ?_⟩
  · cases hrow : current.find? k with
    | none => exact hfindings k f ((h.unnamed k hrow).symm.trans hf)
    | some row =>
      obtain ⟨f', hobserved, hf'⟩ := h.named k row hrow
      obtain rfl : f = f' := Option.some.inj (hf.symm.trans hf')
      have hroot : ∀ root, f.rootCauseFingerprint = some root → root = k := by
        rw [(hobserved.settled (hcanonical k row hrow)).root]
        exact (hcanonical k row hrow).root
      have hkey := (hcanonical k row hrow).lifecycle
      generalize hbefore : start.findings.find? k = before at hobserved
      cases hobserved with
      | first => exact ⟨hkey, hroot, hhead, hhead, Nat.one_ne_zero⟩
      | reasserted _ _ _ _ =>
        have hwas := hfindings k _ hbefore
        exact ⟨hkey, hroot, hwas.firstSeen, hwas.lastSeen, hwas.seen⟩
      | seen _ _ _ _ =>
        have hwas := hfindings k _ hbefore
        exact ⟨hkey, hroot, hwas.firstSeen, hhead,
          fun hzero => hwas.seen (Nat.eq_zero_of_le_zero (hzero ▸ le_u32Succ _))⟩
  · intro stop hstop
    cases h.hardStop.symm.trans hstop

theorem Advanced.matches_iff (h : Advanced start head current next)
    (hcanonical : ∀ k row, current.find? k = some row → CanonicalRow k row) :
    observationMatchesState next current = true ↔
      ReassertsSeen start head current ∧ NamesSeen start head current := by
  rw [observationMatchesState_iff, h.headSha]
  constructor
  · rintro ⟨hnamed, hrows⟩
    refine ⟨fun hhead k row f hrow hfixed hf => ?_, fun k f hf hnone hlast => ?_⟩
    · obtain ⟨f', hobserved, hf'⟩ := h.named k row hrow
      obtain ⟨f'', hf'', hlast, -, -, hblocking, -⟩ := hrows k row hrow
      obtain rfl : f' = f'' := Option.some.inj (hf'.symm.trans hf'')
      have hrowBlocking : row.blocking = false := by
        by_contra hblock
        exact nomatch hfixed.symm.trans ((hcanonical k row hrow).blocking (by simpa using hblock))
      rw [hf] at hobserved
      cases hobserved with
      | reasserted _ _ _ _ => exact ⟨hlast, hblocking.trans hrowBlocking⟩
      | seen _ _ hnew _ => exact absurd hhead (of_decide_eq_true (hnew hfixed))
    · obtain ⟨row, hrow⟩ := hnamed k f ((h.unnamed k hnone).trans hf) hlast
      cases hnone.symm.trans hrow
  · rintro ⟨hreasserts, hnames⟩
    refine ⟨fun k f' hf' hlast => ?_, fun k row hrow => ?_⟩
    · cases hrow : current.find? k with
      | some row => exact ⟨row, rfl⟩
      | none => exact absurd hlast (hnames k f' ((h.unnamed k hrow).symm.trans hf') hrow)
    · obtain ⟨f', hobserved, hf'⟩ := h.named k row hrow
      have hrow' := hcanonical k row hrow
      have hsettled := hobserved.settled hrow'
      have hseen : f'.lastSeenHead = head ∧ f'.blocking = row.blocking := by
        generalize hbefore : start.findings.find? k = before at hobserved
        cases hobserved with
        | first => exact ⟨rfl, hrow'.blocking_eq⟩
        | reasserted _ hfixed _ hhead =>
          have hsame : start.headSha = head := by simpa using hhead
          obtain ⟨hlast, hblocking⟩ := hreasserts hsame k row _ hrow hfixed hbefore
          refine ⟨hlast, hblocking.trans (Eq.symm ?_)⟩
          by_contra hblock
          exact nomatch hfixed.symm.trans (hrow'.blocking (by simpa using hblock))
        | seen _ _ _ _ => exact ⟨rfl, hrow'.blocking_eq⟩
      exact ⟨f', hf', hseen.1, hsettled.root, hsettled.status, hseen.2, hsettled.threads⟩

theorem u32Succ_eq_self {n : Nat} : u32Succ n = n ↔ u32Max ≤ n := by
  unfold u32Succ
  split <;> omega

theorem Advanced.observe_again (h : Advanced start head current next)
    (hcanonical : ∀ k row, current.find? k = some row → CanonicalRow k row)
    (hopen : ∀ k f, start.findings.find? k = some f → f.status = .open_ →
      ∃ row, current.find? k = some row)
    (hno : ¬ observationMatchesState next current = true) :
    ∃ again, observeFrom next head current = .ok ⟨again, decide (again ≠ next)⟩ ∧
      (again = next ↔ CountsNothing start current) := by
  have hsame : decide (next.headSha ≠ head) = false := by simp [h.headSha]
  have hobserved : ∀ k row, current.find? k = some row → ∃ f, next.findings.find? k = some f ∧
      Observed start.budget head (decide (start.headSha ≠ head)) row (start.findings.find? k) f ∧
      Settled head row f := by
    intro k row hrow
    obtain ⟨f, hobserved, hf⟩ := h.named k row hrow
    exact ⟨f, hf, hobserved, hobserved.settled (hcanonical k row hrow)⟩
  have hagain : ∃ again, Advanced next head current again := by
    refine exists_advanced ?_ ?_ fun k row hrow => ?_
    · rw [hsame, h.budget]
      exact h.roundWithin
    · rw [hsame, h.budget]
      simpa [nextNoProgress] using h.noProgressWithin
    · obtain ⟨f, hf, -, hsettled⟩ := hobserved k row hrow
      rw [hf, hsame]
      exact ⟨_, (hsettled.observed_iff (hcanonical k row hrow)).mpr rfl⟩
  obtain ⟨again, hadv⟩ := hagain
  -- each row has made of its finding what the same row makes of it again
  have hnamed : ∀ k row f, current.find? k = some row → next.findings.find? k = some f →
      again.findings.find? k = some (seenAgain row f) := by
    intro k row f hrow hf
    obtain ⟨f', hf', -, hsettled⟩ := hobserved k row hrow
    obtain rfl : f = f' := Option.some.inj (hf.symm.trans hf')
    obtain ⟨f'', hobserved', hf''⟩ := hadv.named k row hrow
    rw [hf, hsame] at hobserved'
    rw [hf'', (hsettled.observed_iff (hcanonical k row hrow)).mp hobserved']
  refine ⟨again, observeFrom_eq_ok.mpr (.inr ⟨fun hne => absurd h.headSha hne, fun _ =>
    ⟨hno, fun k f hf => checkSameHead_eq_ok.mpr fun hstatus => ?_⟩, hadv, rfl⟩), ?_⟩
  · cases hrow : current.find? k with
    | none =>
      obtain ⟨row, hrow'⟩ := hopen k f ((h.unnamed k hrow).symm.trans hf) hstatus
      cases hrow.symm.trans hrow'
    | some row =>
      obtain ⟨f', hf', -, hsettled⟩ := hobserved k row hrow
      obtain rfl : f = f' := Option.some.inj (hf.symm.trans hf')
      have hrowOpen : row.status = .open_ := hsettled.status.symm.trans hstatus
      have hne : row.status ≠ .fixed := fun hfixed => nomatch hrowOpen.symm.trans hfixed
      exact ⟨row, rfl, hne, fun ⟨hblocking, _, hclear⟩ =>
        hclear ((hsettled.blocking hne).symm.trans hblocking)⟩
  · constructor
    · rintro rfl k row hrow hfixed
      obtain ⟨f, hf, hobserved', -⟩ := hobserved k row hrow
      have hcount := hnamed k row f hrow hf
      rw [hf, seenAgain, if_neg hfixed, Option.some.injEq] at hcount
      have hmax : u32Max ≤ f.seenCount :=
        u32Succ_eq_self.mp (congrArg ReviewLoopFinding.seenCount hcount).symm
      generalize hbefore : start.findings.find? k = before at hobserved'
      cases hobserved' with
      | first => exact absurd (hmax.trans_eq rfl) (show ¬ u32Max ≤ 1 by decide)
      | reasserted _ hrowFixed _ _ => exact absurd hrowFixed hfixed
      | @seen f _ _ _ _ => exact ⟨f, rfl, hmax.trans (u32Succ_le _)⟩
    · intro hcounts
      have hfindings : again.findings = next.findings := by
        refine SortedMap.ext_find? fun k => ?_
        cases hrow : current.find? k with
        | none => exact hadv.unnamed k hrow
        | some row =>
          obtain ⟨f, hf, hobserved', -⟩ := hobserved k row hrow
          rw [hnamed k row f hrow hf, hf, seenAgain]
          by_cases hfixed : row.status = .fixed
          · rw [if_pos hfixed]
          · obtain ⟨f₀, hf₀, hmax⟩ := hcounts k row hrow hfixed
            have hcount : u32Succ f.seenCount = f.seenCount := by
              rw [hf₀] at hobserved'
              cases hobserved' with
              | reasserted _ hrowFixed _ _ => exact absurd hrowFixed hfixed
              | seen _ _ _ _ =>
                refine u32Succ_eq_self.mpr ?_
                show u32Max ≤ u32Succ f₀.seenCount
                unfold u32Succ
                split <;> omega
            rw [if_neg hfixed, hcount]
      have hround : again.round = next.round := by rw [hadv.round, hsame]; rfl
      have hnoProgress : again.noProgressRounds = next.noProgressRounds := by
        rw [hadv.noProgress, hsame]
        simp [nextNoProgress]
      have hhead : again.headSha = next.headSha := hadv.headSha.trans h.headSha.symm
      have hstop : again.hardStop = next.hardStop := hadv.hardStop.trans h.hardStop.symm
      have hbudget := hadv.budget
      have hextensions := hadv.extensions
      cases again
      cases next
      simp only at hfindings hround hnoProgress hhead hstop hbudget hextensions
      rw [hfindings, hround, hnoProgress, hhead, hstop, hbudget, hextensions]

/-- A repeated observation is accepted and changes nothing exactly where the first one settles. -/
theorem observation_repeats (h : observeReviewLoop host (some s) head rows = .ok t)
    (hrows : canonicalObservations rows = .ok current) :
    observeReviewLoop host (some t.state) head rows = .ok ⟨t.state, false⟩ ↔
      Settles s head current := by
  obtain ⟨htrim, current', hcurrent, hvalid, -, h⟩ := observeReviewLoop_eq_ok.mp h
  obtain rfl : current = current' := Except.ok.inj (hrows.symm.trans hcurrent)
  have hcanonical := canonicalObservations_ok hrows
  have hhead : head ≠ "" := by
    rintro rfl
    exact htrim rfl
  have hvalid' : validateReviewLoopState { s with hardStop := none } = .ok () := by
    obtain ⟨hs, hfindings, -⟩ := validateReviewLoopState_eq_ok.mp hvalid
    exact validateReviewLoopState_eq_ok.mpr ⟨hs, hfindings, nofun⟩
  have hrepeat : ∀ {t' : ReviewLoopTransition}, t.state.hardStop = none →
      validateReviewLoopState t.state = .ok () →
      (observeReviewLoop host (some t.state) head rows = .ok t' ↔
        observeFrom t.state head current = .ok t') := by
    intro t' hstop hvalid
    have hstart : { t.state with hardStop := none } = t.state := by rw [← hstop]
    rw [observeReviewLoop_eq_ok, hstart]
    constructor
    · rintro ⟨-, current', hcurrent', -, -, hfrom⟩
      obtain rfl : current = current' := Except.ok.inj (hrows.symm.trans hcurrent')
      exact hfrom
    · intro hfrom
      refine ⟨htrim, current, hrows, hvalid, fun stop hs => ?_, hfrom⟩
      cases hstop.symm.trans hs
  rcases observeFrom_eq_ok.mp h with ⟨hsame, hmatch, rfl⟩ | ⟨hmissing, hchecked, hadv, -⟩
  · -- a repeated observation already says what was last seen at its head, and nothing else
    refine iff_of_true ((hrepeat rfl hvalid').mpr h) (.inl ⟨fun _ k row f hrow hfixed hf => ?_,
      fun k f hf hnone hlast => ?_⟩)
    · obtain ⟨f', hf', hlast, -, -, hblocking, -⟩ := (observationMatchesState_iff.mp hmatch).2 k row hrow
      obtain rfl : f = f' := Option.some.inj (hf.symm.trans hf')
      refine ⟨hlast.trans hsame, hblocking.trans ?_⟩
      by_contra hblock
      exact nomatch hfixed.symm.trans ((hcanonical k row hrow).blocking (by simpa using hblock))
    · obtain ⟨row, hrow⟩ := (observationMatchesState_iff.mp hmatch).1 k f hf (hlast.trans hsame.symm)
      cases hnone.symm.trans hrow
  · have hopen : ∀ k f, s.findings.find? k = some f → f.status = .open_ →
        ∃ row, current.find? k = some row := by
      intro k f hf hstatus
      by_cases hsame : s.headSha = head
      · obtain ⟨row, hrow, -⟩ := checkSameHead_eq_ok.mp ((hchecked hsame).2 k f hf) hstatus
        exact ⟨row, hrow⟩
      · exact missing_eq_nil.mp (hmissing hsame) k f hf hstatus
    rw [hrepeat hadv.hardStop (hadv.valid hhead hvalid' hcanonical)]
    by_cases hmatch : observationMatchesState t.state current = true
    · exact iff_of_true (observeFrom_eq_ok.mpr (.inl ⟨hadv.headSha, hmatch, rfl⟩))
        (.inl ((hadv.matches_iff hcanonical).mp hmatch))
    · obtain ⟨again, hagain, hiff⟩ := hadv.observe_again hcanonical hopen hmatch
      have hnot : ¬ (ReassertsSeen s head current ∧ NamesSeen s head current) := fun hseen =>
        hmatch ((hadv.matches_iff hcanonical).mpr hseen)
      rw [hagain, Except.ok.injEq, Settles, or_iff_right hnot]
      constructor
      · intro heq
        exact hiff.mp (congrArg ReviewLoopTransition.state heq)
      · intro hcounts
        obtain rfl := hiff.mpr hcounts
        simp

theorem observation_repeats_carried :
    observeReviewLoop sampleLoopHost (some carriedState) "h2" [] = .ok ⟨carriedState, false⟩ ↔
      Settles carriedState "h2" .empty :=
  @observation_repeats sampleLoopHost carriedState "h2" [] .empty ⟨carriedState, false⟩ (by decide)
    rfl

/-! ## An observation that is not recognized again -/

def observeAll (host : LoopHost) (history : List (String × List ReviewFindingObservation)) :
    Except ForgeError (Option ReviewLoopState) :=
  history.foldlM (fun previous observation => do
    let t ← observeReviewLoop host previous observation.1 observation.2
    .ok (some t.state)) none

def sampleRow (fingerprint : String) (status : ReviewFindingStatus) : ReviewFindingObservation where
  fingerprint := fingerprint
  rootCauseFingerprint := none
  blocking := false
  status := status
  threads := []

/-- One finding is found and fixed. -/
def fixedHistory : List (String × List ReviewFindingObservation) :=
  [("h1", [sampleRow "a:b:c" .open_]), ("h2", [sampleRow "a:b:c" .fixed])]

def fixedFinding : ReviewLoopFinding where
  rootCauseFingerprint := none
  status := .fixed
  blocking := false
  firstSeenHead := "h1"
  lastSeenHead := "h2"
  seenCount := 2
  reopenCount := 0
  threads := []

def fixedState : ReviewLoopState where
  headSha := "h2"
  round := 1
  noProgressRounds := 0
  budget := .default
  findings := SortedMap.empty.insert "a:b:c" fixedFinding
  extensions := []
  hardStop := none

/-- A second finding is then observed alone. -/
def foundState : ReviewLoopState :=
  { fixedState with
    findings := fixedState.findings.insert "a:b:d" (newFinding "h2" (sampleRow "a:b:d" .open_)) }

/-- The observation of the second finding is counted again. -/
theorem observation_counted_again : ¬ ∀ (host : LoopHost)
    (history : List (String × List ReviewFindingObservation)) (s : ReviewLoopState) (head : String)
    (rows : List ReviewFindingObservation) (t : ReviewLoopTransition),
    observeAll host history = .ok (some s) → observeReviewLoop host (some s) head rows = .ok t →
    observeReviewLoop host (some t.state) head rows = .ok ⟨t.state, false⟩ := by
  intro hall
  have hreached : observeAll sampleLoopHost fixedHistory = .ok (some fixedState) := by decide
  have hobserve : observeReviewLoop sampleLoopHost (some fixedState) "h2"
      [sampleRow "a:b:d" .open_] = .ok ⟨foundState, true⟩ := by decide
  have hagain : observeReviewLoop sampleLoopHost (some foundState) "h2"
      [sampleRow "a:b:d" .open_] ≠ .ok ⟨foundState, false⟩ := by decide
  exact hagain (hall sampleLoopHost fixedHistory fixedState "h2" [sampleRow "a:b:d" .open_]
    ⟨foundState, true⟩ hreached hobserve)

end NilsCli.Review
