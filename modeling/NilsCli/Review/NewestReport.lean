import NilsCli.Review.Admission
import NilsCli.Review.OwnedMarkers

/-!
# The newest report decides

Admission walks the candidates from the newest on and stops at the first report that is not passed
over, so its outcome depends on the reports of the designated reviewer alone (`Report`), in whatever
order the provider lists them, and an older pass never outvotes a newer report
(`newest_report_decides`).
-/

namespace NilsCli.Review

open Lib List

variable {env : Surroundings} {host : AdmissionHost} {chain : LoopChain} {author head : String}
  {review other : NativeReviewSummary} {reviews reviews' : List NativeReviewSummary}
  {text body : List Char} {after : Int}

/-! ## Blank bodies -/

theorem blank_iff : trimmed text = [] ↔ ∀ c ∈ text, isWhitespace c = true := by
  constructor
  · intro h c hc
    rw [trimmed, dropWhile_eq_nil_iff] at h
    rw [← rdropWhile_append_rtakeWhile (p := isWhitespace) (l := text), mem_append] at hc
    rcases hc with hc | hc
    · exact h c hc
    · exact mem_rtakeWhile_imp hc
  · intro h
    have hend : trimEnd text = [] := List.rdropWhile_eq_nil_iff.mpr h
    rw [trimmed, hend]
    rfl

theorem mem_of_mem_line {line : List Char} {c : Char} (h : line ∈ textLines text) (hc : c ∈ line) :
    c ∈ text := by
  obtain ⟨init, last, rfl, hinit, hlast⟩ := exists_terminated_append '\n' text
  rw [textLines_terminated hinit hlast, mem_append, mem_map] at h
  rw [mem_append]
  rcases h with ⟨line, hline, rfl⟩ | h
  · refine .inl (List.mem_flatMap.mpr ⟨line, hline, ?_⟩)
    exact mem_append_left _ (mem_of_mem_stripCr hc)
  · right
    by_cases hempty : last = []
    · simp [hempty] at h
    · simp only [hempty, if_false, mem_singleton] at h
      exact h ▸ hc

theorem ne_nil_of_known (h : publicationIsKnownOtherInterval chain body = true) :
    trimmed body ≠ [] := by
  intro hblank
  have hmarkers : bindingMarkers body = [] := by
    rw [bindingMarkers, filter_eq_nil_iff]
    intro line hline
    obtain ⟨line, hmem, rfl⟩ := List.mem_map.mp hline
    have hempty : trimmed line = [] :=
      blank_iff.mpr fun c hc => blank_iff.mp hblank c (mem_of_mem_line hmem hc)
    rw [hempty]
    decide
  rw [publicationIsKnownOtherInterval, hmarkers] at h
  cases h

/-! ## The order of reviews -/

theorem optionLe_total (a b : Option Nat) : optionLe a b || optionLe b a := by
  cases a <;> cases b <;> simp [optionLe, Nat.le_total]

theorem optionLe_trans {a b c : Option Nat} (h : optionLe a b) (h' : optionLe b c) :
    optionLe a c := by
  cases a <;> cases b <;> cases c <;> simp_all [optionLe]
  omega

theorem optionLe_antisymm {a b : Option Nat} (h : optionLe a b) (h' : optionLe b a) : a = b := by
  cases a <;> cases b <;> simp_all [optionLe]
  omega

theorem submittedLe_iff {a b : NativeReviewSummary} : submittedLe a b = true ↔
    textLe a.submittedAt b.submittedAt ∧
      (a.submittedAt = b.submittedAt → optionLe a.databaseId b.databaseId) := by
  rw [submittedLe, Bool.or_eq_true, Bool.and_eq_true, decide_eq_true_eq, textLt_iff]
  constructor
  · rintro (⟨hle, hne⟩ | ⟨heq, hle⟩)
    · exact ⟨hle, fun heq => absurd heq hne⟩
    · exact ⟨heq ▸ textLe_refl _, fun _ => hle⟩
  · rintro ⟨hle, hsame⟩
    by_cases heq : a.submittedAt = b.submittedAt
    · exact .inr ⟨heq, hsame heq⟩
    · exact .inl ⟨hle, heq⟩

theorem submittedLe_total (a b : NativeReviewSummary) : submittedLe a b || submittedLe b a := by
  have hids := optionLe_total a.databaseId b.databaseId
  have htexts := textLe_total a.submittedAt b.submittedAt
  rw [Bool.or_eq_true] at hids htexts ⊢
  rw [submittedLe_iff, submittedLe_iff]
  by_cases heq : a.submittedAt = b.submittedAt
  · rcases hids with hle | hle
    · exact .inl ⟨heq ▸ textLe_refl _, fun _ => hle⟩
    · exact .inr ⟨heq ▸ textLe_refl _, fun _ => hle⟩
  · rcases htexts with hle | hle
    · exact .inl ⟨hle, fun h => absurd h heq⟩
    · exact .inr ⟨hle, fun h => absurd h.symm heq⟩

theorem submittedLe_trans {a b c : NativeReviewSummary} (h : submittedLe a b)
    (h' : submittedLe b c) : submittedLe a c := by
  rw [submittedLe_iff] at h h' ⊢
  refine ⟨textLe_trans h.1 h'.1, fun heq => ?_⟩
  have hab : a.submittedAt = b.submittedAt := textLe_antisymm h.1 (heq ▸ h'.1)
  exact optionLe_trans (h.2 hab) (h'.2 (hab.symm.trans heq))

/-- What the reviews are told apart by. -/
def submission (review : NativeReviewSummary) : String × Option Nat :=
  (review.submittedAt, review.databaseId)

theorem submission_eq {a b : NativeReviewSummary} (h : submittedLe a b) (h' : submittedLe b a) :
    submission a = submission b := by
  rw [submittedLe_iff] at h h'
  have heq := textLe_antisymm h.1 h'.1
  exact Prod.ext heq (optionLe_antisymm (h.2 heq) (h'.2 heq.symm))

/-! ## The candidates -/

theorem candidates_pairwise (author head reviewedHead : String) (synced : Bool)
    (payload : PrReviewsPayload) :
    (candidates author head reviewedHead synced payload).Pairwise fun a b => submittedLe b a :=
  pairwise_sortBy (fun a b => submittedLe_total b a) (fun h h' => submittedLe_trans h' h) _

theorem candidates_perm (synced : Bool) (reviewedHead providerHead : String)
    (reviews : List NativeReviewSummary) :
    (candidates author head reviewedHead synced (computeForPr providerHead reviews)).Perm
      (reviews.filter fun r => matchesDesignatedAuthor r author &&
        (r.commitSha = head || synced && r.commitSha = reviewedHead)) := by
  refine (perm_sortBy _ _).trans (List.Perm.filter _ ?_)
  have hsplit := filter_append_perm
    (fun r : NativeReviewSummary => decide (r.commitSha = providerHead)) reviews
  simpa [computeForPr] using hsplit

def otherInterval (host : AdmissionHost) (chain : LoopChain) (author : String)
    (review : NativeReviewSummary) : Bool :=
  match reportBody host author review with
  | .ok body => publicationIsKnownOtherInterval chain body
  | .error _ => false

theorem otherInterval_iff : otherInterval host chain author review = true ↔
    ∃ body, reportBody host author review = .ok body ∧
      publicationIsKnownOtherInterval chain body = true := by
  unfold otherInterval
  cases hbody : reportBody host author review with
  | ok body => simp
  | error e => simp

/-! ## The walk -/

theorem onlyReplies_of_ne (h : trimmed body ≠ []) : onlyReplies host review body = .ok false :=
  if_neg fun hblank => h hblank.2

theorem selectPass_cons_other (h : otherInterval host chain author review = true) :
    selectPass host chain author after (review :: reviews) =
      selectPass host chain author after reviews := by
  obtain ⟨body, hbody, hknown⟩ := otherInterval_iff.mp h
  rw [selectPass, hbody]
  show (onlyReplies host review body >>= _) = _
  rw [onlyReplies_of_ne (ne_nil_of_known hknown)]
  show (if (false || publicationIsKnownOtherInterval chain body) = true then _ else _) = _
  rw [hknown]
  rfl

theorem selectPass_filter (reviews : List NativeReviewSummary) :
    selectPass host chain author after reviews =
    selectPass host chain author after
      (reviews.filter fun r => !otherInterval host chain author r) := by
  induction reviews with
  | nil => rfl
  | cons review reviews ih =>
    by_cases hother : otherInterval host chain author review = true
    · rw [selectPass_cons_other hother, ih, filter_cons_of_neg (by simp [hother])]
    · rw [filter_cons_of_pos (by simpa using hother), selectPass, selectPass]
      simp only [ih]

/-- A review that the walk goes past. -/
def PassedOver (host : AdmissionHost) (chain : LoopChain) (author : String)
    (review : NativeReviewSummary) : Prop :=
  ∃ body, reportBody host author review = .ok body ∧
    (onlyReplies host review body = .ok true ∨ publicationIsKnownOtherInterval chain body = true)

theorem selectPass_some
    (h : selectPass host chain author after reviews = .ok (some (review, body))) :
    ∃ newer older, reviews = newer ++ review :: older ∧
      (∀ r ∈ newer, PassedOver host chain author r) ∧ reportBody host author review = .ok body ∧
      ¬ PassedOver host chain author review ∧
      verdict host chain after review body = .ok (some (review, body)) := by
  induction reviews with
  | nil => cases h
  | cons first reviews ih =>
    rw [selectPass, bind_eq_ok] at h
    obtain ⟨text, hread, h⟩ := h
    obtain ⟨replies, hreplies, h⟩ := bind_eq_ok.mp h
    split at h
    case isTrue hskip =>
      obtain ⟨newer, older, rfl, hnewer, hrest⟩ := ih h
      refine ⟨first :: newer, older, rfl, List.forall_mem_cons.mpr ⟨⟨text, hread, ?_⟩, hnewer⟩, hrest⟩
      rcases Bool.or_eq_true _ _ ▸ hskip with rfl | hknown
      · exact .inl hreplies
      · exact .inr hknown
    case isFalse hstop =>
      have hsame : first = review ∧ text = body := by
        unfold verdict at h
        split at h
        · cases h
        · obtain ⟨-, h⟩ := ensure_bind_ok.mp h
          split at h
          · cases h
            exact ⟨rfl, rfl⟩
          · cases h
      obtain ⟨rfl, rfl⟩ := hsame
      refine ⟨[], reviews, rfl, forall_mem_nil _, hread, ?_, h⟩
      rintro ⟨text', hread', hpassed⟩
      obtain rfl : text = text' := Except.ok.inj (hread.symm.trans hread')
      rw [Bool.or_eq_true, not_or] at hstop
      rcases hpassed with hpassed | hpassed
      · exact hstop.1 (Except.ok.inj (hreplies.symm.trans hpassed))
      · exact hstop.2 hpassed

/-! ## Reports -/

def isReport (host : AdmissionHost) (chain : LoopChain) (head : String)
    (review : NativeReviewSummary) : Bool :=
  (latest chain.records).any (fun handoff =>
      matchesDesignatedAuthor review handoff.reviewAuthor &&
        !otherInterval host chain handoff.reviewAuthor review) &&
    (review.commitSha = head || (ownedState chain).any fun state => review.commitSha = state.headSha)

section
variable {handoff : ReviewHandoff} {state : ReviewLoopState} {sync : Option SyncMerge}
  {providerHead : String} {handoffCreatedAt : Option String} {admission : Admission}

theorem verifySync_isSome {reviewedHead : String}
    (h : verifySync env host handoff reviewedHead head = .ok sync) :
    sync.isSome = true ↔ reviewedHead ≠ head := by
  unfold verifySync at h
  split at h
  case isTrue hsame =>
    obtain ⟨base, -, h⟩ := bind_eq_ok.mp h
    obtain ⟨-, h⟩ := ensure_bind_ok.mp h
    cases h
    simp [hsame]
  case isFalse hdiffer =>
    obtain ⟨merge, -, h⟩ := orErr_bind_ok.mp h
    obtain ⟨scope, -, h⟩ := bind_eq_ok.mp h
    obtain ⟨-, h⟩ := ensure_bind_ok.mp h
    obtain ⟨-, h⟩ := ensure_bind_ok.mp h
    obtain ⟨-, h⟩ := ensure_bind_ok.mp h
    cases h
    simp [hdiffer]

theorem isReport_iff (hlatest : latest chain.records = some handoff)
    (hstate : ownedState chain = some state) : isReport host chain head review = true ↔
      (matchesDesignatedAuthor review handoff.reviewAuthor = true ∧
        otherInterval host chain handoff.reviewAuthor review = false) ∧
      (review.commitSha = head ∨ review.commitSha = state.headSha) := by
  simp [isReport, hlatest, hstate]

theorem candidates_reports (host : AdmissionHost) (hlatest : latest chain.records = some handoff)
    (hstate : ownedState chain = some state)
    (hsync : verifySync env host handoff state.headSha head = .ok sync) (providerHead : String)
    (reviews : List NativeReviewSummary) :
    ((candidates handoff.reviewAuthor head state.headSha sync.isSome
        (computeForPr providerHead reviews)).filter
      fun r => !otherInterval host chain handoff.reviewAuthor r).Perm
        (reviews.filter (isReport host chain head)) := by
  refine ((candidates_perm _ _ _ _).filter _).trans (List.Perm.of_eq ?_)
  rw [filter_filter]
  refine filter_congr fun review _ => ?_
  rw [Bool.eq_iff_iff, isReport_iff hlatest hstate]
  simp only [Bool.and_eq_true, Bool.or_eq_true, Bool.not_eq_true', decide_eq_true_eq,
    verifySync_isSome hsync]
  constructor
  · rintro ⟨hother, hauthor, hcommit | ⟨-, hcommit⟩⟩
    · exact ⟨⟨hauthor, hother⟩, .inl hcommit⟩
    · exact ⟨⟨hauthor, hother⟩, .inr hcommit⟩
  · rintro ⟨⟨hauthor, hother⟩, hcommit⟩
    refine ⟨hother, hauthor, ?_⟩
    by_cases hsame : state.headSha = head
    · exact .inl (hcommit.elim id fun h => h.trans hsame)
    · exact hcommit.imp id fun h => ⟨hsame, h⟩

theorem selectPass_same (hlatest : latest chain.records = some handoff)
    (hstate : ownedState chain = some state)
    (hsync : verifySync env host handoff state.headSha head = .ok sync)
    (hdistinct : (reviews.map submission).Nodup)
    (hsame : (reviews.filter (isReport host chain head)).Perm
      (reviews'.filter (isReport host chain head))) (providerHead : String) (after : Int) :
    selectPass host chain handoff.reviewAuthor after
        (candidates handoff.reviewAuthor head state.headSha sync.isSome
          (computeForPr providerHead reviews)) =
      selectPass host chain handoff.reviewAuthor after
        (candidates handoff.reviewAuthor head state.headSha sync.isSome
          (computeForPr providerHead reviews')) := by
  have hreports := candidates_reports host hlatest hstate hsync providerHead reviews
  have hperm := hreports.trans (hsame.trans
    (candidates_reports host hlatest hstate hsync providerHead reviews').symm)
  rw [selectPass_filter, selectPass_filter (candidates _ _ _ _ (computeForPr _ reviews'))]
  congr 1
  refine List.Perm.eq_of_pairwise (fun a b ha hb hab hba => ?_)
    ((candidates_pairwise _ _ _ _ _).filter _) ((candidates_pairwise _ _ _ _ _).filter _) hperm
  have ha := (List.mem_filter.mp (hreports.mem_iff.mp ha)).1
  have hb := (List.mem_filter.mp (hreports.mem_iff.mp (hperm.mem_iff.mpr hb))).1
  exact inj_on_of_nodup_map hdistinct ha hb (submission_eq hba hab)

theorem admitDesignated_same (hlatest : latest chain.records = some handoff)
    (hdistinct : (reviews.map submission).Nodup)
    (hsame : (reviews.filter (isReport host chain head)).Perm
      (reviews'.filter (isReport host chain head))) :
    admitDesignated env host head chain handoffCreatedAt (computeForPr providerHead reviews) handoff =
      admitDesignated env host head chain handoffCreatedAt (computeForPr providerHead reviews')
        handoff := by
  unfold admitDesignated
  cases hstate : ownedState chain with
  | none => rfl
  | some state =>
    cases hsync : verifySync env host handoff state.headSha head with
    | error e => simp only [orErr, bind, Except.bind, hsync]
    | ok sync =>
      have hselect := selectPass_same hlatest hstate hsync hdistinct hsame providerHead
      simp only [orErr, bind, Except.bind, hsync, hselect]
      rfl

/-! ## The pass -/

def RepliesOnly (host : AdmissionHost) (author : String) (review : NativeReviewSummary) : Prop :=
  ∃ body, reportBody host author review = .ok body ∧ onlyReplies host review body = .ok true

structure DesignatedPass (host : AdmissionHost) (chain : LoopChain) (head : String)
    (handoffCreatedAt : Option String) (reviews : List NativeReviewSummary)
    (handoff : ReviewHandoff) (state : ReviewLoopState) (review : NativeReviewSummary)
    (body : List Char) : Prop where
  latest : latest chain.records = some handoff
  owned : ownedState chain = some state
  noStop : state.hardStop = none
  noOpenBlocking : ∀ finding ∈ state.findings.values,
    ¬ (finding.blocking = true ∧ finding.status = .open_)
  mem : review ∈ reviews
  report : isReport host chain head review = true
  read : reportBody host handoff.reviewAuthor review = .ok body
  newest : ∀ other ∈ reviews, isReport host chain head other = true →
    ¬ RepliesOnly host handoff.reviewAuthor other → submittedLe other review = true
  bound : ∃ digest, latestHandoffDigest chain = some digest ∧
    bindingMarkers body = [publicationBinding digest]
  native : review.state = "APPROVED" ∨ review.state = "COMMENTED"
  valid : host.validateSpecialistReviewReport body = .ok ()
  verdict : ∃ line ∈ textLines body, trimmed line ∈ passVerdicts
  later : ∃ created submitted, handoffCreatedAt.bind host.parseTimestamp = some created ∧
    host.parseTimestamp review.submittedAt = some submitted ∧ created < submitted

theorem bound_of_matches (h : publicationMatchesInterval chain body = true) :
    ∃ digest, latestHandoffDigest chain = some digest ∧
      bindingMarkers body = [publicationBinding digest] := by
  rw [publicationMatchesInterval, Bool.and_eq_true, decide_eq_true_eq, Option.any_eq_true] at h
  obtain ⟨hlength, digest, hdigest, hhead⟩ := h
  refine ⟨digest, hdigest, ?_⟩
  obtain ⟨marker, hmarker⟩ := List.length_eq_one_iff.mp hlength
  rw [hmarker, List.head?_cons, decide_eq_true_eq, Option.some.injEq] at hhead
  rw [bindingMarkers, hmarker, hhead]

theorem verdict_some (h : verdict host chain after review body = .ok (some (review, body))) :
    publicationMatchesInterval chain body = true ∧ passes host after review body = true := by
  unfold verdict at h
  split at h
  · cases h
  · obtain ⟨hbound, h⟩ := ensure_bind_ok.mp h
    split at h
    case isTrue hpass => exact ⟨hbound, hpass⟩
    case isFalse => cases h

theorem passes_iff : passes host after review body = true ↔
    host.validateSpecialistReviewReport body = .ok () ∧
      (review.state = "APPROVED" ∨ review.state = "COMMENTED") ∧
      (∃ submitted, host.parseTimestamp review.submittedAt = some submitted ∧ after < submitted) ∧
      ∃ line ∈ textLines body, trimmed line ∈ passVerdicts := by
  cases hvalid : host.validateSpecialistReviewReport body with
  | error e => simp [passes, hvalid]
  | ok u => simp [passes, hvalid, Option.any_eq_true, and_assoc]

theorem admitDesignated_ok (hlatest : latest chain.records = some handoff)
    (h : admitDesignated env host head chain handoffCreatedAt (computeForPr providerHead reviews)
      handoff = .ok admission) :
    ∃ state review body, admission.approval = some (.fromReview review head) ∧
      DesignatedPass host chain head handoffCreatedAt reviews handoff state review body := by
  obtain ⟨state, hstate, h⟩ := orErr_bind_ok.mp h
  obtain ⟨⟨hstop, hopen⟩, h⟩ := ensure_bind_ok.mp h
  obtain ⟨sync, hsync, h⟩ := bind_eq_ok.mp h
  obtain ⟨-, h⟩ := ensure_bind_ok.mp h
  obtain ⟨created, hcreated, h⟩ := orErr_bind_ok.mp h
  obtain ⟨passing, hselect, h⟩ := bind_eq_ok.mp h
  obtain ⟨⟨review, body⟩, rfl, h⟩ := orErr_bind_ok.mp h
  change (host.testIntegrity head review.author body >>= _) = _ at h
  obtain ⟨_, -, h⟩ := bind_eq_ok.mp h
  cases h
  obtain ⟨newer, older, hwalk, hnewer, hread, hstopped, hverdict⟩ := selectPass_some hselect
  obtain ⟨hbound, hpasses⟩ := verdict_some hverdict
  obtain ⟨hvalid, hnative, ⟨submitted, hsubmitted, hlater⟩, hline⟩ := passes_iff.mp hpasses
  have hreports := candidates_reports host hlatest hstate hsync providerHead reviews
  have hsorted := candidates_pairwise handoff.reviewAuthor head state.headSha sync.isSome
    (computeForPr providerHead reviews)
  rw [hwalk] at hreports hsorted
  have hreport : review ∈ reviews.filter (isReport host chain head) := by
    refine hreports.mem_iff.mp (List.mem_filter.mpr ⟨by simp, ?_⟩)
    by_contra hother
    obtain ⟨body', hread', hknown⟩ := otherInterval_iff.mp (by simpa using hother)
    exact hstopped ⟨body', hread', .inr hknown⟩
  refine ⟨state, review, body, rfl, hlatest, hstate, ?_, ?_, (List.mem_filter.mp hreport).1,
    (List.mem_filter.mp hreport).2, hread, ?_, bound_of_matches hbound, hnative, hvalid, hline,
    ⟨created, submitted, hcreated, hsubmitted, hlater⟩⟩
  · simpa using hstop
  · intro finding hfinding ⟨hblocking, hopenStatus⟩
    exact hopen (List.any_eq_true.mpr ⟨finding, hfinding, by simp [hblocking, hopenStatus]⟩)
  · intro other hother hotherReport hreplies
    have hmem := (List.mem_filter.mp
      (hreports.mem_iff.mpr (List.mem_filter.mpr ⟨hother, hotherReport⟩))).1
    rcases List.mem_append.mp hmem with hmem | hmem
    · obtain ⟨text, htext, hpassed | hknown⟩ := hnewer other hmem
      · exact absurd ⟨text, htext, hpassed⟩ hreplies
      · have hcounts := ((isReport_iff hlatest hstate).mp hotherReport).1.2
        rw [otherInterval_iff.mpr ⟨text, htext, hknown⟩] at hcounts
        cases hcounts
    · rcases List.mem_cons.mp hmem with rfl | hmem
      · simpa using submittedLe_total other other
      · exact (List.pairwise_cons.mp (List.pairwise_append.mp hsorted).2.1).1 other hmem

theorem latest_of_assigned {texts : Host ReviewLoopState LoopReceipt} {active : Option ReviewHandoff}
    (h : assigned texts env chain.records = .ok active) : latest chain.records = active := by
  obtain ⟨requested, -, h⟩ := bind_eq_ok.mp h
  cases hlatest : latest chain.records with
  | none =>
    rw [hlatest] at h
    exact Except.ok.inj (ensure_bind_ok.mp h).2
  | some handoff =>
    rw [hlatest] at h
    exact Except.ok.inj (ensure_bind_ok.mp (ensure_bind_ok.mp h).2).2

/-- The outcome of admission depends on the reports alone, and what is admitted is the newest of
them: without a handoff there is nothing to admit. -/
theorem newest_report_decides (texts : Host ReviewLoopState LoopReceipt) (env : Surroundings)
    (host : AdmissionHost) (head providerHead : String) (chain : LoopChain)
    (handoffCreatedAt : Option String) {reviews reviews' : List NativeReviewSummary}
    (hdistinct : (reviews.map submission).Nodup)
    (hsame : (reviews.filter (isReport host chain head)).Perm
      (reviews'.filter (isReport host chain head))) :
    admitPublished env host texts head chain handoffCreatedAt (computeForPr providerHead reviews) =
        admitPublished env host texts head chain handoffCreatedAt
          (computeForPr providerHead reviews') ∧
      ∀ admission, admitPublished env host texts head chain handoffCreatedAt
          (computeForPr providerHead reviews) = .ok admission →
        latest chain.records = none ∧ admission = ⟨none, none⟩ ∨
          ∃ handoff state review body, admission.approval = some (.fromReview review head) ∧
            DesignatedPass host chain head handoffCreatedAt reviews handoff state review body := by
  unfold admitPublished
  cases hassigned : assigned texts env chain.records with
  | error e => exact ⟨rfl, fun _ h => nomatch h⟩
  | ok active =>
    cases active with
    | none =>
      refine ⟨rfl, fun admission h => .inl ⟨latest_of_assigned hassigned, ?_⟩⟩
      cases h
      rfl
    | some handoff =>
      have hlatest := latest_of_assigned hassigned
      refine ⟨admitDesignated_same hlatest hdistinct hsame, fun admission h => .inr ?_⟩
      exact ⟨handoff, admitDesignated_ok hlatest h⟩
end

/-! ## A report that cannot be read -/

def isListedReport (chain : LoopChain) (head : String) (review : NativeReviewSummary) : Bool :=
  (latest chain.records).any (fun handoff =>
      matchesDesignatedAuthor review handoff.reviewAuthor &&
        !publicationIsKnownOtherInterval chain review.summary) &&
    (review.commitSha = head || (ownedState chain).any fun state => review.commitSha = state.headSha)

def firstAssignment : ReviewHandoff := { reportHandoff with reviewAuthor := "octo[bot]" }

/-- The target branch has moved. -/
def secondAssignment : ReviewHandoff :=
  { firstAssignment with
    assignmentGeneration := 2, baseSha := "cccccccccccccccccccccccccccccccccccccccc" }

def observedState : ReviewLoopState :=
  { headSha := firstAssignment.assignedHead, round := 1, noProgressRounds := 0
    budget := .default, findings := .empty, extensions := [], hardStop := none }

/-- The digest of the record of a generation. -/
def recordDigestAt : Nat → String
  | 0 => hexText 'a'
  | 1 => hexText 'b'
  | _ => hexText 'c'

def assignmentRecord (generation assignment : Nat) (previous : Option String)
    (payload : ReviewStatePayload ReviewLoopState LoopReceipt) : LoopRecord :=
  { schema := reviewStateSchema, repository := "o/r", pr := 1
    expectedHead := observedState.headSha, generation := generation, previousDigest := previous
    payload := payload, assignmentGeneration := some assignment
    recordDigest := recordDigestAt generation }

def assignmentRecords : List LoopRecord :=
  [assignmentRecord 0 1 none (.reviewHandoff firstAssignment),
    assignmentRecord 1 2 (some (hexText 'a')) (.reviewHandoff secondAssignment),
    assignmentRecord 2 2 (some (hexText 'b')) (.reviewLoop observedState)]

def assignmentChain : LoopChain := ⟨assignmentRecords, some (hexText 'c'), []⟩

/-- Texts in which the comments are the records. -/
def assignmentHost : Host ReviewLoopState LoopReceipt where
  sha256Digest text := recordDigestAt text.utf8ByteSize
  preimageText preimage := .ofList (List.replicate preimage.generation '.')
  parseStateMarker comment := .ok assignmentRecords[comment.utf8ByteSize]?
  marker _ := .ok ""
  renderStateCommentBody _ _ := .ok ""
  validTimestamp _ := true
  validRole _ := true
  headSha := (·.headSha)
  attemptedHeadSha state := state.hardStop.map (·.attemptedHeadSha)
  validateReviewLoopState := validateReviewLoopState
  validateCorrection _ _ := .ok ()
  validateSupersession _ _ := .ok ()
  validateAcceptance _ _ := .ok ()

theorem parseChain_assignment :
    parseChain assignmentHost "o/r" 1 ["", ".", ".."] = .ok assignmentChain := by
  decide +kernel

def assignmentEnv : Surroundings where
  agentSessionId := ""
  agentReviewerSession := none
  agentReviewAssignmentGeneration := none
  providerHead := .ok (some observedState.headSha)
  providerBase := .ok secondAssignment.baseSha
  supervisorPolicy := .ok ([], 0)
  retirementEvidence := .error (fail "review_coordinator_unproven" "")
  supervisorAttestation := .error (fail "review_writer_conflict" "")

def changedHost : AdmissionHost where
  verifyMerge _ _ := none
  verifyOnTarget _ _ := false
  providerBaseScope := .ok (secondAssignment.baseSha, "main")
  readBoundBody _ _ _ :=
    .error (fail "review_snapshot_incomplete" "native report changed during read-back")
  nativeReviewContainsOnlyReplies _ := .ok false
  validateReviewable _ _ := .ok ()
  validateSpecialistReviewReport _ := .ok ()
  parseTimestamp text := some text.utf8ByteSize
  testIntegrity _ _ _ := .ok ()

/-- A report for the first assignment. -/
def delayedReport : NativeReviewSummary where
  id := "r"
  databaseId := some 7
  url := "u"
  author := "octo"
  authorNodeId := some "n"
  authorType := some "Bot"
  state := "COMMENTED"
  commitSha := observedState.headSha
  submittedAt := "2026-01-01T00:00:00Z"
  summary := publicationBinding (hexText 'a')
  summaryTruncated := false

/-- A report of another author. -/
def strayReport : NativeReviewSummary := { delayedReport with author := "eve", databaseId := some 8 }

theorem newest_report_decides_stray :
    admitPublished assignmentEnv changedHost assignmentHost observedState.headSha assignmentChain
        (some "2026-01-01") (computeForPr observedState.headSha [strayReport, delayedReport]) =
      admitPublished assignmentEnv changedHost assignmentHost observedState.headSha assignmentChain
        (some "2026-01-01") (computeForPr observedState.headSha [delayedReport]) :=
  have hstray : isReport changedHost assignmentChain observedState.headSha strayReport = false := by
    decide +kernel
  (newest_report_decides assignmentHost assignmentEnv changedHost observedState.headSha
    observedState.headSha assignmentChain (some "2026-01-01") (by decide)
    (List.Perm.of_eq (List.filter_cons_of_neg (by rw [hstray]; exact Bool.false_ne_true)))).1

theorem newest_report_unread : ¬ ∀ (texts : Host ReviewLoopState LoopReceipt) (env : Surroundings)
    (host : AdmissionHost) (repository : String) (pr : Nat) (comments : List String)
    (chain : LoopChain) (head providerHead : String) (handoffCreatedAt : Option String)
    (reviews reviews' : List NativeReviewSummary),
    parseChain texts repository pr comments = .ok chain →
    (reviews.map submission).Nodup → (reviews'.map submission).Nodup →
    (reviews.filter (isListedReport chain head)).Perm (reviews'.filter (isListedReport chain head)) →
    admitPublished env host texts head chain handoffCreatedAt (computeForPr providerHead reviews) =
      admitPublished env host texts head chain handoffCreatedAt
        (computeForPr providerHead reviews') := by
  intro hall
  have hunlisted : isListedReport assignmentChain observedState.headSha delayedReport = false := by
    decide +kernel
  have hsame := hall assignmentHost assignmentEnv changedHost "o/r" 1 ["", ".", ".."]
    assignmentChain observedState.headSha observedState.headSha (some "2026-01-01") [delayedReport] []
    parseChain_assignment (List.nodup_singleton _) List.nodup_nil
    (List.Perm.of_eq (List.filter_cons_of_neg (by rw [hunlisted]; exact Bool.false_ne_true)))
  have hread : admitPublished assignmentEnv changedHost assignmentHost observedState.headSha
      assignmentChain (some "2026-01-01") (computeForPr observedState.headSha [delayedReport]) =
        .error (fail "review_snapshot_incomplete" "native report changed during read-back") := by
    decide +kernel
  have hnone : admitPublished assignmentEnv changedHost assignmentHost observedState.headSha
      assignmentChain (some "2026-01-01") (computeForPr observedState.headSha []) =
        .error (awaitingReview "published passing review for the current head is missing") := by
    decide +kernel
  rw [hread, hnone] at hsame
  exact absurd hsame (by decide)

end NilsCli.Review
