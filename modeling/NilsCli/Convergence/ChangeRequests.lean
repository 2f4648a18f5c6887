import NilsCli.Convergence.Snapshot

/-!
# Who requests changes

The loop over the reviews keeps the latest review of each reviewer that takes a position
(`latestReviews_tracks`).
-/

namespace NilsCli.Convergence

open Lib Review

variable {reviews reviews' seen : List NativeReviewSummary} {review other : NativeReviewSummary}
  {latest : SortedMap String NativeReviewSummary}

/-! ## The order of reviews -/

instance : Std.TransCmp reviewOrder :=
  inferInstanceAs (Std.TransCmp (compareLex (compareOn NativeReviewSummary.submittedAt)
    (compareLex (compareOn NativeReviewSummary.databaseId) (compareOn NativeReviewSummary.id))))

theorem reviewOrder_eq_eq : reviewOrder review other = .eq ↔
    review.submittedAt = other.submittedAt ∧ review.databaseId = other.databaseId ∧
      review.id = other.id := by
  simp [reviewOrder, Ordering.then_eq_eq]

structure Latest (reviews : List NativeReviewSummary) (review : NativeReviewSummary) : Prop where
  mem : review ∈ reviews
  takes : opinionated review.state
  none_later : ∀ other ∈ reviews, opinionated other.state →
    reviewIdentity other = reviewIdentity review → reviewOrder other review ≠ .gt

def KeysTell (reviews : List NativeReviewSummary) : Prop :=
  ∀ review ∈ reviews, ∀ other ∈ reviews, opinionated review.state → opinionated other.state →
    reviewIdentity review = reviewIdentity other → review.submittedAt = other.submittedAt →
      review.databaseId = other.databaseId → review.id = other.id → review = other

theorem KeysTell.perm (h : KeysTell reviews) (hperm : reviews.Perm reviews') : KeysTell reviews' :=
  fun review hreview other hother =>
    h review (hperm.mem_iff.mpr hreview) other (hperm.mem_iff.mpr hother)

theorem Latest.perm (h : Latest reviews review) (hperm : reviews.Perm reviews') :
    Latest reviews' review where
  mem := hperm.mem_iff.mp h.mem
  takes := h.takes
  none_later other hother := h.none_later other (hperm.mem_iff.mpr hother)

theorem Latest.unique (hkeys : KeysTell reviews) (h : Latest reviews review)
    (h' : Latest reviews other) (hidentity : reviewIdentity review = reviewIdentity other) :
    review = other := by
  have hle := Ordering.isLE_iff_ne_gt.mpr
    (h.none_later other h'.mem h'.takes hidentity.symm)
  have hge := Ordering.isLE_iff_ne_gt.mpr
    (h'.none_later review h.mem h.takes hidentity)
  have heq : reviewOrder review other = .eq := Std.OrientedCmp.isLE_antisymm hge hle
  obtain ⟨hat, hnumber, hid⟩ := reviewOrder_eq_eq.mp heq
  exact hkeys review h.mem other h'.mem h.takes h'.takes hidentity hat hnumber hid

/-! ## The loop -/

structure Tracks (seen : List NativeReviewSummary) (latest : SortedMap String NativeReviewSummary) :
    Prop where
  find : ∀ identity review, latest.find? identity = some review →
    reviewIdentity review = identity ∧ Latest seen review
  all : ∀ review ∈ seen, opinionated review.state →
    ∃ current, latest.find? (reviewIdentity review) = some current

theorem Latest.snoc (h : Latest seen review)
    (hother : opinionated other.state → reviewIdentity other = reviewIdentity review →
      reviewOrder other review ≠ .gt) : Latest (seen ++ [other]) review where
  mem := List.mem_append_left _ h.mem
  takes := h.takes
  none_later r hr := by
    rcases List.mem_append.mp hr with hr | hr
    · exact h.none_later r hr
    · obtain rfl : r = other := by simpa using hr
      exact hother

theorem Tracks.keep (h : Tracks seen latest)
    (hkeep : ∀ current, latest.find? (reviewIdentity review) = some current →
      opinionated review.state → reviewOrder review current ≠ .gt)
    (hheld : opinionated review.state →
      ∃ current, latest.find? (reviewIdentity review) = some current) :
    Tracks (seen ++ [review]) latest where
  find identity current hfind := by
    obtain ⟨hid, hlatest⟩ := h.find identity current hfind
    refine ⟨hid, hlatest.snoc fun hop hsame => hkeep current ?_ hop⟩
    rw [hsame, hid, hfind]
  all r hr hop := by
    rcases List.mem_append.mp hr with hr | hr
    · exact h.all r hr hop
    · obtain rfl : r = review := List.mem_singleton.mp hr
      exact hheld hop

theorem Tracks.is_latest (h : Tracks seen latest) (hop : opinionated review.state)
    (hlater : ∀ current, latest.find? (reviewIdentity review) = some current →
      reviewOrder review current = .gt) : Latest (seen ++ [review]) review where
  mem := by simp
  takes := hop
  none_later r hr hrop hid := by
    rcases List.mem_append.mp hr with hr | hr
    · obtain ⟨current, hcurrent⟩ := h.all r hr hrop
      obtain ⟨hid', hlatest⟩ := h.find _ current hcurrent
      have hle := Ordering.isLE_iff_ne_gt.mpr (hlatest.none_later r hr hrop hid'.symm)
      have hgt := hlater current (hid ▸ hcurrent)
      have hlt := Std.TransCmp.lt_of_isLE_of_lt hle (Std.OrientedCmp.gt_iff_lt.mp hgt)
      simp [hlt]
    · obtain rfl : r = review := List.mem_singleton.mp hr
      simp [reviewOrder_eq_eq.mpr ⟨rfl, rfl, rfl⟩]

theorem Tracks.insert (h : Tracks seen latest) (hop : opinionated review.state)
    (hlater : ∀ current, latest.find? (reviewIdentity review) = some current →
      reviewOrder review current = .gt) :
    Tracks (seen ++ [review]) (latest.insert (reviewIdentity review) review) where
  find identity current hfind := by
    by_cases heq : identity = reviewIdentity review
    · rw [heq, SortedMap.find?_insert_self, Option.some.injEq] at hfind
      rw [← hfind]
      exact ⟨heq.symm, h.is_latest hop hlater⟩
    · rw [SortedMap.find?_insert_of_ne _ _ heq] at hfind
      obtain ⟨hid, hlatest⟩ := h.find identity current hfind
      exact ⟨hid, hlatest.snoc fun _ hsame => absurd (hid.symm.trans hsame.symm) heq⟩
  all r hr hrop := by
    by_cases heq : reviewIdentity r = reviewIdentity review
    · exact ⟨review, by rw [heq, SortedMap.find?_insert_self]⟩
    · rw [SortedMap.find?_insert_of_ne _ _ heq]
      rcases List.mem_append.mp hr with hr | hr
      · exact h.all r hr hrop
      · exact absurd (congrArg reviewIdentity (List.mem_singleton.mp hr)) heq

theorem Tracks.latestWith (h : Tracks seen latest) (review : NativeReviewSummary) :
    Tracks (seen ++ [review]) (latestWith latest review) := by
  unfold Convergence.latestWith
  by_cases hop : opinionated review.state
  case neg =>
    -- a comment changes nothing
    rw [if_pos (by rw [Bool.eq_false_of_not_eq_true hop]; rfl)]
    exact h.keep (fun _ _ hop' => absurd hop' hop) fun hop' => absurd hop' hop
  case pos =>
    rw [if_neg (by rw [hop]; decide)]
    cases hfind : latest.find? (reviewIdentity review) with
    | none =>
      rw [if_pos (by rfl)]
      exact h.insert hop fun current hcurrent => by rw [hfind] at hcurrent; cases hcurrent
    | some kept =>
      by_cases hgt : reviewOrder review kept = .gt
      · rw [if_pos (by simpa using hgt)]
        refine h.insert hop fun current hcurrent => ?_
        rw [hfind, Option.some.injEq] at hcurrent
        rw [← hcurrent, hgt]
      · rw [if_neg (by simpa using hgt)]
        refine h.keep (fun current hcurrent _ => ?_) fun _ => ⟨kept, hfind⟩
        rw [hfind, Option.some.injEq] at hcurrent
        rw [← hcurrent]
        exact hgt

theorem latestReviews_tracks (reviews : List NativeReviewSummary) :
    Tracks reviews (latestReviews reviews) := by
  induction reviews using List.reverseRecOn with
  | nil => exact ⟨fun _ _ hfind => (nomatch hfind), fun _ hr => absurd hr List.not_mem_nil⟩
  | append_singleton seen review ih =>
    rw [latestReviews, List.foldl_append]
    exact ih.latestWith review

theorem Tracks.keys (h : Tracks seen latest) : latest.values.map reviewIdentity = latest.keys := by
  rw [SortedMap.values, SortedMap.keys, List.map_map]
  refine List.map_congr_left fun row hrow => ?_
  have hfind : latest.find? row.1 = some row.2 := SortedMap.find?_eq_some_iff.mpr hrow
  rw [Function.comp_apply]
  exact (h.find row.1 row.2 hfind).1

theorem find?_latestReviews (hkeys : KeysTell reviews) {identity : String} :
    (latestReviews reviews).find? identity = some review ↔
      Latest reviews review ∧ reviewIdentity review = identity := by
  have htracks := latestReviews_tracks reviews
  constructor
  · intro hfind
    exact (htracks.find identity review hfind).symm
  · rintro ⟨hlatest, rfl⟩
    obtain ⟨current, hcurrent⟩ := htracks.all review hlatest.mem hlatest.takes
    obtain ⟨hid, hlatest'⟩ := htracks.find _ current hcurrent
    rw [hcurrent, hlatest.unique hkeys hlatest' hid.symm]

theorem requests_iff (h : opinionated review.state) :
    eqIgnoreAsciiCase review.state "CHANGES_REQUESTED" = true ↔
      review.state = "CHANGES_REQUESTED" := by
  simp only [opinionated, decide_eq_true_eq] at h
  rcases h with h | h | h <;> rw [h] <;> decide

/-! ## The effective reviews -/

/-- The reviewers that request changes are those whose latest review does, each once, in whatever
order the provider lists the reviews. -/
theorem effective_by_latest (hkeys : KeysTell reviews) :
    (∃ latest : List NativeReviewSummary,
      effectiveChangesRequestedBy reviews = latest.map reviewDisplayIdentity ∧
        (latest.map reviewIdentity).Pairwise (· < ·) ∧
          ∀ review, review ∈ latest ↔ Latest reviews review ∧ review.state = "CHANGES_REQUESTED") ∧
      ∀ reviews', reviews.Perm reviews' →
        effectiveChangesRequestedBy reviews' = effectiveChangesRequestedBy reviews := by
  constructor
  · refine ⟨_, rfl, ?_, fun review => ?_⟩
    · have hsorted := List.pairwise_map.mpr (latestReviews reviews).sorted
      rw [← SortedMap.keys, ← (latestReviews_tracks reviews).keys] at hsorted
      exact hsorted.sublist (List.filter_sublist.map _)
    · rw [List.mem_filter, SortedMap.values, List.mem_map]
      constructor
      · rintro ⟨⟨row, hmem, rfl⟩, hstate⟩
        have hlatest := ((find?_latestReviews hkeys).mp (SortedMap.find?_eq_some_iff.mpr hmem)).1
        exact ⟨hlatest, (requests_iff hlatest.takes).mp hstate⟩
      · rintro ⟨hlatest, hstate⟩
        have hfind := (find?_latestReviews hkeys).mpr ⟨hlatest, rfl⟩
        exact ⟨⟨_, SortedMap.find?_eq_some_iff.mp hfind, rfl⟩,
          (requests_iff hlatest.takes).mpr hstate⟩
  · intro reviews' hperm
    have hsame : latestReviews reviews' = latestReviews reviews := by
      refine SortedMap.ext_find? fun identity => ?_
      ext review
      rw [find?_latestReviews (hkeys.perm hperm), find?_latestReviews hkeys]
      exact and_congr_left fun _ => ⟨fun h => h.perm hperm.symm, fun h => h.perm hperm⟩
    rw [effectiveChangesRequestedBy, hsame, effectiveChangesRequestedBy]

def sampleReview (author state : String) : NativeReviewSummary where
  id := "PRR_1"
  databaseId := some 1
  url := "https://github.com/acme/widgets/pull/7#pullrequestreview-1"
  author := author
  authorNodeId := none
  authorType := none
  state := state
  commitSha := "head"
  submittedAt := "2026-07-14T04:00:00Z"
  summary := []
  summaryTruncated := false

/-- Two reviewers are listed in one order, whichever review comes first. -/
theorem effective_by_latest_two :
    effectiveChangesRequestedBy
        [sampleReview "lead" "CHANGES_REQUESTED", sampleReview "reviewer" "CHANGES_REQUESTED"] =
      effectiveChangesRequestedBy
        [sampleReview "reviewer" "CHANGES_REQUESTED", sampleReview "lead" "CHANGES_REQUESTED"] := by
  have hkeys : KeysTell
      [sampleReview "reviewer" "CHANGES_REQUESTED", sampleReview "lead" "CHANGES_REQUESTED"] := by
    intro review hreview other hother _ _ hidentity _ _ _
    simp only [List.mem_cons, List.not_mem_nil, or_false] at hreview hother
    rcases hreview with rfl | rfl <;> rcases hother with rfl | rfl
    · rfl
    · exact absurd hidentity (by decide)
    · exact absurd hidentity (by decide)
    · rfl
  exact (effective_by_latest hkeys).2 _ (List.Perm.swap _ _ _)

/-- Two pages list a review before and after it is dismissed: the version on the first page stays. -/
theorem effective_of_versions : ¬ ∀ reviews reviews' : List NativeReviewSummary,
    reviews.Perm reviews' →
      effectiveChangesRequestedBy reviews' = effectiveChangesRequestedBy reviews := by
  intro h
  have hswap := h [sampleReview "reviewer" "CHANGES_REQUESTED", sampleReview "reviewer" "DISMISSED"]
    [sampleReview "reviewer" "DISMISSED", sampleReview "reviewer" "CHANGES_REQUESTED"]
    (List.Perm.swap _ _ _)
  exact absurd hswap (by decide)

end NilsCli.Convergence
