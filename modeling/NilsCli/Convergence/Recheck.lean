import NilsCli.Convergence.Snapshot
import NilsCli.Lib.JsonRead

/-!
# The recheck before a merge

`recheckBeforeMerge` reads the reviews and the threads again and compares the digest of the activity
with that of the snapshot that converged.
-/

namespace NilsCli.Convergence

open Lib Review List

def ensurePayloadResolved (payload : PrReviewThreadsPayload) : Except ForgeError Unit :=
  let blocking := openThreads payload.threads
  let listing := "\n".intercalate (blocking.map fun thread =>
    "- " ++ thread.author ++ (if thread.path = "" then "" else " @ " ++ thread.path) ++ ": " ++
      .ofList ((textLines thread.body).head?.getD []))
  ensure (blocking = []) (failure "unresolved_review_threads"
    (toString blocking.length ++ " unresolved review thread(s) on the PR/MR; disposition each " ++
      "(repair / resolve as accepted / convert to a follow-up) or pass " ++
      "--allow-unresolved-threads to bypass") listing)

def threadGate (allowUnresolvedThreads : Bool) (threads : PrReviewThreadsPayload) :
    Except ForgeError Unit :=
  if allowUnresolvedThreads then .ok () else ensurePayloadResolved threads

variable (host : SnapshotHost) (policy : ReviewConvergencePolicy)

/-- `recheck_before_merge_with_thread_override`. -/
def recheckBeforeMerge (expectedHeadSha : Option String) (previous : ReviewConvergenceSnapshot)
    (allowUnresolvedThreads : Bool) (reviews : Except ForgeError PrReviewsPayload)
    (threads : Except ForgeError PrReviewThreadsPayload) :
    Except ForgeError ReviewConvergenceSnapshot := do
  let reviews ← reviews.mapError fun err => mapProviderTimeout err policy expectedHeadSha
  ensureExpectedHead expectedHeadSha reviews
  ensureExpectedHead (some previous.headSha) reviews
  let threads ← threads
  ensureThreadHead reviews threads
  let snapshot := buildSnapshot host policy reviews threads previous.waitedMs
  ensure (snapshot.changesRequestedBy = []) (changesRequestedError snapshot)
  threadGate allowUnresolvedThreads threads
  ensure (previous.semanticDigest = snapshot.semanticDigest)
    (failure "review_convergence_activity_changed"
      "the combined semantic review/thread snapshot changed after convergence and before merge"
      ("head_sha=" ++ snapshot.headSha ++ "; previous_digest=" ++ previous.semanticDigest ++
        "; current_digest=" ++ snapshot.semanticDigest))
  return { snapshot with
    quietUntil := previous.quietUntil
    latestActivityAt := previous.latestActivityAt }

/-! ## Facts -/

/-- What a review says: who, in which state, on which commit, and the text without markers. -/
structure ReviewFact where
  login : String
  state : String
  commitSha : String
  truncated : Bool
  summary : List Char

def reviewFact (review : NativeReviewSummary) : ReviewFact where
  login := normalizedLogin review.author
  state := review.state
  commitSha := review.commitSha
  truncated := review.summaryTruncated
  summary := stripOwnedMarkers review.summary

structure ThreadFact where
  id : String
  path : String
  diffSide : Option String
  line : Option Nat
  startLine : Option Nat
  comments : List (String × List Char)

def commentFact (comment : PrReviewThreadComment) : String × List Char :=
  (normalizedLogin comment.author, stripOwnedMarkers comment.body)

def threadFact (thread : PrReviewThreadSummary) (comments : List PrReviewThreadComment) :
    ThreadFact where
  id := thread.id
  path := thread.path
  diffSide := thread.diffSide.map host.debugText
  line := thread.line
  startLine := thread.startLine
  comments := comments.map commentFact

/-- The observed reviews that say something. -/
def reviewFacts (reviews : PrReviewsPayload) : List ReviewFact :=
  (semanticReviews (observedReviews policy reviews.currentHeadReviews) policy.bots).map reviewFact

def speakingThreads (reviews : PrReviewsPayload) (threads : PrReviewThreadsPayload) :
    List (PrReviewThreadSummary × List PrReviewThreadComment) :=
  ((openThreads threads.threads).map fun thread =>
    (thread, meaningfulComments policy.bots (nonBotAuthors reviews) thread)).filter (·.2 ≠ [])

def threadFacts (reviews : PrReviewsPayload) (threads : PrReviewThreadsPayload) : List ThreadFact :=
  (speakingThreads policy reviews threads).map fun row => threadFact host row.1 row.2

/-- The text that `reviewActivity` joins. -/
def ReviewFact.text (fact : ReviewFact) : List Char :=
  reviewLabel ++ (fact.login.toList ++ ':' :: (fact.state.toList ++ ':' :: (fact.commitSha.toList ++
    ':' :: (boolText fact.truncated ++ ':' :: fact.summary))))

/-- How often `:` stands in the parts that it ends. -/
def ReviewFact.separators (fact : ReviewFact) : List Nat :=
  [fact.login, fact.state, fact.commitSha].map (·.toList.count ':')

def commentText (comment : String × List Char) : List Char :=
  comment.1.toList ++ ':' :: comment.2

def ThreadFact.text (fact : ThreadFact) : List Char :=
  threadLabel ++ (fact.id.toList ++ ':' :: (fact.path.toList ++
    ':' :: (debugOption (fact.diffSide.map (·.toList)) ++ ':' :: (debugOption (fact.line.map jsonNat) ++
      ':' :: (debugOption (fact.startLine.map jsonNat) ++
        ':' :: ['|'].intercalate (fact.comments.map commentText))))))

/-- How often `:` stands in the parts that it ends, and `|` in each comment. -/
def ThreadFact.separators (fact : ThreadFact) : List Nat × List (Nat × Nat) :=
  ([fact.id.toList, fact.path.toList, debugOption (fact.diffSide.map (·.toList))].map (·.count ':'),
    fact.comments.map fun comment =>
      (comment.1.toList.count ':', (commentText comment).count '|'))

/-- Where a row of one snapshot is joined to the text of a row of the other, their separators stand in
the same places, or both snapshots hold both rows. -/
def CollisionsShared {Fact Separators : Type} (text : Fact → List Char)
    (separators : Fact → Separators) (facts facts' : List Fact) : Prop :=
  ∀ fact ∈ facts, ∀ fact' ∈ facts', text fact = text fact' →
    separators fact = separators fact' ∨ fact ∈ facts' ∧ fact' ∈ facts

/-! ## Texts -/

/-- A text is cut in one way behind a known number of separators. -/
theorem cut_inj {α : Type} [DecidableEq α] {sep : α} {a b rest rest' : List α}
    (hcount : a.count sep = b.count sep) (h : a ++ sep :: rest = b ++ sep :: rest') :
    a = b ∧ rest = rest' := by
  induction a generalizing b with
  | nil =>
    cases b with
    | nil => exact ⟨rfl, (List.cons.inj h).2⟩
    | cons d b =>
      obtain rfl := (List.cons.inj h).1
      rw [count_nil, count_cons_self] at hcount
      cases hcount
  | cons c a ih =>
    cases b with
    | nil =>
      obtain rfl := (List.cons.inj h).1
      rw [count_nil, count_cons_self] at hcount
      cases hcount
    | cons d b =>
      obtain ⟨rfl, htail⟩ := List.cons.inj h
      rw [count_cons, count_cons, Nat.add_right_cancel_iff] at hcount
      obtain ⟨rfl, hrest⟩ := ih hcount htail
      exact ⟨rfl, hrest⟩

theorem boolText_inj {b b' : Bool} (h : boolText b = boolText b') : b = b' := by
  revert h
  cases b <;> cases b' <;> decide

theorem count_boolText (b b' : Bool) : (boolText b).count ':' = (boolText b').count ':' := by
  cases b <;> cases b' <;> decide

theorem debugOption_inj {a b : Option (List Char)} (h : debugOption a = debugOption b) : a = b := by
  cases a with
  | none =>
    cases b with
    | none => rfl
    | some value => exact absurd (List.cons.inj h).1 (by decide)
  | some value =>
    cases b with
    | none => exact absurd (List.cons.inj h).1 (by decide)
    | some value' =>
      have hvalue : "Some(".toList ++ value = "Some(".toList ++ value' := append_cancel_right h
      rw [append_cancel_left hvalue]

theorem count_line (line : Option Nat) : (debugOption (line.map jsonNat)).count ':' = 0 := by
  cases line with
  | none => decide
  | some n =>
    refine count_eq_zero.mpr fun (hmem : ':' ∈ "Some(".toList ++ jsonNat n ++ [')']) => ?_
    rw [mem_append, mem_append] at hmem
    rcases hmem with (hmem | hmem) | hmem
    · exact absurd hmem (by decide)
    · exact absurd (isAsciiDigit_of_mem_toDigits hmem) (by decide)
    · exact absurd hmem (by decide)

theorem jsonNat_inj {m n : Nat} (h : jsonNat m = jsonNat n) : m = n := by
  rw [← Nat.ofDigitChars_toDigits (n := m) (b := 10) (by decide) (by decide), ← jsonNat, h, jsonNat,
    Nat.ofDigitChars_toDigits (by decide) (by decide)]

theorem line_inj {m n : Option Nat}
    (h : debugOption (m.map jsonNat) = debugOption (n.map jsonNat)) : m = n :=
  Option.map_injective (fun _ _ => jsonNat_inj) (debugOption_inj h)

theorem comments_inj {comments comments' : List (String × List Char)}
    (hcount : comments.map (fun comment =>
        (comment.1.toList.count ':', (commentText comment).count '|')) =
      comments'.map fun comment => (comment.1.toList.count ':', (commentText comment).count '|'))
    (h : ['|'].intercalate (comments.map commentText) =
      ['|'].intercalate (comments'.map commentText)) : comments = comments' := by
  have hone : ∀ {comment comment' : String × List Char},
      comment.1.toList.count ':' = comment'.1.toList.count ':' →
      commentText comment = commentText comment' → comment = comment' := fun hlogin heq => by
    obtain ⟨hlogin, hbody⟩ := cut_inj hlogin heq
    exact Prod.ext (String.toList_inj.mp hlogin) hbody
  induction comments generalizing comments' with
  | nil => exact (List.map_eq_nil_iff.mp hcount.symm).symm
  | cons comment comments ih =>
    obtain ⟨comment', rest, rfl⟩ := exists_cons_of_ne_nil (l := comments') (by rintro rfl; cases hcount)
    rw [map_cons, map_cons, List.cons.injEq, Prod.mk.injEq] at hcount
    obtain ⟨⟨hlogin, hbar⟩, hcount⟩ := hcount
    cases comments with
    | nil =>
      obtain rfl := List.map_eq_nil_iff.mp hcount.symm
      simp only [map_cons, map_nil, intercalate_singleton] at h
      rw [hone hlogin h]
    | cons second comments =>
      obtain ⟨second', rest, rfl⟩ := exists_cons_of_ne_nil (l := rest) (by rintro rfl; cases hcount)
      simp only [map_cons, intercalate_cons_cons] at h
      rw [append_assoc, append_assoc] at h
      obtain ⟨hfirst, hrest⟩ := cut_inj hbar h
      rw [hone hlogin hfirst, ih hcount hrest]

variable {host policy} {review : ReviewFact} {thread : ThreadFact}

/-- The text of a review names what it says, up to the place of its separators. -/
theorem ReviewFact.text_inj {review' : ReviewFact} (h : review.text = review'.text) :
    review = review' ↔ review.separators = review'.separators := by
  refine ⟨fun heq => heq ▸ rfl, fun hcount => ?_⟩
  obtain ⟨login, state, commitSha, truncated, summary⟩ := review
  obtain ⟨login', state', commitSha', truncated', summary'⟩ := review'
  simp only [separators, map_cons, map_nil, List.cons.injEq, and_true] at hcount
  obtain ⟨hlogin, hstate, hcommit⟩ := hcount
  have h := append_cancel_left h
  obtain ⟨hlogin, h⟩ := cut_inj hlogin h
  obtain ⟨hstate, h⟩ := cut_inj hstate h
  obtain ⟨hcommit, h⟩ := cut_inj hcommit h
  obtain ⟨htruncated, hsummary⟩ := cut_inj (count_boolText _ _) h
  simp only [ReviewFact.mk.injEq]
  exact ⟨String.toList_inj.mp hlogin, String.toList_inj.mp hstate,
    String.toList_inj.mp hcommit, boolText_inj htruncated, hsummary⟩

theorem ThreadFact.text_inj {thread' : ThreadFact} (h : thread.text = thread'.text) :
    thread = thread' ↔ thread.separators = thread'.separators := by
  refine ⟨fun heq => heq ▸ rfl, fun hcount => ?_⟩
  obtain ⟨id, path, diffSide, line, startLine, comments⟩ := thread
  obtain ⟨id', path', diffSide', line', startLine', comments'⟩ := thread'
  simp only [separators, map_cons, map_nil, List.cons.injEq, Prod.mk.injEq, and_true] at hcount
  obtain ⟨⟨hid, hpath, hside⟩, hcomments⟩ := hcount
  have h := append_cancel_left h
  obtain ⟨hid, h⟩ := cut_inj hid h
  obtain ⟨hpath, h⟩ := cut_inj hpath h
  obtain ⟨hside, h⟩ := cut_inj hside h
  obtain ⟨hline, h⟩ := cut_inj ((count_line _).trans (count_line _).symm) h
  obtain ⟨hstart, h⟩ := cut_inj ((count_line _).trans (count_line _).symm) h
  have hinj : Function.Injective String.toList := fun _ _ => String.toList_inj.mp
  simp only [ThreadFact.mk.injEq]
  exact ⟨String.toList_inj.mp hid, String.toList_inj.mp hpath,
    Option.map_injective hinj (debugOption_inj hside), line_inj hline, line_inj hstart,
    comments_inj hcomments h⟩

theorem commentText_fact (comment : PrReviewThreadComment) :
    commentText (commentFact comment) = commentActivity comment := by
  rw [commentText, commentFact, commentActivity]

theorem threadActivity_eq (thread : PrReviewThreadSummary) (comments : List PrReviewThreadComment) :
    threadActivity host thread (comments.map commentActivity) =
      (threadFact host thread comments).text := by
  have hcomments : comments.map commentActivity = (comments.map commentFact).map commentText := by
    rw [List.map_map]
    exact List.map_congr_left fun comment _ => (commentText_fact comment).symm
  have hside : thread.diffSide.map (fun side => (host.debugText side).toList) =
      (thread.diffSide.map host.debugText).map (·.toList) := by
    cases thread.diffSide <;> simp only [Option.map_none, Option.map_some]
  rw [threadActivity, ThreadFact.text, threadFact, hcomments, hside]

theorem reviewActivity_eq (review : NativeReviewSummary) :
    reviewActivity review = (reviewFact review).text := by
  rw [reviewActivity, ReviewFact.text, reviewFact]

/-! ## Digests -/

/-- The list of activities is read back from its digest. -/
theorem semanticDigest_inj (hdigest : Function.Injective host.sha256Digest)
    {activity activity' : List String}
    (h : semanticDigest host activity = semanticDigest host activity') : activity = activity' := by
  have htext := hdigest h
  rw [String.ofList_inj] at htext
  have hends := endsItself_list endsItself_jsonString
    (fun _ _ _ heq => absurd (List.cons.inj heq).1 (by decide))
  exact (hends activity activity' [] [] (congrArg (· ++ []) htext)).1

theorem mem_semanticActivity {reviews : PrReviewsPayload} {threads : PrReviewThreadsPayload}
    {item : String} : item ∈ semanticActivity host policy reviews threads ↔
      (∃ fact ∈ reviewFacts policy reviews, .ofList fact.text = item) ∨
      ∃ fact ∈ threadFacts host policy reviews threads, .ofList fact.text = item := by
  rw [semanticActivity, combinedActivityFingerprint, mem_sortDedup, mem_append,
    activityFingerprint, mem_sortDedup, mem_map]
  refine or_congr ?_ ?_
  · constructor
    · rintro ⟨review, hreview, heq⟩
      exact ⟨reviewFact review, mem_map_of_mem hreview, by rwa [← reviewActivity_eq]⟩
    · rintro ⟨fact, hfact, heq⟩
      obtain ⟨review, hreview, rfl⟩ := List.mem_map.mp hfact
      exact ⟨review, hreview, by rwa [reviewActivity_eq]⟩
  · constructor
    · intro hitem
      obtain ⟨thread, hthread, heq⟩ := mem_filterMap.mp hitem
      dsimp only at heq
      split at heq
      · cases heq
      · rename_i hne
        refine ⟨threadFact host thread _, List.mem_map.mpr ⟨(thread, _), mem_filter.mpr
          ⟨mem_map_of_mem hthread, decide_eq_true hne⟩, rfl⟩, ?_⟩
        rw [← threadActivity_eq]
        exact Option.some.inj heq
    · rintro ⟨fact, hfact, heq⟩
      obtain ⟨row, hrow, rfl⟩ := List.mem_map.mp hfact
      obtain ⟨hrow, hne⟩ := mem_filter.mp hrow
      obtain ⟨thread, hthread, rfl⟩ := List.mem_map.mp hrow
      refine mem_filterMap.mpr ⟨thread, hthread, ?_⟩
      rw [if_neg (of_decide_eq_true hne), threadActivity_eq, heq]

theorem label_ne (text text' : List Char) : reviewLabel ++ text ≠ threadLabel ++ text' :=
  fun h => absurd (List.cons.inj h).1 (by decide)

variable {reviews reviews' : PrReviewsPayload} {threads threads' : PrReviewThreadsPayload}
  {expectedHeadSha : Option String} {previous snapshot : ReviewConvergenceSnapshot}
  {allowUnresolvedThreads : Bool}

theorem facts_subset
    (hreviews : CollisionsShared ReviewFact.text ReviewFact.separators (reviewFacts policy reviews)
      (reviewFacts policy reviews'))
    (hthreads : CollisionsShared ThreadFact.text ThreadFact.separators
      (threadFacts host policy reviews threads) (threadFacts host policy reviews' threads'))
    (h : semanticActivity host policy reviews threads =
      semanticActivity host policy reviews' threads') :
    reviewFacts policy reviews ⊆ reviewFacts policy reviews' ∧
      threadFacts host policy reviews threads ⊆ threadFacts host policy reviews' threads' := by
  constructor
  · intro fact hfact
    have hitem : .ofList fact.text ∈ semanticActivity host policy reviews threads :=
      mem_semanticActivity.mpr (.inl ⟨fact, hfact, rfl⟩)
    rw [h] at hitem
    rcases mem_semanticActivity.mp hitem with ⟨fact', hfact', heq⟩ | ⟨fact', -, heq⟩
    · have htext := (String.ofList_inj.mp heq).symm
      rcases hreviews fact hfact fact' hfact' htext with hsame | ⟨hkept, -⟩
      · rwa [(ReviewFact.text_inj htext).mpr hsame]
      · exact hkept
    · exact absurd (String.ofList_inj.mp heq).symm (label_ne _ _)
  · intro fact hfact
    have hitem : .ofList fact.text ∈ semanticActivity host policy reviews threads :=
      mem_semanticActivity.mpr (.inr ⟨fact, hfact, rfl⟩)
    rw [h] at hitem
    rcases mem_semanticActivity.mp hitem with ⟨fact', -, heq⟩ | ⟨fact', hfact', heq⟩
    · exact absurd (String.ofList_inj.mp heq) (label_ne _ _)
    · have htext := (String.ofList_inj.mp heq).symm
      rcases hthreads fact hfact fact' hfact' htext with hsame | ⟨hkept, -⟩
      · rwa [(ThreadFact.text_inj htext).mpr hsame]
      · exact hkept

theorem recheck_digest (h : recheckBeforeMerge host policy expectedHeadSha previous
      allowUnresolvedThreads (.ok reviews) (.ok threads) = .ok snapshot) :
    previous.semanticDigest = semanticDigest host (semanticActivity host policy reviews threads) := by
  unfold recheckBeforeMerge at h
  obtain ⟨_, hreviews, h⟩ := bind_eq_ok.mp h
  cases hreviews
  obtain ⟨-, h⟩ := ensure_bind_ok.mp h
  obtain ⟨-, h⟩ := ensure_bind_ok.mp h
  obtain ⟨_, hthreads, h⟩ := bind_eq_ok.mp h
  cases hthreads
  obtain ⟨-, h⟩ := ensure_bind_ok.mp h
  obtain ⟨-, h⟩ := ensure_bind_ok.mp h
  obtain ⟨_, -, h⟩ := bind_eq_ok.mp h
  obtain ⟨hdigest, -⟩ := ensure_bind_ok.mp h
  exact hdigest

theorem CollisionsShared.symm {Fact Separators : Type} {text : Fact → List Char}
    {separators : Fact → Separators} {facts facts' : List Fact}
    (h : CollisionsShared text separators facts facts') :
    CollisionsShared text separators facts' facts :=
  fun fact hfact fact' hfact' heq =>
    (h fact' hfact' fact hfact heq.symm).imp Eq.symm And.symm

end NilsCli.Convergence
