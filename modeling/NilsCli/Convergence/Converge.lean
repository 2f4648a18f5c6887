import NilsCli.Convergence.Snapshot

/-!
# Waiting for a quiet review

`converge` polls the provider until the activity of the observed bots has been quiet for a while.
-/

namespace NilsCli.Convergence

open Lib Review

/-- `POLL_INTERVAL`, in nanoseconds. -/
def pollInterval : Nat := 10 * 1000000000

/-- The instants that the clock can tell. -/
def instantMax : Nat := 2 ^ 63 * 1000000000 - 1

/-- The deadline of a loop that starts now. -/
def deadline (policy : ReviewConvergencePolicy) (started : Nat) : Nat :=
  if started + policy.timeout ≤ instantMax then started + policy.timeout else started

structure Turn where
  begun : Nat
  reviews : Except ForgeError PrReviewsPayload
  threads : Except ForgeError PrReviewThreadsPayload
  built : Nat
  checked : Nat
  now : Nat
  wallClockQuietUntil : Option String

structure Quiet where
  started : Option Nat
  quietUntil : Option String
  lastFingerprint : Option (List String)

def Quiet.initial : Quiet := ⟨none, none, none⟩

inductive TurnEnd where
  | converged (snapshot : ReviewConvergenceSnapshot)
  /-- The loop sleeps for a while and polls again. -/
  | again (quiet : Quiet) (sleep : Nat)

variable (host : SnapshotHost) (policy : ReviewConvergencePolicy) (expectedHeadSha : Option String)
  (started : Nat)

def Quiet.next (quiet : Quiet) (turn : Turn) (fingerprint : List String) : Quiet :=
  if quiet.lastFingerprint.all fun previous => hasNewActivity previous fingerprint then
    ⟨some turn.now, turn.wallClockQuietUntil, some fingerprint⟩
  else { quiet with lastFingerprint := some fingerprint }

/-- How long the timer has been running. -/
def Quiet.elapsed (quiet : Quiet) (now : Nat) : Nat := (quiet.started.map (now - ·)).getD 0

/-- One turn of the loop of `converge`. -/
def poll (quiet : Quiet) (turn : Turn) : Except ForgeError TurnEnd := do
  ensure (deadline policy started - turn.begun ≠ 0) (timeoutError policy expectedHeadSha)
  let reviews ← turn.reviews.mapError fun err => mapProviderTimeout err policy expectedHeadSha
  ensureExpectedHead expectedHeadSha reviews
  let threads ← turn.threads
  ensureThreadHead reviews threads
  let snapshot := buildSnapshot host policy reviews threads (durationMs (turn.built - started))
  ensure (turn.checked < deadline policy started) (timeoutError policy (some snapshot.headSha))
  ensure (snapshot.changesRequestedBy = []) (changesRequestedError snapshot)
  if snapshot.semanticActivity = [] ∨ policy.quietPeriod = 0 then
    return .converged snapshot
  let quiet := quiet.next turn snapshot.semanticActivity
  let snapshot := { snapshot with quietUntil := quiet.quietUntil }
  if policy.quietPeriod ≤ quiet.elapsed turn.now then
    return .converged { snapshot with waitedMs := durationMs (turn.now - started) }
  ensure (turn.now < deadline policy started) (timeoutError policy (some snapshot.headSha))
  return .again quiet (min (min pollInterval (policy.quietPeriod - quiet.elapsed turn.now))
    (deadline policy started - turn.now))

/-- The loop of `converge` over some turns. -/
def convergeFrom : Quiet → List Turn → Option (Except ForgeError ReviewConvergenceSnapshot)
  | _, [] => none
  | quiet, turn :: turns =>
    match poll host policy expectedHeadSha started quiet turn with
    | .error err => some (.error err)
    | .ok (.converged snapshot) => some (.ok snapshot)
    | .ok (.again quiet _) => convergeFrom quiet turns

def converge (turns : List Turn) : Option (Except ForgeError ReviewConvergenceSnapshot) :=
  convergeFrom host policy expectedHeadSha started .initial turns

/-! ## One turn -/

variable {host policy expectedHeadSha started} {quiet quiet' : Quiet} {turn : Turn}
  {turns : List Turn} {snapshot : ReviewConvergenceSnapshot} {sleep : Nat}

structure Polled (host : SnapshotHost) (policy : ReviewConvergencePolicy)
    (expectedHeadSha : Option String) (started : Nat) (turn : Turn) (reviews : PrReviewsPayload)
    (threads : PrReviewThreadsPayload) : Prop where
  reviewsRead : turn.reviews = .ok reviews
  threadsRead : turn.threads = .ok threads
  begun : turn.begun < deadline policy started
  checked : turn.checked < deadline policy started
  head : ∀ expected ∈ expectedHeadSha, reviews.headSha = expected ∧ threads.headSha = some expected
  threadHead : threads.headSha = some reviews.headSha
  noChanges : effectiveChangesRequestedBy reviews.currentHeadReviews = []

/-- The activity that a turn has seen. -/
def Turn.activity (host : SnapshotHost) (policy : ReviewConvergencePolicy) (turn : Turn) :
    List String :=
  match turn.reviews, turn.threads with
  | .ok reviews, .ok threads => semanticActivity host policy reviews threads
  | _, _ => []

theorem mapError_eq_ok {ε ε' α : Type} {f : ε → ε'} {x : Except ε α} {a : α} :
    x.mapError f = .ok a ↔ x = .ok a := by
  cases x <;> simp [Except.mapError]

theorem poll_eq_ok {ends : TurnEnd}
    (h : poll host policy expectedHeadSha started quiet turn = .ok ends) :
    ∃ reviews threads, Polled host policy expectedHeadSha started turn reviews threads ∧
      let activity := turn.activity host policy
      let quiet' := quiet.next turn activity
      ((activity = [] ∨ policy.quietPeriod = 0) ∧ (∃ snapshot, ends = .converged snapshot ∧
          snapshot.headSha = reviews.headSha ∧ snapshot.semanticActivity = activity) ∨
        policy.quietPeriod ≤ quiet'.elapsed turn.now ∧ (∃ snapshot, ends = .converged snapshot ∧
          snapshot.headSha = reviews.headSha ∧ snapshot.semanticActivity = activity) ∨
        quiet'.elapsed turn.now < policy.quietPeriod ∧ turn.now < deadline policy started ∧
          ends = .again quiet' (min (min pollInterval
            (policy.quietPeriod - quiet'.elapsed turn.now)) (deadline policy started - turn.now))) := by
  unfold poll at h
  obtain ⟨hbegun, h⟩ := ensure_bind_ok.mp h
  obtain ⟨reviews, hreviews, h⟩ := bind_eq_ok.mp h
  rw [mapError_eq_ok] at hreviews
  obtain ⟨hhead, h⟩ := ensure_bind_ok.mp h
  obtain ⟨threads, hthreads, h⟩ := bind_eq_ok.mp h
  obtain ⟨hthreadHead, h⟩ := ensure_bind_ok.mp h
  obtain ⟨hchecked, h⟩ := ensure_bind_ok.mp h
  obtain ⟨hnone, h⟩ := ensure_bind_ok.mp h
  have hactivity : turn.activity host policy = semanticActivity host policy reviews threads := by
    rw [Turn.activity, hreviews, hthreads]
  refine ⟨reviews, threads, ⟨hreviews, hthreads, by omega, hchecked, fun expected hexpected => ?_,
    hthreadHead, hnone⟩, ?_⟩
  · have heq := hhead expected hexpected
    exact ⟨heq.symm, by rw [hthreadHead, heq]⟩
  · intro activity quiet'
    have hsnapshot : (buildSnapshot host policy reviews threads
        (durationMs (turn.built - started))).semanticActivity = activity := hactivity.symm
    rw [hsnapshot] at h
    by_cases hdone : activity = [] ∨ policy.quietPeriod = 0
    · rw [if_pos hdone] at h
      cases h
      exact .inl ⟨hdone, _, rfl, rfl, hsnapshot⟩
    · rw [if_neg hdone] at h
      by_cases hquiet : policy.quietPeriod ≤ quiet'.elapsed turn.now
      · have helapsed : policy.quietPeriod ≤ (quiet.next turn activity).elapsed turn.now := hquiet
        simp only at h
        rw [if_pos helapsed] at h
        cases h
        exact .inr (.inl ⟨hquiet, _, rfl, rfl, rfl⟩)
      · have helapsed : ¬ policy.quietPeriod ≤ (quiet.next turn activity).elapsed turn.now := hquiet
        simp only at h
        rw [if_neg helapsed] at h
        obtain ⟨hnow, h⟩ := ensure_bind_ok.mp h
        cases h
        exact .inr (.inr ⟨by omega, hnow, rfl⟩)

/-! ## Runs -/

structure ClockRuns (started : Nat) (turns : Nat → Turn) : Prop where
  start : started ≤ (turns 0).begun
  turn : ∀ n, (turns n).begun ≤ (turns n).built ∧ (turns n).built ≤ (turns n).checked ∧
    (turns n).checked ≤ (turns n).now
  sleep : ∀ n, (turns n).now ≤ (turns (n + 1)).begun

/-- The first turns. -/
def firstTurns (turns : Nat → Turn) (n : Nat) : List Turn := (List.range' 0 n).map turns

variable {turns : Nat → Turn} {k m n : Nat}

theorem ClockRuns.now_le (h : ClockRuns started turns) {i j : Nat} (hij : i ≤ j) :
    (turns i).now ≤ (turns j).now := by
  induction hij with
  | refl => exact Nat.le_refl _
  | @step j _ ih =>
    have hturn := h.turn (j + 1)
    exact ih.trans ((h.sleep j).trans (hturn.1.trans (hturn.2.1.trans hturn.2.2)))

/-- `Reaches n quiet`: the loop goes on after the first `n` turns, with this timer. -/
inductive Reaches (host : SnapshotHost) (policy : ReviewConvergencePolicy)
    (expectedHeadSha : Option String) (started : Nat) (turns : Nat → Turn) : Nat → Quiet → Prop
  | start : Reaches host policy expectedHeadSha started turns 0 .initial
  | again {n : Nat} {quiet quiet' : Quiet} {sleep : Nat} :
      Reaches host policy expectedHeadSha started turns n quiet →
      poll host policy expectedHeadSha started quiet (turns n) = .ok (.again quiet' sleep) →
      Reaches host policy expectedHeadSha started turns (n + 1) quiet'

/-- A loop without a result has gone on after every turn. -/
theorem reaches_of_none (hreach : Reaches host policy expectedHeadSha started turns k quiet)
    (h : convergeFrom host policy expectedHeadSha started quiet ((List.range' k m).map turns) =
      none) : ∃ quiet', Reaches host policy expectedHeadSha started turns (k + m) quiet' := by
  induction m generalizing k quiet with
  | zero => exact ⟨quiet, hreach⟩
  | succ m ih =>
    rw [List.range'_succ, List.map_cons, convergeFrom] at h
    cases hpoll : poll host policy expectedHeadSha started quiet (turns k) with
    | error _ => simp [hpoll] at h
    | ok ends =>
      rcases ends with snapshot | ⟨quiet', sleep⟩
      · simp [hpoll] at h
      simp only [hpoll] at h
      obtain ⟨last, hlast⟩ := ih (hreach.again hpoll) h
      exact ⟨last, by rwa [Nat.add_assoc, Nat.add_comm 1 m] at hlast⟩

theorem reaches_of_ok (hreach : Reaches host policy expectedHeadSha started turns k quiet)
    (h : convergeFrom host policy expectedHeadSha started quiet ((List.range' k m).map turns) =
      some (.ok snapshot)) : ∃ n quiet', n < k + m ∧
        Reaches host policy expectedHeadSha started turns n quiet' ∧
        poll host policy expectedHeadSha started quiet' (turns n) = .ok (.converged snapshot) := by
  induction m generalizing k quiet with
  | zero => cases h
  | succ m ih =>
    rw [List.range'_succ, List.map_cons, convergeFrom] at h
    cases hpoll : poll host policy expectedHeadSha started quiet (turns k) with
    | error _ => simp [hpoll] at h
    | ok ends =>
      rcases ends with snapshot' | ⟨quiet', sleep⟩
      · simp only [hpoll, Option.some.injEq, Except.ok.injEq] at h
        exact ⟨k, quiet, by omega, hreach, by rw [hpoll, h]⟩
      · simp only [hpoll] at h
        obtain ⟨n, last, hn, hlast⟩ := ih (hreach.again hpoll) h
        exact ⟨n, last, by omega, hlast⟩

/-- A loop that goes on after the first turns has no result of them. -/
theorem Reaches.converge_add (h : Reaches host policy expectedHeadSha started turns n quiet) (m : Nat) :
    converge host policy expectedHeadSha started (firstTurns turns (n + m)) =
      convergeFrom host policy expectedHeadSha started quiet ((List.range' n m).map turns) := by
  induction h generalizing m with
  | start => rw [Nat.zero_add, converge, firstTurns]
  | @again n quiet quiet' sleep _ hpoll ih =>
    rw [Nat.add_assoc, Nat.add_comm 1 m, ih, List.range'_succ, List.map_cons, convergeFrom]
    simp only [hpoll]

/-- The loop goes on only before the deadline. -/
theorem Reaches.now_lt (h : Reaches host policy expectedHeadSha started turns (n + 1) quiet) :
    (turns n).now < deadline policy started := by
  cases h with
  | again _ hpoll =>
    obtain ⟨_, _, -, hends⟩ := poll_eq_ok hpoll
    rcases hends with ⟨-, _, heq, -⟩ | ⟨-, _, heq, -⟩ | ⟨-, hnow, -⟩
    · cases heq
    · cases heq
    · exact hnow

def Timed (host : SnapshotHost) (policy : ReviewConvergencePolicy) (turns : Nat → Turn) (n : Nat)
    (quiet : Quiet) : Prop :=
  ∃ i ≤ n, quiet.started = some (turns i).now ∧
    quiet.lastFingerprint = some ((turns n).activity host policy) ∧
    ∀ j, i < j → j ≤ n → ∀ item ∈ (turns j).activity host policy,
      item ∈ (turns (j - 1)).activity host policy

theorem not_hasNewActivity {previous current : List String} :
    hasNewActivity previous current = false ↔ ∀ item ∈ current, item ∈ previous := by
  simp [hasNewActivity]

theorem Timed.next (h : n = 0 ∧ quiet = .initial ∨
      ∃ m, n = m + 1 ∧ Timed host policy turns m quiet) :
    Timed host policy turns n (quiet.next (turns n) ((turns n).activity host policy)) := by
  unfold Quiet.next
  by_cases hnew : quiet.lastFingerprint.all fun previous =>
      hasNewActivity previous ((turns n).activity host policy)
  · rw [if_pos hnew]
    exact ⟨n, le_rfl, rfl, rfl, fun j hj hj' => by omega⟩
  · rw [if_neg hnew]
    rcases h with ⟨-, rfl⟩ | ⟨m, rfl, i, hi, hstarted, hlast, hseen⟩
    · simp [Quiet.initial] at hnew
    · refine ⟨i, by omega, hstarted, rfl, fun j hj hj' => ?_⟩
      by_cases heq : j = m + 1
      · subst heq
        rw [hlast] at hnew
        exact not_hasNewActivity.mp (Bool.eq_false_of_not_eq_true hnew)
      · exact hseen j hj (by omega)

theorem Reaches.timed (h : Reaches host policy expectedHeadSha started turns n quiet) :
    n = 0 ∧ quiet = .initial ∨ ∃ m, n = m + 1 ∧ Timed host policy turns m quiet := by
  induction h with
  | start => exact .inl ⟨rfl, rfl⟩
  | @again n quiet quiet' sleep _ hpoll ih =>
    obtain ⟨_, _, -, hends⟩ := poll_eq_ok hpoll
    rcases hends with ⟨-, _, heq, -⟩ | ⟨-, _, heq, -⟩ | ⟨-, -, heq⟩
    · cases heq
    · cases heq
    · cases heq
      exact .inr ⟨n, rfl, Timed.next ih⟩

theorem Timed.nothing_new (hclock : ClockRuns started turns) (h : Timed host policy turns n quiet)
    (hquiet : policy.quietPeriod ≤ quiet.elapsed (turns n).now) {j : Nat} (hj : j ≤ n)
    (hwithin : (turns n).now < (turns j).now + policy.quietPeriod) {item : String}
    (hitem : item ∈ (turns j).activity host policy) :
    ∃ i < j, item ∈ (turns i).activity host policy := by
  obtain ⟨i, -, hstarted, -, hseen⟩ := h
  have helapsed : quiet.elapsed (turns n).now = (turns n).now - (turns i).now := by
    rw [Quiet.elapsed, hstarted]
    rfl
  have hij : i < j := by
    by_contra hle
    have hji := hclock.now_le (Nat.not_lt.mp hle)
    have hjn := hclock.now_le hj
    omega
  exact ⟨j - 1, by omega, hseen j hij hj item hitem⟩

/-- A success of the last poll is sound, and the loop ends: where every sleep moves the clock on, after so many polls
as the timeout has nanoseconds, and in any case with the first poll that reads the deadline. -/
theorem converge_sound (host : SnapshotHost) (policy : ReviewConvergencePolicy)
    (expectedHeadSha : Option String) {started : Nat} {turns : Nat → Turn}
    (hclock : ClockRuns started turns) :
    (∀ n snapshot,
      converge host policy expectedHeadSha started (firstTurns turns n) = some (.ok snapshot) →
      ∃ k < n, converge host policy expectedHeadSha started (firstTurns turns k) = none ∧
        converge host policy expectedHeadSha started (firstTurns turns (k + 1)) =
          some (.ok snapshot) ∧
        ∃ reviews threads,
        Polled host policy expectedHeadSha started (turns k) reviews threads ∧
        snapshot.headSha = reviews.headSha ∧
        snapshot.semanticActivity = (turns k).activity host policy ∧
        ((turns k).activity host policy = [] ∨ policy.quietPeriod = 0 ∨
          ∀ j ≤ k, (turns k).now < (turns j).now + policy.quietPeriod →
            ∀ item ∈ (turns j).activity host policy,
              ∃ i < j, item ∈ (turns i).activity host policy)) ∧
      (∀ k, deadline policy started ≤ (turns k).now →
        (converge host policy expectedHeadSha started (firstTurns turns (k + 1))).isSome) ∧
      ((∀ n, (turns n).now < (turns (n + 1)).begun) →
        (converge host policy expectedHeadSha started
          (firstTurns turns (policy.timeout + 1))).isSome) := by
  have hends : ∀ k, deadline policy started ≤ (turns k).now →
      (converge host policy expectedHeadSha started (firstTurns turns (k + 1))).isSome := by
    intro k hk
    by_contra hnone
    rw [Bool.not_eq_true, Option.isSome_eq_false_iff, Option.isNone_iff_eq_none] at hnone
    obtain ⟨quiet, hreach⟩ := reaches_of_none .start hnone
    rw [Nat.zero_add] at hreach
    exact absurd hreach.now_lt (Nat.not_lt.mpr hk)
  refine ⟨fun n snapshot h => ?_, hends, fun hsleep => hends _ ?_⟩
  · obtain ⟨k, quiet, hk, hreach, hpoll⟩ := reaches_of_ok .start h
    obtain ⟨reviews, threads, hpolled, hcases⟩ := poll_eq_ok hpoll
    have hlast : converge host policy expectedHeadSha started (firstTurns turns (k + 1)) =
        some (.ok snapshot) := by
      rw [hreach.converge_add, List.range'_one, List.map_singleton, convergeFrom]
      simp only [hpoll]
    refine ⟨k, by omega, hreach.converge_add 0, hlast, reviews, threads, hpolled, ?_⟩
    rcases hcases with ⟨hdone, _, heq, hhead, hactivity⟩ | ⟨hquiet, _, heq, hhead, hactivity⟩ |
        ⟨-, -, heq⟩
    · cases heq
      exact ⟨hhead, hactivity, hdone.imp_right .inl⟩
    · cases heq
      refine ⟨hhead, hactivity, .inr (.inr fun j hj hwithin item hitem => ?_)⟩
      exact (Timed.next hreach.timed).nothing_new hclock hquiet hj hwithin hitem
    · cases heq
  · -- the clock has moved on by a nanosecond at least with each sleep
    have hmoved : ∀ n, started + n ≤ (turns n).now := by
      intro n
      induction n with
      | zero =>
        have hstart := hclock.start
        have hturn := hclock.turn 0
        omega
      | succ n ih =>
        have hnext := hsleep n
        have hturn := hclock.turn (n + 1)
        omega
    have hlast := hmoved policy.timeout
    unfold deadline
    split <;> omega

def sampleTurn (n : Nat) : Turn where
  begun := n * 1000000000 + 1
  reviews := .ok botReviews
  threads := .ok (botThreads (if n = 0 then ["a"] else ["a", "b"]))
  built := n * 1000000000 + 2
  checked := n * 1000000000 + 3
  now := n * 1000000000 + 4
  wallClockQuietUntil := none

theorem sampleTurn_clock : ClockRuns 0 sampleTurn where
  start := Nat.zero_le _
  turn n := by simp [sampleTurn]
  sleep n := by
    simp only [sampleTurn]
    omega

/-- The second poll sees a new comment of a bot, and a second later the third one succeeds. -/
theorem converge_sound_third :
    (∃ snapshot reviews threads,
      converge textHost botPolicy (some "h") 0 (firstTurns sampleTurn 3) = some (.ok snapshot) ∧
      Polled textHost botPolicy (some "h") 0 (sampleTurn 2) reviews threads ∧
      snapshot.semanticActivity = (sampleTurn 2).activity textHost botPolicy ∧
      ∀ j ≤ 2, (sampleTurn 2).now < (sampleTurn j).now + botPolicy.quietPeriod →
        ∀ item ∈ (sampleTurn j).activity textHost botPolicy,
          ∃ i < j, item ∈ (sampleTurn i).activity textHost botPolicy) ∧
      (converge textHost botPolicy (some "h") 0
        (firstTurns sampleTurn (botPolicy.timeout + 1))).isSome := by
  have hsound := converge_sound textHost botPolicy (some "h") sampleTurn_clock
  obtain ⟨hends, hsome, hspoke⟩ :
      (∀ k < 2, converge textHost botPolicy (some "h") 0 (firstTurns sampleTurn (k + 1)) = none) ∧
      ((converge textHost botPolicy (some "h") 0 (firstTurns sampleTurn 3)).any fun result =>
        result.toOption.isSome) = true ∧ (sampleTurn 2).activity textHost botPolicy ≠ [] := by
    decide +kernel
  obtain ⟨result, hresult, hok⟩ := (Option.any_eq_true _ _).mp hsome
  obtain ⟨snapshot, hsnapshot⟩ := Option.isSome_iff_exists.mp hok
  rw [ok_of_toOption hsnapshot] at hresult
  refine ⟨?_, hsound.2.2 fun n => ?_⟩
  · obtain ⟨k, hk, hnone, hlast, reviews, threads, hpolled, -, hactivity, hquiet⟩ :=
      hsound.1 3 snapshot hresult
    obtain rfl : k = 2 := by
      by_contra hne
      rw [hends k (by omega)] at hlast
      cases hlast
    exact ⟨snapshot, reviews, threads, hresult, hpolled, hactivity,
      (hquiet.resolve_left hspoke).resolve_left (by decide)⟩
  · simp only [sampleTurn]
    omega

end NilsCli.Convergence
