import NilsCli.AutoResume.Submissions

/-!
# The bounds of a recovery

In every run: at most five checks of the usage fail in a row before a recovery ends, no account is
queued twice within a chain of usage armings, the times that a tick sets are later than the tick, and
no table of delays is indexed out of range.
-/

namespace NilsCli.AutoResume

open Lib
variable {s₀ : DurableAutoResume} {entries : List Entry}

variable {world world' : World}

open Activity (Provider TurnState)

/-! ## The log -/

@[grind] def capacitySubmissions : List Entry → Nat
  | [] => 0
  | .enabled :: _ => 0
  | .reset :: _ => 0
  | .rearmed .. :: _ => 0
  | .armed .usageExhaustion .. :: _ => 0
  | .submitted submission :: log =>
    capacitySubmissions log + if submission.cause = some .providerCapacity then 1 else 0
  | _ :: log => capacitySubmissions log

@[grind] def failedChecks : List Entry → Nat
  | [] => 0
  | .enabled :: _ => 0
  | .reset :: _ => 0
  | .rearmed .. :: _ => 0
  | .armed .. :: _ => 0
  | .scheduled :: _ => 0
  | .checkFailed :: log => failedChecks log + 1
  | _ :: log => failedChecks log

@[grind] def queuedAccounts : List Entry → List String
  | [] => []
  | .enabled :: _ => []
  | .disabled :: _ => []
  | .reset :: _ => []
  | .rearmed .. :: _ => []
  | .armed .providerCapacity .. :: _ => []
  | .armed .usageExhaustion _ _ false :: _ => []
  | .accountQueued account :: log => account :: queuedAccounts log
  | _ :: log => queuedAccounts log

/-! ## Failed checks and queued accounts -/

/-- What the counters say about the log. -/
@[grind cases] structure Paced (agent : Provider) (s : DurableAutoResume) (log : List Entry) :
    Prop where
  legacy : agent = .claude → legacyUsageWindowTerminal s = true →
    failedChecks log = 0 ∧ queuedAccounts log = []
  capacity : s.enabled = true → s.recoveryCause = some .providerCapacity → failedChecks log = 0
  usage : s.enabled = true → s.recoveryCause ≠ some .providerCapacity →
    failedChecks log ≤ s.attempt ∧ s.attempt < maxTransientAttempts
  checks : failedChecks log ≤ maxTransientAttempts
  accounts : s.enabled = true → ∀ account ∈ queuedAccounts log, account ∈ s.attemptedAccounts
  nodup : (queuedAccounts log).Nodup

variable {agent : Provider} {digestByte : String → Nat} {P : DurableAutoResume → String → Prop}
  {s s' : DurableAutoResume} {activity : TurnState} {log : List Entry}

theorem Paced.ready (h : Paced agent s log) (hready : Ready agent s s₀) :
    Paced agent s₀ log := by
  cases hready with
  | claim => exact h
  | legacy hagent hlegacy hsame henabled hstate hattempt haccounts =>
    obtain ⟨hchecks, hqueued⟩ := h.legacy hagent hlegacy
    refine ⟨fun _ _ => ⟨hchecks, hqueued⟩, fun _ _ => hchecks, fun _ _ => ?_, h.checks,
      fun _ account haccount => ?_, h.nodup⟩
    · rw [hchecks, hattempt]
      decide
    · rw [hqueued] at haccount
      cases haccount

theorem Paced.transition (h : Paced agent s log)
    (ht : Transition agent P s s' entries) : Paced agent s' (entries ++ log) := by
  have hmax : maxTransientAttempts = 5 := rfl
  cases ht with
  | enabled policy now h' => constructor <;> grind -linarith
  | disabled policy now h' => constructor <;> grind -linarith
  | reset now hwas h' => constructor <;> grind -linarith
  | rearmed henabled hstate hcause => constructor <;> grind -linarith
  | ended hentry hsame henabled haccounts hlegacy =>
    rcases hentry with rfl | rfl
    · constructor <;> grind -linarith
    · constructor <;> grind -linarith
  | checkFailed hready hcause hsame henabled =>
    have h₀ := h.ready hready
    have hwas := hready.enabled
    constructor <;> grind -linarith
  | checksExhausted hready hcause hsame henabled =>
    have h₀ := h.ready hready
    have hwas := hready.enabled
    constructor <;> grind -linarith
  | postponed hready hsame henabled => constructor <;> grind -linarith
  | @armedUsage turn revision preserved hwas hidle hnew henabled =>
    cases preserved with
    | true => constructor <;> grind -linarith
    | false => constructor <;> grind -linarith
  | armedCapacity _ hagent hwas hidle hnew henabled => constructor <;> grind -linarith
  | scheduled hready hcause hsame henabled =>
    have h₀ := h.ready hready
    have hwas := hready.enabled
    constructor <;> grind -linarith
  | accountQueued hready hcause hsame henabled =>
    have h₀ := h.ready hready
    have hwas := hready.enabled
    constructor <;> grind -linarith
  | woken hwas hsame henabled => constructor <;> grind -linarith
  | resumed hwas hsame henabled hstate hattempt haccounts =>
    have hlegacy : legacyUsageWindowTerminal s' = false := by simp [legacyUsageWindowTerminal, hstate]
    refine ⟨fun _ hterminal => ?_, fun hon hcause => ?_, fun hon hcause => ?_, h.checks,
      fun hon => ?_, h.nodup⟩
    · rw [hlegacy] at hterminal
      cases hterminal
    · rw [henabled] at hon
      rw [hsame.cause] at hcause
      exact h.capacity hon hcause
    · rw [henabled] at hon
      rw [hsame.cause] at hcause
      rw [hattempt]
      exact h.usage hon hcause
    · rw [henabled] at hon
      rw [haccounts]
      exact h.accounts hon

/-! ## Capacity continuations -/

def Supersedes (s : DurableAutoResume) (turn : String) : Prop :=
  s.enabled = true ∧ s.recoveryCause = some .providerCapacity ∧ s.state.claimable = true ∧
    0 < s.attempt ∧ ¬(s.state = .scheduled ∧ s.blockedTurnId = some turn)

@[grind cases] structure Spent (s : DurableAutoResume) (log : List Entry) : Prop where
  shape : s.enabled = true → s.recoveryCause = some .providerCapacity →
    s.state.claimable = true ∨ s.state = .checking ∨ s.state = .resumed
  capacity : s.enabled = true → s.recoveryCause = some .providerCapacity →
    capacitySubmissions log ≤ s.attempt ∧ s.attempt ≤ maxTransientAttempts
  others : s.enabled = true → s.recoveryCause ≠ some .providerCapacity →
    capacitySubmissions log = 0
  total : capacitySubmissions log ≤ maxTransientAttempts

theorem capacitySubmissions_of_none (h : lastSubmission log = none) :
    capacitySubmissions log = 0 := by
  induction log with
  | nil => rfl
  | cons entry log ih =>
    cases entry with
    | armed cause turn revision preserved => cases cause <;> grind -linarith
    | _ => grind -linarith

theorem Spent.ready (h : Spent s log) (hfollows : Follows agent s log)
    (hready : Ready agent s s₀) : Spent s₀ log := by
  cases hready with
  | claim => exact h
  | legacy hagent hlegacy hsame henabled hstate =>
    have hnone := capacitySubmissions_of_none (hfollows.legacy hagent hlegacy).1
    have hcause : s₀.recoveryCause ≠ some .providerCapacity := by
      rw [hsame.cause]
      exact hfollows.claude hagent
    exact ⟨fun _ hcapacity => absurd hcapacity hcause, fun _ hcapacity => absurd hcapacity hcause,
      fun _ _ => hnone, h.total⟩

theorem Spent.transition (h : Spent s log) (hfollows : Follows agent s log)
    (ht : Transition agent (fun s turn => ¬Supersedes s turn) s s' entries) :
    Spent s' (entries ++ log) := by
  have hmax : maxTransientAttempts = 5 := rfl
  cases ht with
  | enabled policy now h' => constructor <;> grind -linarith
  | disabled policy now h' => constructor <;> grind -linarith
  | reset now hwas h' => constructor <;> grind -linarith
  | rearmed henabled hstate hcause => constructor <;> grind -linarith
  | ended hentry hsame henabled =>
    rcases hentry with rfl | rfl
    · constructor <;> grind -linarith
    · constructor <;> grind -linarith
  | checkFailed hready hcause hsame henabled =>
    have h₀ := h.ready hfollows hready
    have hwas := hready.enabled
    constructor <;> grind -linarith
  | checksExhausted hready hcause hsame henabled =>
    have h₀ := h.ready hfollows hready
    have hwas := hready.enabled
    constructor <;> grind -linarith
  | postponed hready hsame henabled => constructor <;> grind -linarith
  | armedUsage hwas hidle hnew henabled => constructor <;> grind -linarith
  | @armedCapacity turn revision preserved hknown hagent hwas hidle hnew henabled hstate hcause _ _
      hpreserved hattempt =>
    cases preserved with
    | true => constructor <;> grind -linarith
    | false =>
      -- the counter starts anew, and so does the chain unless a claim of it still waits
      have hnone : capacitySubmissions log = 0 := by
        by_cases hcapacity : s.recoveryCause = some .providerCapacity
        · unfold Supersedes at hknown
          grind -linarith
        · exact h.others hwas hcapacity
      constructor <;> grind -linarith
  | scheduled hready hcause hsame henabled =>
    have h₀ := h.ready hfollows hready
    have hwas := hready.enabled
    constructor <;> grind -linarith
  | accountQueued hready hcause hsame henabled =>
    have h₀ := h.ready hfollows hready
    have hwas := hready.enabled
    constructor <;> grind -linarith
  | woken hwas hsame henabled => constructor <;> grind -linarith
  | resumed hwas hsame henabled => constructor <;> grind -linarith

/-! ## Runs -/

/-- The failed checks and the queued accounts of a world are within their bounds. -/
structure Steady (agent : Provider) (world : World) : Prop extends Sound agent world where
  paced : ∀ now, Paced agent (readState world.file now) world.log

theorem Paced.claimed (h : Paced agent s log) (hclaimed : Claimed agent s s' activity) :
    Paced agent s' log := by
  obtain ⟨s₀, hready, hsame, haccounts, hcapacity, husage⟩ := hclaimed.ready
  have h₀ := h.ready hready
  have hwas := hready.enabled
  have henabled := hclaimed.enabled
  constructor <;> grind -linarith

theorem Paced.submitted (h : Paced agent s log) (henabled : s.enabled = true)
    (submission : Submission) : Paced agent s (.submitted submission :: log) := by
  constructor <;> grind -linarith

theorem Steady.moved (h : Steady agent world)
    (hmoved : Moved agent P world world') : Steady agent world' := by
  refine ⟨h.toSound.moved hmoved, fun now => ?_⟩
  have hpaced := h.paced
  cases hmoved with
  | event hfree h' =>
    subst h'
    exact hpaced now
  | @submitted claim hflight h' =>
    subst h'
    obtain ⟨hfile, hlaunched⟩ := h.flight claim hflight
    have hclaim : readState world.file now = claim := by rw [hfile]; rfl
    exact (hpaced now).submitted (by rw [hclaim]; exact hlaunched.enabled) _
  | @moved outcome T later hfree hallowed h' =>
    have hafter : Paced agent (readState (world.after outcome).file now)
        (world.after outcome).log := by
      cases outcome with
      | error failure => exact hpaced now
      | ok move =>
        cases move with
        | keeps => exact hpaced now
        | writes state entries => exact (hpaced later).transition hallowed.1
        | claims state => exact (hpaced later).claimed hallowed.1
    rcases h' with rfl | rfl
    · exact hafter
    · exact hafter
  | abandoned h' =>
    subst h'
    exact hpaced now

theorem steady_starts (h : world.Starts) : Steady agent world := by
  refine ⟨sound_starts h, fun now => ?_⟩
  obtain ⟨-, ⟨hfile, hlog⟩ | ⟨state, turn, revision, hlegacy, hfile, hlog⟩⟩ := h
  · rw [hfile, hlog]
    show Paced agent (defaultState now) []
    constructor <;> grind -linarith
  · rw [hfile, hlog]
    show Paced agent state _
    have hoff : state.enabled = false := by
      have hterminal := hlegacy.terminal
      simp only [legacyUsageWindowTerminal, Bool.and_eq_true, Bool.not_eq_true'] at hterminal
      exact hterminal.1.1.1.1
    constructor <;> grind -linarith

theorem steady_reach (h : (recoverySystem agent digestByte).Reach world) :
    Steady agent world :=
  h.invariant (I := Steady agent) (fun _ hinit => steady_starts hinit)
    fun label (s t : World) (hs : Steady agent s)
        (hstep : s.next agent digestByte label = some t) =>
      hs.moved (moved_of_next (P := fun _ _ => True) hs.checking (by simp) hstep)

def InTurn : Label → World → Prop
  | .armCapacity _ _ _ turn _ now, world => ¬Supersedes (readState world.file now) turn
  | _, _ => True

structure Counted (agent : Provider) (world : World) : Prop extends Sound agent world where
  spent : ∀ now, Spent (readState world.file now) world.log
  claimed : ∀ claim, world.flight = some ⟨claim, false⟩ →
    claim.recoveryCause = some .providerCapacity → capacitySubmissions world.log < claim.attempt

theorem Spent.claimed (h : Spent s log) (hfollows : Follows agent s log)
    (hclaimed : Claimed agent s s' activity) : Spent s' log ∧
      (s'.recoveryCause = some .providerCapacity → capacitySubmissions log < s'.attempt) := by
  obtain ⟨s₀, hready, hsame, -, hcapacity, husage⟩ := hclaimed.ready
  have h₀ := h.ready hfollows hready
  have hwas := hready.enabled
  have henabled := hclaimed.enabled
  have hstate := hclaimed.state
  constructor
  · constructor <;> grind -linarith
  · grind -linarith

theorem Spent.submitted {claim : DurableAutoResume} (h : Spent claim log)
    (henabled : claim.enabled = true) (hclaimed : claim.recoveryCause = some .providerCapacity →
      capacitySubmissions log < claim.attempt) :
    Spent claim (.submitted (submissionOf claim activity) :: log) := by
  constructor <;> grind -linarith [submissionOf]

theorem Counted.moved (h : Counted agent world)
    (hmoved : Moved agent (fun s turn => ¬Supersedes s turn) world world') :
    Counted agent world' := by
  have hsound := h.toSound.moved hmoved
  have hspent := h.spent
  cases hmoved with
  | event hfree h' =>
    subst h'
    exact ⟨hsound, hspent, h.claimed⟩
  | @submitted claim hflight h' =>
    subst h'
    obtain ⟨hfile, hlaunched⟩ := h.flight claim hflight
    have hclaim : ∀ now, readState world.file now = claim := fun _ => by rw [hfile]; rfl
    refine ⟨hsound, fun now => ?_, by rintro other hother; cases hother⟩
    have hnow := hspent now
    show Spent (readState world.file now) _
    rw [hclaim] at hnow ⊢
    exact hnow.submitted hlaunched.enabled (h.claimed claim hflight)
  | @moved outcome T later hfree hallowed h' =>
    have hfollows := h.follows later
    have hafter : (∀ now, Spent (readState (world.after outcome).file now)
        (world.after outcome).log) ∧ ∀ claim, (world.after outcome).flight = some ⟨claim, false⟩ →
          claim.recoveryCause = some .providerCapacity →
            capacitySubmissions (world.after outcome).log < claim.attempt := by
      cases outcome with
      | error failure => exact ⟨hspent, h.claimed⟩
      | ok move =>
        cases move with
        | keeps => exact ⟨hspent, h.claimed⟩
        | writes state entries =>
          exact ⟨fun _ => (hspent later).transition hfollows hallowed.1,
            fun claim hflight => absurd hflight (Sound.not_launched hfree claim)⟩
        | claims state =>
          obtain ⟨hstate, hcount⟩ := (hspent later).claimed hfollows hallowed.1
          refine ⟨fun _ => hstate, ?_⟩
          rintro claim hflight
          cases hflight
          exact hcount
    rcases h' with rfl | rfl
    · exact ⟨hsound, hafter.1, hafter.2⟩
    · exact ⟨hsound, hafter.1, by rintro claim hflight; cases hflight⟩
  | abandoned h' =>
    subst h'
    exact ⟨hsound, hspent, by rintro claim hflight; cases hflight⟩

theorem counted_starts (h : world.Starts) : Counted agent world := by
  refine ⟨sound_starts h, fun now => ?_, by simp [h.1]⟩
  obtain ⟨-, ⟨hfile, hlog⟩ | ⟨state, turn, revision, hlegacy, hfile, hlog⟩⟩ := h
  · rw [hfile, hlog]
    show Spent (defaultState now) []
    constructor <;> grind -linarith
  · rw [hfile, hlog]
    show Spent state _
    have hcause := hlegacy.cause
    constructor <;> grind -linarith

theorem counted_reach (h : ((recoverySystem agent digestByte).restrict InTurn).Reach world) :
    Counted agent world :=
  h.invariant (I := Counted agent) (fun _ hinit => counted_starts hinit)
    fun label (s t : World) (hs : Counted agent s)
        (hstep : InTurn label s ∧ s.next agent digestByte label = some t) =>
      hs.moved (moved_of_next hs.checking
        (by rintro facts launchId binding turn revision now rfl; exact hstep.1) hstep.2)

/-- Automatic recovery is bounded: in every run at most five checks of an arming fail in a row, no
account is queued twice in a chain, no table is indexed out of range, and a tick sets later times
only. In a run that arms no capacity failure over a waiting claim of the same chain, at most five
continuations of the chain are submitted. -/
theorem recovery_bounded :
    (∀ world, (recoverySystem agent digestByte).Reach world →
      failedChecks world.log ≤ maxTransientAttempts ∧ (queuedAccounts world.log).Nodup ∧
      (∀ label, moveOf agent digestByte world label ≠ .error .indexOutOfBounds) ∧
      ∀ facts tick state, (∃ entries, moveOf agent digestByte world (.tick facts tick) =
          .ok (.writes state entries)) ∨
          moveOf agent digestByte world (.tick facts tick) = .ok (.claims state) →
        Later tick.now (readState world.file tick.now) state) ∧
    ∀ world, ((recoverySystem agent digestByte).restrict InTurn).Reach world →
      capacitySubmissions world.log ≤ maxTransientAttempts := by
  refine ⟨fun world h => ?_, fun world h => ((counted_reach h).spent 0).total⟩
  have hsteady := steady_reach h
  refine ⟨(hsteady.paced 0).checks, (hsteady.paced 0).nodup, fun label hpanic => ?_,
    fun facts tick state hmove => ?_⟩
  · obtain ⟨T, now, hallowed⟩ := @allowed_moveOf agent (fun _ _ => True) digestByte world label
      hsteady.checking (by simp)
    rw [hpanic] at hallowed
    exact hallowed rfl
  · have hallowed : Allowed agent (fun _ _ => True) (Later tick.now)
        (readState world.file tick.now) world.activity
        (moveOf agent digestByte world (.tick facts tick)) := allowed_tickInner
    rcases hmove with ⟨entries, hmove⟩ | hmove
    · rw [hmove] at hallowed
      exact hallowed.2
    · rw [hmove] at hallowed
      exact hallowed.2

/-! ## Samples -/

/-- The turn fails for want of capacity. -/
def capacityFailure (turn : String) (revision : Nat) : Label :=
  .event { sampleActivity with
    revision
    lastTurn := sampleActivity.lastTurn.map fun last =>
      { last with providerTurnId := some turn } }

def armFailure (turn : String) (revision : Nat) (now : Int) : Label :=
  .armCapacity sampleFacts "launch" .unbound turn revision now

def continuation (now : Int) : List Label := [sampleTick now, .submit, .publish true now]

/-- A turn fails for want of capacity, is armed, and continued after the longest delay. -/
def capacityRound (turn : String) (revision : Nat) : List Label :=
  capacityFailure turn revision :: armFailure turn revision (1000 * revision) ::
    continuation (1000 * revision + 600)

/-- The scheduler cannot reach the provider, and the failure is reported once more: the chain has a
new budget, and submits a sixth continuation. -/
theorem sixth_continuation : ¬ ∀ world, (recoverySystem .codex fun _ => 0).Reach world →
    capacitySubmissions world.log ≤ maxTransientAttempts := by
  intro hbound
  have hrun : (sampleWorld.run .codex (fun _ => 0)
      (.setEnabled sampleFacts true .waitForReset 1 :: capacityRound "t1" 10 ++
        capacityRound "t2" 20 ++ capacityRound "t3" 30 ++ capacityRound "t4" 40 ++
        [capacityFailure "t5" 50, armFailure "t5" 50 50000,
          .schedulerError sampleFacts (some "launch") 50600 .controlUnavailable,
          armFailure "t5" 50 50601] ++ continuation 51000 ++
        capacityRound "t6" 60)).map (fun world => capacitySubmissions world.log) = some 6 := by
    decide +kernel
  obtain ⟨world, hworld, hsix⟩ := Option.map_eq_some_iff.mp hrun
  have hreach : (recoverySystem .codex fun _ => 0).Reach world :=
    reach_run (.init ⟨rfl, .inl ⟨rfl, rfl⟩⟩) hworld
  have hfive := hbound world hreach
  rw [hsix] at hfive
  revert hfive
  decide

instance (s : DurableAutoResume) (turn : String) : Decidable (Supersedes s turn) :=
  inferInstanceAs (Decidable (_ ∧ _))

def armedWorld (labels : List Label) : World :=
  (sampleWorld.run .codex (fun _ => 0) labels).getD sampleWorld

theorem reach_inTurn (label : Label)
    (h : ((recoverySystem agent digestByte).restrict InTurn).Reach world)
    (hlabel : InTurn label world) (hnext : world.next agent digestByte label = some world') :
    ((recoverySystem agent digestByte).restrict InTurn).Reach world' := h.next ⟨hlabel, hnext⟩

theorem recovery_bounded_sample : ∃ world,
    ((recoverySystem .codex fun _ => 0).restrict InTurn).Reach world ∧
      lastArming world.log = some ("t1", 10) ∧
      failedChecks world.log ≤ maxTransientAttempts ∧
      capacitySubmissions world.log ≤ maxTransientAttempts := by
  have hstart : ((recoverySystem .codex fun _ => 0).restrict InTurn).Reach sampleWorld :=
    .init ⟨rfl, .inl ⟨rfl, rfl⟩⟩
  have henabled : ((recoverySystem .codex fun _ => 0).restrict InTurn).Reach
      (armedWorld [.setEnabled sampleFacts true .waitForReset 1]) :=
    reach_inTurn (.setEnabled sampleFacts true .waitForReset 1) hstart trivial
      (by decide +kernel)
  have hfailed : ((recoverySystem .codex fun _ => 0).restrict InTurn).Reach
      (armedWorld [.setEnabled sampleFacts true .waitForReset 1, capacityFailure "t1" 10]) :=
    reach_inTurn (capacityFailure "t1" 10) henabled trivial (by decide +kernel)
  have harmed : ((recoverySystem .codex fun _ => 0).restrict InTurn).Reach
      (armedWorld [.setEnabled sampleFacts true .waitForReset 1, capacityFailure "t1" 10,
        armFailure "t1" 10 10000]) :=
    reach_inTurn (armFailure "t1" 10 10000) hfailed
      (show ¬Supersedes _ _ by decide +kernel) (by decide +kernel)
  refine ⟨_, harmed, by decide +kernel, (recovery_bounded.1 _ harmed.of_restrict).1,
    recovery_bounded.2 _ harmed⟩

end NilsCli.AutoResume
