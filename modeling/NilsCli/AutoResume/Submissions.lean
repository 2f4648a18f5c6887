import NilsCli.AutoResume.Transitions

/-!
# Submissions of continuations

In every run, a continuation is submitted only for the last arming, in the activity that the arming
was blocked in, and not after the recovery was called off.
-/

namespace NilsCli.AutoResume

open Lib
variable {entries : List Entry} {world : World}

open Activity (Provider TurnState)

/-! ## The log -/

/-- The last submission. -/
@[grind] def lastSubmission : List Entry → Option Submission
  | [] => none
  | .submitted submission :: _ => some submission
  | _ :: log => lastSubmission log

/-- What happened since the last submission. -/
@[grind] def sinceSubmission : List Entry → List Entry
  | [] => []
  | .submitted _ :: _ => []
  | entry :: log => entry :: sinceSubmission log

/-- The turn and the revision of the last arming. -/
@[grind] def lastArming : List Entry → Option (String × Nat)
  | [] => none
  | .rearmed turn revision :: _ => some (turn, revision)
  | .armed _ turn revision _ :: _ => some (turn, revision)
  | _ :: log => lastArming log

@[grind] def calledOff : List Entry → Bool
  | [] => false
  | .enabled :: _ => false
  | .rearmed .. :: _ => false
  | .disabled :: _ => true
  | .cancelled :: _ => true
  | .failed :: _ => true
  | _ :: log => calledOff log

/-- An arming was accepted. -/
@[grind] def Entry.arms : Entry → Bool
  | .rearmed .. | .armed .. => true
  | _ => false

@[grind] def Entry.restarts : Entry → Bool
  | .enabled | .disabled | .reset | .rearmed .. => true
  | _ => false

/-- The recovery starts anew, or another turn or cause is recovered than was submitted. -/
@[grind] def Entry.renews (last : Submission) : Entry → Bool
  | .armed cause turn _ _ => turn ≠ last.turn || some cause ≠ last.cause
  | entry => entry.restarts

/-- What a submission needs of the log before it. -/
structure Justified (submission : Submission) (before : List Entry) : Prop where
  waiting : submission.activity.phase = .waiting
  revision : submission.activity.revision = submission.revision
  attention : noAttention submission.activity = true
  arming : lastArming before = some (submission.turn, submission.revision)
  on : calledOff before = false
  armed : ∀ last, lastSubmission before = some last → (sinceSubmission before).any (·.arms) = true
  renewed : ∀ last, lastSubmission before = some last →
    (sinceSubmission before).any (·.renews last) = true

/-! ## The invariant -/

/-- The state is what the log leads to. -/
@[grind cases] structure Follows (agent : Provider) (s : DurableAutoResume) (log : List Entry) : Prop where
  claude : agent = .claude → s.recoveryCause ≠ some .providerCapacity
  legacy : agent = .claude → legacyUsageWindowTerminal s = true →
    lastSubmission log = none ∧ calledOff log = false
  off : calledOff log = true → s.enabled = false
  armed : (s.enabled = true ∧ s.state.claimable = true) ∨
      (agent = .claude ∧ legacyUsageWindowTerminal s = true) →
    ∃ turn revision, s.blockedTurnId = some turn ∧ s.blockedRevision = some revision ∧
      lastArming log = some (turn, revision)
  again : ∀ last, lastSubmission log = some last → s.enabled = true → s.state.claimable = true →
    (sinceSubmission log).any (·.arms) = true
  renewed : ∀ last, lastSubmission log = some last →
    (sinceSubmission log).any (·.renews last) = true ∨
      s.blockedTurnId = some last.turn ∧ s.recoveryCause = last.cause ∧
        (s.enabled = true → s.state = .checking ∨ s.state = .resumed)

/-- A claim that is not submitted yet. -/
structure Launched (claim : DurableAutoResume) (activity : TurnState) (log : List Entry) : Prop where
  enabled : claim.enabled = true
  eligible : blockedClaimIsEligible (some activity) claim = true
  on : calledOff log = false
  arming : ∃ turn revision, claim.blockedTurnId = some turn ∧
    claim.blockedRevision = some revision ∧ lastArming log = some (turn, revision)
  again : ∀ last, lastSubmission log = some last → (sinceSubmission log).any (·.arms) = true
  renewed : ∀ last, lastSubmission log = some last →
    (sinceSubmission log).any (·.renews last) = true

structure Sound (agent : Provider) (world : World) : Prop where
  follows : ∀ now, Follows agent (readState world.file now) world.log
  flight : ∀ claim, world.flight = some ⟨claim, false⟩ →
    world.file = some claim ∧ Launched claim world.activity world.log
  checking : ∀ flight, world.flight = some flight → flight.claim.state = .checking
  justified : ∀ submission before, .submitted submission :: before <:+ world.log →
    Justified submission before

variable {agent : Provider} {digestByte : String → Nat} {P : DurableAutoResume → String → Prop}
  {s s' : DurableAutoResume}
  {activity : TurnState} {log : List Entry}

section

variable (h : Follows agent s log)

include h

theorem Follows.ready {s₀ : DurableAutoResume} (hready : Ready agent s s₀) :
    Follows agent s₀ log ∧ s₀.enabled = true ∧ s₀.state.claimable = true ∧
      calledOff log = false := by
  cases hready with
  | claim henabled hclaimable =>
    refine ⟨h, henabled, hclaimable, ?_⟩
    cases hoff : calledOff log with
    | false => rfl
    | true => rw [h.off hoff] at henabled; cases henabled
  | legacy hagent hlegacy hsame henabled hstate =>
    obtain ⟨hnone, hon⟩ := h.legacy hagent hlegacy
    have hclaimable : s₀.state.claimable = true := by rw [hstate]; rfl
    refine ⟨?_, henabled, hclaimable, hon⟩
    constructor
    · intro hclaude
      rw [hsame.cause]
      exact h.claude hclaude
    · intro _ _
      exact ⟨hnone, hon⟩
    · intro hoff
      rw [hon] at hoff
      cases hoff
    · intro _
      rw [hsame.turn, hsame.revision]
      exact h.armed (.inr ⟨hagent, hlegacy⟩)
    · intro last hlast
      rw [hnone] at hlast
      cases hlast
    · intro last hlast
      rw [hnone] at hlast
      cases hlast

theorem Follows.transition
    (ht : Transition agent P s s' entries) : Follows agent s' (entries ++ log) := by
  cases ht with
  -- the recovery starts anew, and nothing is claimable but a new arming
  | enabled policy now h' => constructor <;> grind -linarith
  | disabled policy now h' => constructor <;> grind -linarith
  | reset now hwas h' => constructor <;> grind -linarith
  | rearmed henabled hstate hcause hturn hrevision => constructor <;> grind -linarith
  -- what is off stays off
  | ended hentry hsame henabled _ hlegacy =>
    rcases hentry with rfl | rfl
    · constructor <;> grind -linarith
    · constructor <;> grind -linarith
  | checksExhausted hready hcause hsame henabled _ _ hlegacy =>
    obtain ⟨h₀, hclaim⟩ := h.ready hready
    constructor <;> grind -linarith
  -- a claim stays a claim of the same turn
  | checkFailed hready hcause hsame henabled hstate =>
    obtain ⟨h₀, hclaim⟩ := h.ready hready
    constructor <;> grind -linarith
  | scheduled hready hcause hsame henabled hstate =>
    obtain ⟨h₀, hclaim⟩ := h.ready hready
    constructor <;> grind -linarith
  | accountQueued hready hcause hsame henabled hstate =>
    obtain ⟨h₀, hclaim⟩ := h.ready hready
    constructor <;> grind -linarith
  | postponed hready hsame henabled hstate => constructor <;> grind -linarith
  | woken hwas hsame henabled hstate => constructor <;> grind -linarith
  -- the turn of the last submission is refused while its state says so
  | armedUsage hwas hidle hnew henabled hstate hcause hturn hrevision => constructor <;> grind -linarith
  | armedCapacity _ hagent hwas hidle hnew henabled hstate hcause hturn hrevision hpreserved =>
    constructor <;> grind -linarith
  | resumed hwas hsame henabled hstate =>
    have hlegacy : legacyUsageWindowTerminal s' = false := by simp [legacyUsageWindowTerminal, hstate]
    have hclaimable : s'.state.claimable = false := by rw [hstate]; rfl
    refine ⟨fun hagent => ?_, fun _ hterminal => ?_, fun hoff => ?_, ?_, fun _ _ _ hclaim => ?_,
      fun last hlast => ?_⟩
    · rw [hsame.cause]
      exact h.claude hagent
    · rw [hlegacy] at hterminal
      cases hterminal
    · rw [henabled]
      exact h.off hoff
    · rintro (⟨-, hclaim⟩ | ⟨-, hterminal⟩)
      · rw [hclaimable] at hclaim
        cases hclaim
      · rw [hlegacy] at hterminal
        cases hterminal
    · rw [hclaimable] at hclaim
      cases hclaim
    · rcases h.renewed last hlast with hany | ⟨hturn, hcause, -⟩
      · exact .inl hany
      · exact .inr ⟨hsame.turn.trans hturn, hsame.cause.trans hcause, fun _ => .inr hstate⟩

/-- A claim is made where the log allows a submission. -/
theorem Follows.launched (hclaimed : Claimed agent s s' activity) :
    Launched s' activity log := by
  obtain ⟨s₀, hready, hsame, -⟩ := hclaimed.ready
  obtain ⟨h₀, henabled, hclaimable, hon⟩ := h.ready hready
  obtain ⟨turn, revision, hturn, hrevision, hlast⟩ := h₀.armed (.inl ⟨henabled, hclaimable⟩)
  refine ⟨hclaimed.enabled, hclaimed.eligible, hon,
    ⟨turn, revision, hsame.turn.trans hturn, hsame.revision.trans hrevision, hlast⟩,
    fun last hsubmitted => h₀.again last hsubmitted henabled hclaimable, fun last hsubmitted => ?_⟩
  rcases h₀.renewed last hsubmitted with hrenewed | ⟨-, -, hbusy⟩
  · exact hrenewed
  · rcases hbusy henabled with hstate | hstate
    · rw [hstate] at hclaimable
      cases hclaimable
    · rw [hstate] at hclaimable
      cases hclaimable

theorem Follows.claimed (hclaimed : Claimed agent s s' activity) :
    Follows agent s' log := by
  obtain ⟨s₀, hready, hsame, -⟩ := hclaimed.ready
  obtain ⟨h₀, hclaim⟩ := h.ready hready
  have henabled := hclaimed.enabled
  have hstate := hclaimed.state
  constructor <;> grind -linarith

end

theorem Launched.justified {claim : DurableAutoResume} (h : Launched claim activity log) :
    Justified (submissionOf claim activity) log := by
  obtain ⟨turn, revision, hturn, hrevision, hlast⟩ := h.arming
  have heligible := h.eligible
  simp only [blockedClaimIsEligible, Option.any_some, Bool.and_eq_true, decide_eq_true_eq]
    at heligible
  refine ⟨heligible.1.1, heligible.1.2, heligible.2, ?_, h.on, h.again, h.renewed⟩
  rw [hlast, submissionOf, hturn, hrevision]
  rfl

theorem Launched.submitted {claim : DurableAutoResume} (h : Launched claim activity log)
    (hfollows : Follows agent claim log) (hstate : claim.state = .checking) :
    Follows agent claim (.submitted (submissionOf claim activity) :: log) := by
  obtain ⟨turn, revision, hturn, hrevision, hlast⟩ := h.arming
  have henabled := h.enabled
  constructor <;> grind -linarith [submissionOf]

/-! ## Runs -/

theorem Transition.not_submitted (h : Transition agent P s s' entries)
    (submission : Submission) : .submitted submission ∉ entries := by
  cases h with
  | ended hentry => rcases hentry with rfl | rfl <;> simp
  | _ => simp

theorem suffix_of_suffix_append {entry : Entry} {before : List Entry}
    (h : entry :: before <:+ entries ++ log) (hentry : entry ∉ entries) : entry :: before <:+ log := by
  induction entries with
  | nil => exact h
  | cons first entries ih =>
    simp only [List.mem_cons, not_or] at hentry
    rcases List.suffix_cons_iff.mp h with hsame | hrest
    · exact absurd (List.cons.inj hsame).1 hentry.1
    · exact ih hrest hentry.2

theorem Sound.not_launched (hfree : world.locked = false)
    (claim : DurableAutoResume) : world.flight ≠ some ⟨claim, false⟩ := by
  intro hflight
  simp [World.locked, hflight] at hfree

theorem Sound.grounded (h : Sound agent world) :
    Sound agent { world with flight := none } where
  follows := h.follows
  flight _ hflight := by cases hflight
  checking _ hflight := by cases hflight
  justified := h.justified

theorem Sound.after (h : Sound agent world) (hfree : world.locked = false)
    {outcome : Outcome} {T : DurableAutoResume → DurableAutoResume → Prop} {now : Int}
    (hallowed : Allowed agent P T (readState world.file now) world.activity outcome) :
    Sound agent (world.after outcome) := by
  cases outcome with
  | error failure => exact h
  | ok move =>
    cases move with
    | keeps => exact h
    | writes state entries =>
      obtain ⟨htransition, -⟩ := hallowed
      exact
        { follows := fun _ => (h.follows now).transition htransition
          flight := fun claim hflight => absurd hflight (Sound.not_launched hfree claim)
          checking := h.checking
          justified := fun submission before hsuffix => h.justified submission before
            (suffix_of_suffix_append hsuffix (htransition.not_submitted submission)) }
    | claims state =>
      obtain ⟨hclaimed, -⟩ := hallowed
      exact
        { follows := fun _ => (h.follows now).claimed hclaimed
          flight := by
            rintro claim hflight
            cases hflight
            exact ⟨rfl, (h.follows now).launched hclaimed⟩
          checking := by
            rintro flight hflight
            cases hflight
            exact hclaimed.state
          justified := h.justified }

theorem Sound.moved {world' : World} (h : Sound agent world)
    (hmoved : Moved agent P world world') : Sound agent world' := by
  cases hmoved with
  | event hfree h' =>
    subst h'
    exact
      { follows := h.follows
        flight := fun claim hflight => absurd hflight (Sound.not_launched hfree claim)
        checking := h.checking
        justified := h.justified }
  | @submitted claim hflight h' =>
    subst h'
    obtain ⟨hfile, hlaunched⟩ := h.flight claim hflight
    have hstate := h.checking _ hflight
    have hclaim : ∀ now, readState world.file now = claim := fun _ => by rw [hfile]; rfl
    exact
      { follows := fun now => by
          have hfollows := h.follows now
          show Follows agent (readState world.file now) _
          rw [hclaim] at hfollows ⊢
          exact hlaunched.submitted hfollows hstate
        flight := by
          rintro other hother
          cases hother
        checking := by
          rintro flight hsubmitted
          cases hsubmitted
          exact hstate
        justified := fun submission before hsuffix => by
          rcases List.suffix_cons_iff.mp hsuffix with hsame | hrest
          · cases hsame
            exact hlaunched.justified
          · exact h.justified submission before hrest }
  | moved hfree hallowed h' =>
    rcases h' with rfl | rfl
    · exact h.after hfree hallowed
    · exact (h.after hfree hallowed).grounded
  | abandoned h' =>
    subst h'
    exact h.grounded

theorem sound_starts (h : world.Starts) : Sound agent world := by
  obtain ⟨hflight, ⟨hfile, hlog⟩ | ⟨state, turn, revision, hlegacy, hfile, hlog⟩⟩ := h
  · refine ⟨fun now => ?_, by simp [hflight], by simp [hflight], by simp [hlog]⟩
    rw [hfile, hlog]
    show Follows agent (defaultState now) []
    constructor <;> grind -linarith
  · refine ⟨fun now => ?_, by simp [hflight], by simp [hflight], ?_⟩
    · rw [hfile, hlog]
      show Follows agent state _
      obtain ⟨hterminal, hturn, hrevision, hcause⟩ := hlegacy
      constructor <;> grind -linarith
    · intro submission before hsuffix
      rw [hlog] at hsuffix
      simp [List.suffix_cons_iff] at hsuffix

theorem sound_reach (h : (recoverySystem agent digestByte).Reach world) :
    Sound agent world :=
  h.invariant (I := Sound agent) (fun _ hinit => sound_starts hinit)
    fun label (s t : World) (hs : Sound agent s)
        (hstep : s.next agent digestByte label = some t) =>
      hs.moved (moved_of_next (P := fun _ _ => True) hs.checking (by simp) hstep)

/-- Each submission of a run happens in an activity that waits without a question at the blocked
revision of the last arming, and not after the recovery was called off. Between two submissions an
arming was accepted, and it was for another turn or cause unless the recovery was restarted. -/
theorem submissions_justified {world : World}
    (h : (recoverySystem agent digestByte).Reach world) (submission : Submission)
    (before : List Entry) (hsubmitted : .submitted submission :: before <:+ world.log) :
    submission.activity.phase = .waiting ∧
    submission.activity.revision = submission.revision ∧
    noAttention submission.activity = true ∧
    lastArming before = some (submission.turn, submission.revision) ∧
    calledOff before = false ∧
    ∀ last, lastSubmission before = some last →
      (∃ arming ∈ sinceSubmission before, arming.arms = true) ∧
      ((∃ start ∈ sinceSubmission before, start.restarts = true) ∨
        ∃ cause turn revision preserved,
          .armed cause turn revision preserved ∈ sinceSubmission before ∧
            (turn ≠ last.turn ∨ some cause ≠ last.cause)) := by
  have hjustified := (sound_reach h).justified submission before hsubmitted
  refine ⟨hjustified.waiting, hjustified.revision, hjustified.attention, hjustified.arming,
    hjustified.on, fun last hlast => ⟨List.any_eq_true.mp (hjustified.armed last hlast), ?_⟩⟩
  obtain ⟨entry, hentry, hrenews⟩ := List.any_eq_true.mp (hjustified.renewed last hlast)
  cases entry with
  | armed cause turn revision preserved =>
    right
    refine ⟨cause, turn, revision, preserved, hentry, ?_⟩
    simpa [Entry.renews] using hrenews
  | _ => exact .inl ⟨_, hentry, hrenews⟩

/-! ## Samples -/

/-- The world after these steps. -/
def World.run (agent : Provider) (digestByte : String → Nat) (world : World) :
    List Label → Option World
  | [] => some world
  | label :: labels => (world.next agent digestByte label).bind (·.run agent digestByte labels)

theorem reach_run {world' : World} {labels : List Label}
    (h : (recoverySystem agent digestByte).Reach world)
    (hrun : world.run agent digestByte labels = some world') :
    (recoverySystem agent digestByte).Reach world' := by
  induction labels generalizing world with
  | nil => cases hrun; exact h
  | cons label labels ih =>
    unfold World.run at hrun
    obtain ⟨next, hnext, hrest⟩ := Option.bind_eq_some_iff.mp hrun
    exact ih (h.next hnext) hrest

def sampleActivity : TurnState where
  phase := .waiting
  phaseChangedAt := 0
  revision := 7
  source := ⟨.providerHook, some .claude, .authoritative⟩
  semanticEvent := none
  diagnostic := none
  shadowObservation := none
  currentTurn := none
  lastTurn := some
    { providerTurnId := some "t1"
      startedAt := some 0
      completedAt := 0
      outcome := .failed
      providerFailureKind := some "provider_capacity" }

def sampleFacts : Facts where
  launchId := some "launch"
  profileSupported := true
  codexRuntimeSupported := true
  unhealthy := false
  brokerConfigured := false
  selectedAccount := none
  binding := .unbound
  nextTransition := .absent
  inputBinding := .ok none
  healthFence := .ok ()
  authorization := .ok ()
  activityReadable := true

def sampleWorld : World := ⟨none, sampleActivity, none, []⟩

/-- A tick that sees open usage windows. -/
def sampleTick (now : Int) : Label := .tick sampleFacts ⟨none, none, none, now, ⟨true, false, [], none⟩⟩

def sampleRecovery (start : Int) : List Label :=
  [.armUsage sampleFacts "t1" 7 start, sampleTick (start + 1), sampleTick (start + 3600), .submit]

def sampleSubmission : Submission := ⟨"t1", 7, some .usageExhaustion, sampleActivity⟩

def sampleLog : List Entry :=
  [.submitted sampleSubmission, .scheduled, .armed .usageExhaustion "t1" 7 false, .enabled]

/-- A turn is submitted again after its submission failed, the session was enabled anew and the
failure was reported once more: no new turn was armed in between. -/
theorem same_turn_submitted_twice : ¬ ∀ world,
    (recoverySystem .claude fun _ => 0).Reach world → ∀ submission before,
      .submitted submission :: before <:+ world.log → ∀ last, lastSubmission before = some last →
        ∃ arming ∈ sinceSubmission before, (∃ turn revision, arming = .rearmed turn revision ∧
            turn ≠ last.turn) ∨
          ∃ cause turn revision preserved, arming = .armed cause turn revision preserved ∧
            turn ≠ last.turn := by
  intro hnew
  have hrun : (sampleWorld.run .claude (fun _ => 0)
      ([.setEnabled sampleFacts true .waitForReset 1] ++ sampleRecovery 10 ++
        [.publish false 3700, .setEnabled sampleFacts true .waitForReset 3800] ++
        sampleRecovery 4000)).map (·.log) = some (sampleLog ++ .failed :: sampleLog) := by
    decide +kernel
  obtain ⟨world, hworld, hlog⟩ := Option.map_eq_some_iff.mp hrun
  have hreach : (recoverySystem .claude fun _ => 0).Reach world :=
    reach_run (.init ⟨rfl, .inl ⟨rfl, rfl⟩⟩) hworld
  have hsuffix : .submitted sampleSubmission :: (sampleLog.tail ++ .failed :: sampleLog) <:+
      world.log := by
    rw [hlog]
    exact List.suffix_refl _
  obtain ⟨arming, harming, hother⟩ := hnew world hreach _ _ hsuffix sampleSubmission rfl
  simp only [sampleLog, List.tail_cons, List.cons_append, List.nil_append, sinceSubmission,
    List.mem_cons, List.not_mem_nil, or_false] at harming
  rcases harming with rfl | rfl | rfl | rfl <;> simp [sampleSubmission] at hother

theorem submissions_justified_sample : ∃ world,
    (recoverySystem .claude fun _ => 0).Reach world ∧
      .submitted sampleSubmission :: sampleLog.tail <:+ world.log ∧
      lastArming sampleLog.tail = some ("t1", 7) := by
  have hrun : (sampleWorld.run .claude (fun _ => 0)
      (.setEnabled sampleFacts true .waitForReset 1 :: sampleRecovery 10)).map (·.log) =
        some sampleLog := by decide +kernel
  obtain ⟨world, hworld, hlog⟩ := Option.map_eq_some_iff.mp hrun
  have hreach : (recoverySystem .claude fun _ => 0).Reach world :=
    reach_run (.init ⟨rfl, .inl ⟨rfl, rfl⟩⟩) hworld
  have hsuffix : .submitted sampleSubmission :: sampleLog.tail <:+ world.log := by
    rw [hlog]
    exact List.suffix_refl _
  obtain ⟨-, -, -, harming, -⟩ := submissions_justified hreach sampleSubmission _ hsuffix
  exact ⟨world, hreach, hsuffix, harming⟩

end NilsCli.AutoResume
