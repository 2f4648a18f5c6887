import NilsCli.Lib.Json
import NilsCli.Lib.Transition
import NilsCli.StepJournal.Appends

/-!
# What survives

In the runs whose appends leave nothing behind when they return an error, are not made behind a
whole record without its newline, keep the log within the bound of the reader and take transferred
steps of the current schema only (`Safe`), every read finds the steps whose append has succeeded
(`steps_survive`).
-/

namespace NilsCli.StepJournal

open Lib Durable List

section
variable {Session Content : Type} {codec : StepCodec Content}
  {steps : List (StepRecord Content)} {tail : List UInt8} {s : Store Session Content}

/-! ## Safe calls -/

/-- The finished lines of the log. -/
def finishedLog (s : Store Session Content) : List UInt8 :=
  (s.log.getD []).rdropWhile (· ≠ newline)

def EndsWhole (codec : StepCodec Content) (s : Store Session Content) : Prop :=
  unfinished newline (s.log.getD []) ≠ [] ∧
    (codec.parse (unfinished newline (s.log.getD []))).isSome = true

def renumbered (runId : String) : List (String × String) → Nat → List (StepRecord Content) →
    List (StepRecord Content)
  | _, _, [] => []
  | remapped, count, step :: transfer =>
    renumber runId remapped (count + 1) step ::
      renumbered runId ((step.id, stepId (count + 1)) :: remapped) (count + 1) transfer

def Fits (codec : StepCodec Content) (s : Store Session Content)
    (records : List (StepRecord Content)) : Prop :=
  (finishedLog s).count newline + records.length ≤ maxJournalSteps →
    (finishedLog s).length < maxJournalBytes →
    (finishedLog s).length + (records.flatMap (stepLine codec)).length ≤ maxJournalBytes

/-- A call leaves out what makes a log unreadable. -/
def Safe (codec : StepCodec Content) (action : Action Session Content)
    (s : Store Session Content) : Prop :=
  match action with
  | .open _ _ | .read => True
  | .record runId parentId content fate =>
    ¬ EndsWhole codec s ∧ fate.clean ∧
      Fits codec s [newStep runId ((finishedLog s).count newline + 1) parentId content]
  | .ingest manifest transfer =>
    ¬ EndsWhole codec s ∧
      (∀ received ∈ transfer, received.1.schemaVersion = stepSchema ∧ received.2.clean) ∧
      Fits codec s (renumbered (s.manifest.getD manifest).runId [] ((finishedLog s).count newline)
        (transfer.map Prod.fst))

def journal [DecidableEq Session] (codec : StepCodec Content) : Lts where
  State := Store Session Content
  Label := Action Session Content
  init s := s = ⟨none, none, none, false, []⟩
  step action s t := (perform codec action).Stops s t

def Survives (codec : StepCodec Content) (s : Store Session Content) : Prop :=
  ∃ steps recovered, (readStepsRecover codec).result s = .ok (steps, recovered) ∧
    steps.map (·.sequence) = List.range' 1 steps.length ∧ steps.length ≤ maxJournalSteps ∧
    s.appended.Sublist steps

theorem length_renumbered {runId : String} {remapped : List (String × String)} {count : Nat}
    {transfer : List (StepRecord Content)} :
    (renumbered runId remapped count transfer).length = transfer.length := by
  induction transfer generalizing remapped count with
  | nil => rfl
  | cons step transfer ih => rw [renumbered, length_cons, length_cons, ih]

/-! ## What the conditions say of the log -/

theorem unfinished_log (hlawful : codec.Lawful) (h : Holds codec steps tail s) :
    unfinished newline (s.log.getD []) = tail := by
  rw [h.log]
  exact unfinished_terminated_append _ (newline_notMem_tail hlawful h)

theorem finishedLog_eq (hlawful : codec.Lawful) (h : Holds codec steps tail s) :
    finishedLog s = logOf codec steps := by
  unfold finishedLog
  rw [h.log]
  exact rdropWhile_terminated_append _ (newline_notMem_tail hlawful h)

theorem count_logOf (hlawful : codec.Lawful) :
    (logOf codec steps).count newline = steps.length := by
  unfold logOf
  rw [count_terminated fun line hline => ?_, length_map]
  obtain ⟨step, -, rfl⟩ := List.mem_map.mp hline
  exact hlawful.one_line step

theorem eq_nil_of_not_endsWhole (hlawful : codec.Lawful) (h : Holds codec steps tail s)
    (hends : ¬ EndsWhole codec s) (hwhole : Whole codec tail) : tail = [] := by
  unfold EndsWhole at hends
  rw [unfinished_log hlawful h] at hends
  rcases hwhole with hnil | ⟨next, hnext⟩
  · exact hnil
  · by_contra hne
    refine hends ⟨hne, ?_⟩
    rw [hnext, hlawful.parse_render]
    rfl

/-! ## Calls -/

theorem readSequence_bind {α : Type} {f : Nat → Call Session Content α}
    (h : Triple (Settled codec steps) (f steps.length) (fun _ => Sound codec)
      (fun _ => Sound codec) (Sound codec)) :
    Triple (Settled codec steps) (readSequence >>= f) (fun _ => Sound codec)
      (fun _ => Sound codec) (Sound codec) := by
  refine .bind (R := fun committed s => Settled codec steps s ∧ committed = steps.length) ?_
    fun committed => ?_
  · refine .each fun s hsettled => .load_bind (.lift ?_)
    rintro t rfl
    cases hsequence : t.sequence with
    | none => exact hsettled.sound
    | some committed => exact ⟨hsettled, hsettled.counted committed hsequence⟩
  · intro s hs
    obtain ⟨hsettled, rfl⟩ := hs
    exact h s hsettled

theorem commitStep_bind {α : Type} {fate : Fate} {step : StepRecord Content}
    {f : Unit → Call Session Content α} (hfate : fate.clean) (hfits : Fitting codec steps step)
    (h : Triple (Settled codec (steps ++ [step])) (f ()) (fun _ => Sound codec)
      (fun _ => Sound codec) (Sound codec)) :
    Triple (Settled codec steps) (commitStep codec fate step >>= f) (fun _ => Sound codec)
      (fun _ => Sound codec) (Sound codec) := .bind (commitStep_triple hfate hfits) fun _ => h

theorem record_sound (hlawful : codec.Lawful) (h : Sound codec s) {runId : String}
    {parentId : Option String} {content : Content} {fate : Fate}
    (hsafe : Safe codec (.record runId parentId content fate) s) :
    Triple (· = s) (recordStep codec runId parentId content fate) (fun _ => Sound codec)
      (fun _ => Sound codec) (Sound codec) := by
  obtain ⟨steps, tail, hholds, hcounted⟩ := h
  obtain ⟨hends, hfate, hfits⟩ := hsafe
  unfold Fits at hfits
  rw [finishedLog_eq hlawful hholds, count_logOf hlawful, flatMap_singleton] at hfits
  refine .bind ((recover_triple hlawful hholds hcounted
    (eq_nil_of_not_endsWhole hlawful hholds hends)).weaken (fun _ h => h) (fun _ _ h => h.1)
      (fun _ _ h => h) fun _ h => h) fun _ => readSequence_bind (.lift_bind ?_ fun _ hfew => ?_)
  · exact fun _ _ hsettled => hsettled.sound
  · rw [ensure_eq_ok] at hfew
    refine commitStep_bind hfate ⟨rfl, rfl, hfew, hfits hfew⟩ (.ret fun _ hsettled => ?_)
    exact hsettled.sound

theorem ingestSteps_sound {runId : String} {transfer : List (StepRecord Content × Fate)}
    {remapped : List (String × String)} {steps : List (StepRecord Content)}
    (hreceived : ∀ received ∈ transfer, received.1.schemaVersion = stepSchema ∧ received.2.clean)
    (hfew : steps.length + transfer.length ≤ maxJournalSteps)
    (hsize : (logOf codec steps).length < maxJournalBytes → (logOf codec steps).length +
      ((renumbered runId remapped steps.length (transfer.map Prod.fst)).flatMap
        (stepLine codec)).length ≤ maxJournalBytes) :
    Triple (Settled codec steps) (ingestSteps codec runId remapped transfer : Call Session Content _)
      (fun _ => Sound codec) (fun _ => Sound codec) (Sound codec) := by
  induction transfer generalizing steps remapped with
  | nil => exact .ret fun _ hsettled => hsettled.sound
  | cons received transfer ih =>
    obtain ⟨step, fate⟩ := received
    rw [length_cons] at hfew
    rw [map_cons, renumbered, flatMap_cons, length_append] at hsize
    dsimp only at hsize
    obtain ⟨hschema, hfate⟩ := hreceived _ mem_cons_self
    refine readSequence_bind (commitStep_bind hfate ⟨hschema, rfl, by omega, fun hroom => ?_⟩ ?_)
    · have := hsize hroom
      omega
    · have hlength : (steps ++ [renumber runId remapped (steps.length + 1) step]).length =
          steps.length + 1 := by simp
      refine ih (fun received hmem => hreceived received (mem_cons_of_mem _ hmem)) ?_ ?_
      · omega
      · rw [hlength, logOf_concat, length_append]
        intro hroom
        have := hsize (by omega)
        omega

theorem ingest_sound [DecidableEq Session] (hlawful : codec.Lawful) (h : Sound codec s)
    {manifest : Manifest Session} {transfer : List (StepRecord Content × Fate)}
    (hsafe : Safe codec (.ingest manifest transfer) s) :
    Triple (· = s) (ingestTransfer codec manifest transfer) (fun _ => Sound codec)
      (fun _ => Sound codec) (Sound codec) := by
  obtain ⟨steps, tail, hholds, hcounted⟩ := id h
  obtain ⟨hends, hreceived, hfits⟩ := hsafe
  unfold Fits at hfits
  rw [finishedLog_eq hlawful hholds, count_logOf hlawful] at hfits
  refine .lift_bind (fun _ _ hs => hs ▸ h) fun _ _ => .load_bind (.lift_bind
    (fun _ _ hs => hs ▸ h) fun _ _ => ?_)
  have hmanifest : Holds codec steps tail { s with manifest := some (s.manifest.getD manifest) } :=
    hholds.congr rfl rfl
  refine .bind (R := fun _ t => t = { s with manifest := some (s.manifest.getD manifest) })
    (.write ?_) fun _ => ?_
  · rintro t rfl
    exact ⟨⟨steps, tail, hmanifest, hcounted⟩, rfl⟩
  refine .bind ((recover_triple hlawful hmanifest hcounted
    (eq_nil_of_not_endsWhole hlawful hholds hends)).weaken (fun _ h => h) (fun _ _ h => h.1)
      (fun _ _ h => h) fun _ h => h) fun _ => .each fun t hsettled => ?_
  refine .bind ((read_triple hlawful hsettled.holds fun _ => ⟨.inl rfl, hsettled.counted⟩).weaken
    (fun _ h => h) (fun _ _ h => h) (fun _ _ h => h.elim) fun _ h => h) fun found => ?_
  refine .bind (R := fun _ t => Settled codec steps t ∧ found.1.length = steps.length)
    (.write fun t' ht' => ?_) fun _ => ?_
  · obtain ⟨⟨⟨tail', hholds', -, hcount⟩, -, -⟩, hfound⟩ := ht'
    have hlength := hfound fun _ => rfl
    rw [hlength] at hcount ⊢
    have hnil : tail' = [] := by
      by_contra hne
      rw [if_neg hne] at hcount
      omega
    subst hnil
    have hsettled' : Settled codec steps { t' with sequence := some steps.length } :=
      ⟨hholds'.congr rfl rfl, fun n hn => (Option.some.inj hn).symm⟩
    exact ⟨hsettled'.sound, hsettled', rfl⟩
  · refine .lift_bind (fun _ _ hs => hs.1.sound) fun _ hfew => .each fun t' ⟨hsettled', hlength⟩ => ?_
    rw [ensure_eq_ok, hlength] at hfew
    refine (ingestSteps_sound hreceived hfew (hfits ?_)).weaken (fun _ ht => ht ▸ hsettled')
      (fun _ _ h => h) (fun _ _ h => h) fun _ h => h
    rwa [length_renumbered, length_map]

/-! ## Runs -/

theorem perform_sound [DecidableEq Session] (hlawful : codec.Lawful) (h : Sound codec s)
    {action : Action Session Content} (hsafe : Safe codec action s) :
    Triple (· = s) (perform codec action) (fun _ => Sound codec) (fun _ => Sound codec)
      (Sound codec) := by
  cases action with
  | «open» session freshRunId => exact (open_keeps hlawful session freshRunId).at h
  | record runId parentId content fate =>
    exact .bind (record_sound hlawful h hsafe) fun _ => .ret fun _ hs => hs
  | ingest manifest transfer => exact ingest_sound hlawful h hsafe
  | read => exact .bind ((read_keeps hlawful).at h) fun _ => .ret fun _ hs => hs

theorem Sound.survives (hlawful : codec.Lawful) (h : Sound codec s) : Survives codec s := by
  obtain ⟨steps, tail, hholds, -⟩ := h
  have hfew := hholds.few
  unfold Survives Durable.result
  rcases readStepsRecover_apply hlawful hholds with
    ⟨hnil, hrun⟩ | ⟨next, hne, hnext, hrun⟩ | ⟨-, hrun⟩
  · exact ⟨steps, false, by rw [hrun], hholds.numbered.sequences, by omega, hholds.appended⟩
  · obtain ⟨hschema, hsequence⟩ := hholds.whole hlawful hne hnext
    have hnumbered := hholds.numbered.concat hschema (by rw [hsequence, Nat.zero_add])
    refine ⟨steps ++ [next], false, by rw [hrun], hnumbered.sequences, ?_,
      hholds.appended.trans (sublist_append_left _ _)⟩
    rw [if_neg hne] at hfew
    simpa using hfew
  · exact ⟨steps, true, by rw [hrun], hholds.numbered.sequences, by omega, hholds.appended⟩

/-- In every safe run each read finds the steps that were appended. -/
theorem steps_survive [DecidableEq Session] (hlawful : codec.Lawful)
    (h : ((journal codec).restrict (Safe codec)).Reach s) : Survives codec s := by
  refine Sound.survives hlawful (h.invariant ?_ ?_)
  · rintro _ rfl
    exact ⟨[], [], ⟨rfl, trivial, .inl rfl, Nat.zero_le _, Nat.zero_le _, .slnil⟩,
      fun _ => ⟨.inl rfl, fun n hn => by cases hn⟩⟩
  · rintro action s t hsound ⟨hsafe, hstops⟩
    exact (perform_sound hlawful hsound hsafe).stops rfl hsound hstops

end

/-! ## A failed append -/

/-- What follows the correlation of a record. -/
def writeParent : Option String → List UInt8
  | none => ascii "\x7d"
  | some parent => ascii ",\"parent_id\":" ++ writeString parent ++ ascii "\x7d"

theorem delimited_writeParent : Delimited writeParent := by
  intro a b r r' h
  cases a with
  | none =>
    cases b with
    | none => exact ⟨rfl, append_cancel_left h⟩
    | some parent => exact absurd (congrArg head? h) (by simp [writeParent, ascii])
  | some parent =>
    cases b with
    | none => exact absurd (congrArg head? h) (by simp [writeParent, ascii])
    | some parent' =>
      simp only [writeParent, append_assoc] at h
      obtain ⟨rfl, hrest⟩ := delimited_writeString _ _ _ _ (append_cancel_left h)
      exact ⟨rfl, append_cancel_left hrest⟩

/-- The fields of a record that has no other ones. -/
def stepFields (step : StepRecord Unit) : String × Nat × String × String × Option String :=
  (step.schemaVersion, step.sequence, step.id, step.correlationId, step.parentId)

/-- These fields behind the brace. -/
def stepJson : String × Nat × String × String × Option String → List UInt8 :=
  fun p => ascii "\"schema_version\":" ++ writeString p.1 ++
    (ascii ",\"sequence\":" ++ (writeNat p.2.1 ++ ascii ",") ++
    (ascii "\"id\":" ++ writeString p.2.2.1 ++
    (ascii ",\"correlation_id\":" ++ writeString p.2.2.2.1 ++ writeParent p.2.2.2.2)))

theorem delimited_stepJson : Delimited stepJson := by
  have hstring := delimited_writeString
  have hnat : Delimited fun n => writeNat n ++ ascii "," :=
    delimited_token writeNat_injective writeNat_token (by decide)
  exact (hstring.labelled _).pair ((hnat.labelled _).pair ((hstring.labelled _).pair
    ((hstring.labelled _).pair delimited_writeParent)))

theorem isPlain_stepJson (step : StepRecord Unit) : ∀ b ∈ stepJson (stepFields step), isPlain b := by
  have hlabel := @isPlain_ascii
  have hstring := isPlain_writeString
  have hsequence : ∀ b ∈ writeNat step.sequence, isPlain b :=
    fun b hb => isPlain_of_isTokenByte (writeNat_token step.sequence b hb)
  have hparent : ∀ b ∈ writeParent step.parentId, isPlain b := by
    cases step.parentId with
    | none => exact hlabel (by decide)
    | some parent =>
      simp only [writeParent, forall_mem_append]
      exact ⟨⟨hlabel (by decide), hstring parent⟩, hlabel (by decide)⟩
  simp only [stepJson, stepFields, forall_mem_append]
  exact ⟨⟨hlabel (by decide), hstring _⟩, ⟨hlabel (by decide), hsequence, hlabel (by decide)⟩,
    ⟨hlabel (by decide), hstring _⟩, ⟨hlabel (by decide), hstring _⟩, hparent⟩

def sampleRender (step : StepRecord Unit) : List UInt8 := 0x7b :: stepJson (stepFields step)

theorem delimited_sampleRender : Delimited sampleRender := by
  intro a b r r' h
  simp only [sampleRender, cons_append, List.cons.injEq, true_and] at h
  obtain ⟨hfields, hrest⟩ := delimited_stepJson _ _ _ _ h
  refine ⟨?_, hrest⟩
  cases a
  cases b
  simpa [stepFields] using hfields

open Classical in
/-- The text form of such records. -/
noncomputable def sampleCodec : StepCodec Unit where
  render := sampleRender
  parse line := if h : ∃ step, sampleRender step = line then some h.choose else none

theorem sampleCodec_lawful : sampleCodec.Lawful where
  parse_render step := by
    have h : ∃ step', sampleRender step' = sampleRender step := ⟨step, rfl⟩
    have hchosen := delimited_sampleRender.injective h.choose_spec
    simp only [sampleCodec, dif_pos h, hchosen]
  one_line step := by
    intro hmem
    rcases List.mem_cons.mp hmem with hbrace | hmem
    · exact absurd hbrace (by decide)
    · exact absurd (isPlain_stepJson step newline hmem) (by decide)
  not_torn step tail hprefix hne := by
    refine dif_neg ?_
    rintro ⟨step', rfl⟩
    obtain ⟨rest, hrest⟩ := hprefix
    obtain ⟨rfl, -⟩ := delimited_sampleRender step' step rest []
      (by rw [append_nil]; exact hrest)
    exact hne rfl

/-- The journal is opened. -/
noncomputable def openedJournal : Store Unit Unit :=
  (perform sampleCodec (.open () "run")).after ⟨none, none, none, false, []⟩

/-- A first step is recorded. -/
noncomputable def firstRecorded (fate : Fate) : Store Unit Unit :=
  (perform sampleCodec (.record "run" none () fate)).after openedJournal

/-- A second step is recorded. -/
noncomputable def secondRecorded (first second : Fate) : Store Unit Unit :=
  (perform sampleCodec (.record "run" none () second)).after (firstRecorded first)

theorem not_endsWhole_of_finished {s : Store Unit Unit}
    (h : unfinished newline (s.log.getD []) = []) : ¬ EndsWhole sampleCodec s :=
  fun hends => hends.1 h

/-- The second step is torn: the first one survives. -/
theorem steps_survive_sample : Survives sampleCodec (secondRecorded .succeeds (.dies 9)) ∧
    (secondRecorded .succeeds (.dies 9)).transaction = true ∧
    (secondRecorded .succeeds (.dies 9)).appended = [newStep "run" 1 none ()] := by
  refine ⟨steps_survive sampleCodec_lawful ?_, by decide +kernel, by decide +kernel⟩
  have hopened : ((journal sampleCodec).restrict (Safe sampleCodec)).Reach openedJournal :=
    (Lts.Reach.init rfl).next (l := .open () "run") ⟨trivial, stops_after _ _⟩
  have hfirst : ((journal sampleCodec).restrict (Safe sampleCodec)).Reach
      (firstRecorded .succeeds) := by
    refine hopened.next (l := .record "run" none () .succeeds) ⟨⟨?_, rfl, ?_⟩, stops_after _ _⟩
    · exact not_endsWhole_of_finished (by decide)
    · exact fun _ _ => by decide +kernel
  refine hfirst.next (l := .record "run" none () (.dies 9)) ⟨⟨?_, rfl, ?_⟩, stops_after _ _⟩
  · exact not_endsWhole_of_finished (by decide)
  · exact fun _ _ => by decide +kernel

/-- The line of the first step is written, and the call returns an error: the next step gets its
number again, and no read succeeds any more. -/
theorem failed_append_corrupts : ¬ ∀ (Session Content : Type) [DecidableEq Session]
    (codec : StepCodec Content), codec.Lawful → ∀ s : Store Session Content,
      (journal codec).Reach s → Survives codec s := by
  intro hclaim
  have hreach : (journal sampleCodec).Reach (secondRecorded (.fails 200) .succeeds) := by
    refine Lts.Reach.next (l := Action.record "run" none () .succeeds) ?_ (stops_after _ _)
    refine Lts.Reach.next (l := Action.record "run" none () (.fails 200)) ?_ (stops_after _ _)
    exact Lts.Reach.next (l := Action.open () "run") (Lts.Reach.init rfl) (stops_after _ _)
  obtain ⟨steps, recovered, hread, -⟩ := hclaim Unit Unit sampleCodec sampleCodec_lawful _ hreach
  have hlog : (secondRecorded (.fails 200) .succeeds).log =
      some (logOf sampleCodec [newStep "run" 1 none (), newStep "run" 1 none ()]) := by
    decide +kernel
  have hagain : nextStep sampleCodec [newStep "run" 1 none ()]
      (sampleCodec.render (newStep "run" 1 none ())) = none := by
    rw [nextStep, sampleCodec_lawful.parse_render]
    rfl
  have hscan : scan sampleCodec [] ((logOf sampleCodec
      [newStep "run" 1 none (), newStep "run" 1 none ()]).splitOn newline) = none := by
    have hsplit : (logOf sampleCodec [newStep "run" 1 none (), newStep "run" 1 none ()]).splitOn
        newline = [sampleCodec.render (newStep "run" 1 none ()),
          sampleCodec.render (newStep "run" 1 none ()), []] := by decide
    rw [hsplit, scan_cons, nextStep_render sampleCodec_lawful rfl rfl, Option.bind_some,
      List.nil_append, scan_cons, hagain]
    rfl
  rw [readStepsRecover_of_scan_none hlog (by decide +kernel) hscan] at hread
  cases hread

end NilsCli.StepJournal
