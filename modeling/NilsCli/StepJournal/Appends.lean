import NilsCli.StepJournal.Recovery

/-!
# The marker of an append

Without a marker the count of the steps is right and no beginning of a record is left in the log
(`Sound`): this is what the marker is for.
-/

namespace NilsCli.StepJournal

open Lib Durable List

section
variable {Session Content : Type} {codec : StepCodec Content}
  {steps : List (StepRecord Content)} {step : StepRecord Content} {tail : List UInt8}
  {s : Store Session Content} {fate : Fate}

/-! ## The count -/

def Counted (codec : StepCodec Content) (steps : List (StepRecord Content)) (tail : List UInt8)
    (s : Store Session Content) : Prop :=
  Whole codec tail ∧
    ∀ n, s.sequence = some n → n = steps.length + (if tail = [] then 0 else 1)

/-- Without a marker the steps are counted. -/
def Sound (codec : StepCodec Content) (s : Store Session Content) : Prop :=
  ∃ steps tail, Holds codec steps tail s ∧ (s.transaction = false → Counted codec steps tail s)

/-- Just the steps are in the log, and counted. -/
structure Settled (codec : StepCodec Content) (steps : List (StepRecord Content))
    (s : Store Session Content) : Prop where
  holds : Holds codec steps [] s
  counted : ∀ n, s.sequence = some n → n = steps.length

theorem Settled.sound (h : Settled codec steps s) : Sound codec s :=
  ⟨steps, [], h.holds, fun _ => ⟨.inl rfl, fun n hn => h.counted n hn⟩⟩

theorem Holds.sound (h : Holds codec steps tail s) (htransaction : s.transaction = true) :
    Sound codec s :=
  ⟨steps, tail, h, fun hnone => by rw [htransaction] at hnone; cases hnone⟩

/-! ## Reading -/

/-- What a read leaves: no beginning of a record, and as many steps as it has found. -/
structure ReadOff (codec : StepCodec Content) (steps : List (StepRecord Content))
    (before : Store Session Content) (count : Nat) (s : Store Session Content) : Prop where
  holds : ∃ tail, Holds codec steps tail s ∧ Whole codec tail ∧
    count = steps.length + (if tail = [] then 0 else 1)
  sound : Sound codec s
  transaction : s.transaction = before.transaction

theorem read_triple (hlawful : codec.Lawful) (h : Holds codec steps tail s)
    (hcounted : s.transaction = false → Counted codec steps tail s) :
    Triple (· = s) (readStepsRecover codec)
      (fun found t => ReadOff codec steps s found.1.length t ∧
        ((Whole codec tail → tail = []) → found.1.length = steps.length))
      (fun _ _ => False) (Sound codec) := by
  have hsound : Sound codec s := ⟨steps, tail, h, hcounted⟩
  rcases readStepsRecover_apply hlawful h with ⟨hnil, hrun⟩ | ⟨next, hne, hnext, hrun⟩ | ⟨hnot, hrun⟩
  · refine .of_run hrun (fun t ht => by cases ht) ⟨⟨⟨tail, h, .inl hnil, ?_⟩, hsound, rfl⟩,
      fun _ => rfl⟩
    rw [if_pos hnil]
    rfl
  · refine .of_run hrun (fun t ht => by cases ht) ⟨⟨⟨tail, h, .inr ⟨next, hnext⟩, ?_⟩, hsound, rfl⟩,
      fun hclear => absurd (hclear (.inr ⟨next, hnext⟩)) hne⟩
    rw [if_neg hne]
    exact length_append
  · have htransaction : s.transaction = true := by
      cases htransaction : s.transaction with
      | true => rfl
      | false => exact absurd (hcounted htransaction).1 hnot
    have hcut : Sound codec (cut codec steps s) := h.cut.sound htransaction
    refine .of_run hrun (fun t ht => ?_) ⟨⟨⟨[], h.cut, .inl rfl, rfl⟩, hcut, rfl⟩,
      fun _ => rfl⟩
    rw [List.mem_singleton.mp ht]
    exact hcut

theorem read_keeps (hlawful : codec.Lawful) :
    Keeps (Sound codec) (readStepsRecover codec : Call Session Content _) :=
  .each fun _ ⟨_, _, hholds, hcounted⟩ => (read_triple hlawful hholds hcounted).weaken
    (fun _ h => h) (fun _ _ h => h.1.sound) (fun _ _ h => h.elim) fun _ h => h

theorem settle_triple {before : Store Session Content} {count : Nat} :
    Triple (ReadOff codec steps before count)
      (writeSequence count >>= fun _ => removeSequenceTransaction : Call Session Content Unit)
      (fun _ s => Sound codec s ∧ s.transaction = false ∧
        (count = steps.length → Settled codec steps s))
      (fun _ _ => False) (Sound codec) := by
  have hkept : ∀ s s' : Store Session Content, ReadOff codec steps before count s →
      s'.log = s.log → s'.appended = s.appended → s'.sequence = some count →
        Sound codec s' ∧ (count = steps.length → Settled codec steps s') := by
    rintro s s' ⟨⟨tail, hholds, hwhole, hcount⟩, -, -⟩ hlog happended hsequence
    have hholds' : Holds codec steps tail s' := hholds.congr (by rw [hlog]) happended
    refine ⟨⟨steps, tail, hholds', fun _ => ⟨hwhole, fun n hn => ?_⟩⟩, fun hsettled => ?_⟩
    · rw [hsequence] at hn
      cases hn
      exact hcount
    · have hnil : tail = [] := by
        by_contra hne
        rw [if_neg hne] at hcount
        omega
      subst hnil
      refine ⟨hholds', fun n hn => ?_⟩
      rw [hsequence] at hn
      cases hn
      exact hsettled
  refine .bind (R := fun _ t => ∃ s, ReadOff codec steps before count s ∧ t.log = s.log ∧
    t.appended = s.appended ∧ t.sequence = some count) (.write fun s hs => ?_)
      fun _ => .write fun t ht => ?_
  · exact ⟨(hkept s { s with sequence := some count } hs rfl rfl rfl).1, s, hs, rfl, rfl, rfl⟩
  · obtain ⟨s, hs, hlog, happended, hsequence⟩ := ht
    obtain ⟨hsound, hsettled⟩ := hkept s { t with transaction := false } hs hlog happended hsequence
    exact ⟨hsound, hsound, rfl, hsettled⟩

theorem open_keeps [DecidableEq Session] (hlawful : codec.Lawful) (session : Session)
    (freshRunId : String) : Keeps (Sound codec) (openWithDigest codec session freshRunId) := by
  have hmanifest : ∀ manifest, Keeps (Sound codec)
      (Durable.write fun s => { s with manifest := manifest } : Call Session Content Unit) :=
    fun manifest => .write fun s ⟨steps, tail, hholds, hcounted⟩ =>
      ⟨steps, tail, hholds.congr rfl rfl, hcounted⟩
  refine .load_bind fun s hs => Keeps.at (.lift_bind fun _ _ => .bind (hmanifest _) fun _ => ?_) hs
  refine .each fun s ⟨steps, tail, hholds, hcounted⟩ => ?_
  refine .bind (read_triple hlawful hholds hcounted |>.weaken (fun _ h => h) (fun _ _ h => h.1)
    (fun _ _ h => h.elim) fun _ h => h) fun found => ?_
  exact settle_triple.weaken (fun _ h => h) (fun _ _ h => h.1) (fun _ _ h => h.elim) fun _ h => h

theorem recover_triple (hlawful : codec.Lawful) (h : Holds codec steps tail s)
    (hcounted : s.transaction = false → Counted codec steps tail s)
    (hclear : Whole codec tail → tail = []) :
    Triple (· = s) (recoverSequenceTransaction codec)
      (fun _ t => Settled codec steps t ∧ t.transaction = false) (fun _ => Sound codec)
      (Sound codec) := by
  refine .load_bind ?_
  cases hmarked : s.transaction with
  | false =>
    rw [if_neg Bool.false_ne_true]
    refine .ret ?_
    rintro t rfl
    obtain ⟨hwhole, hcount⟩ := hcounted hmarked
    obtain rfl := hclear hwhole
    exact ⟨⟨h, hcount⟩, hmarked⟩
  | true =>
    rw [if_pos rfl]
    refine .bind (read_triple hlawful h hcounted |>.weaken (fun _ h => h) (fun _ _ h => h)
      (fun _ _ h => h.elim) fun _ h => h) fun found => .each fun t ht => ?_
    refine settle_triple.weaken (fun t' ht' => ht' ▸ ht.1) (fun _ t' ht' => ?_)
      (fun _ _ h => h.elim) fun _ h => h
    exact ⟨ht'.2.2 (ht.2 hclear), ht'.2.1⟩

/-! ## Appending -/

def Fate.clean : Fate → Bool
  | .succeeds | .dies _ => true
  | .fails kept => kept = 0

structure Fitting (codec : StepCodec Content) (steps : List (StepRecord Content))
    (step : StepRecord Content) : Prop where
  schema : step.schemaVersion = stepSchema
  sequence : step.sequence = steps.length + 1
  few : steps.length < maxJournalSteps
  size : (logOf codec steps).length < maxJournalBytes →
    (logOf codec steps).length + (stepLine codec step).length ≤ maxJournalBytes

theorem Holds.push (h : Holds codec steps [] s) (hfits : Fitting codec steps step)
    (hroom : (logOf codec steps).length < maxJournalBytes)
    {appended : List (StepRecord Content)} (happended : appended.Sublist (steps ++ [step])) :
    Holds codec (steps ++ [step]) []
      { s with log := some (s.log.getD [] ++ stepLine codec step), appended := appended } where
  log := by rw [Option.getD_some, h.log, logOf_concat, append_nil, append_nil]
  numbered := h.numbered.concat hfits.schema (by rw [hfits.sequence, Nat.zero_add])
  begun := .inl rfl
  few := by
    have := hfits.few
    simp only [length_append, length_singleton, if_true]
    omega
  size := by
    have := hfits.size hroom
    rw [Option.getD_some, h.log, append_nil, length_append]
    exact this
  appended := happended

theorem Holds.push_take (h : Holds codec steps [] s) (hfits : Fitting codec steps step)
    (hroom : (logOf codec steps).length < maxJournalBytes) (kept : Nat) :
    ∃ steps' tail', Holds codec steps' tail'
      { s with log := some (s.log.getD [] ++ (stepLine codec step).take kept) } := by
  by_cases hkept : kept ≤ (codec.render step).length
  · refine ⟨steps, (codec.render step).take kept, ?_⟩
    have htake : (stepLine codec step).take kept = (codec.render step).take kept :=
      take_append_of_le_length hkept
    rw [htake]
    exact {
      log := by rw [Option.getD_some, h.log, append_nil]
      numbered := h.numbered
      begun := .inr ⟨step, hfits.schema, hfits.sequence, take_prefix _ _⟩
      few := by
        have := hfits.few
        split
        · omega
        · omega
      size := by
        have hsize := hfits.size hroom
        have hline : (stepLine codec step).length = (codec.render step).length + 1 := by
          simp [stepLine]
        rw [Option.getD_some, h.log, append_nil, length_append, length_take]
        omega
      appended := h.appended }
  · refine ⟨steps ++ [step], [], ?_⟩
    have htake : (stepLine codec step).take kept = stepLine codec step := by
      refine take_of_length_le ?_
      simp only [stepLine, length_append, length_singleton]
      omega
    rw [htake]
    exact h.push hfits hroom (h.appended.trans (sublist_append_left _ _))

/-- The steps are counted, and the marker is set. -/
def Marked (codec : StepCodec Content) (steps : List (StepRecord Content))
    (s : Store Session Content) : Prop := Settled codec steps s ∧ s.transaction = true

theorem appendStep_triple (hfate : fate.clean) (hfits : Fitting codec steps step) :
    Triple (Marked codec steps) (appendStep codec fate step : Call Session Content Unit)
      (fun _ s => Holds codec (steps ++ [step]) [] s ∧ s.transaction = true)
      (fun _ s => Sound codec s ∧ ((∃ kept, fate = .dies kept) ∨ Settled codec steps s))
      (Sound codec) := by
  refine .each fun s ⟨hsettled, hmarked⟩ => .load_bind (.lift_bind ?_ fun _ hroom => ?_)
  · rintro e t rfl
    exact ⟨hsettled.sound, .inr hsettled⟩
  · rw [ensure_eq_ok, hsettled.holds.log, append_nil] at hroom
    have htorn : ∀ kept, Sound codec
        { s with log := some (s.log.getD [] ++ (stepLine codec step).take kept) } := by
      intro kept
      obtain ⟨steps', tail', hholds⟩ := hsettled.holds.push_take hfits hroom kept
      exact hholds.sound hmarked
    cases fate with
    | succeeds =>
      refine .write ?_
      rintro t rfl
      have hholds := hsettled.holds.push hfits hroom
        (hsettled.holds.appended.append (List.Sublist.refl [step]))
      exact ⟨hholds.sound hmarked, hholds, hmarked⟩
    | dies kept =>
      refine .bind (R := fun _ => Sound codec) (.write ?_) fun _ => .lift fun t ht => ?_
      · rintro t rfl
        exact ⟨htorn kept, htorn kept⟩
      · exact ⟨ht, .inl ⟨kept, rfl⟩⟩
    | fails kept =>
      obtain rfl : kept = 0 := by simpa [Fate.clean] using hfate
      refine .bind (R := fun _ => Settled codec steps) (.write ?_) fun _ => .lift fun t ht => ?_
      · rintro t rfl
        have hholds : Holds codec steps []
            { t with log := some (t.log.getD [] ++ (stepLine codec step).take 0) } := by
          refine hsettled.holds.congr ?_ rfl
          simp
        have hsettled' : Settled codec steps
            { t with log := some (t.log.getD [] ++ (stepLine codec step).take 0) } :=
          ⟨hholds, hsettled.counted⟩
        exact ⟨hsettled'.sound, hsettled'⟩
      · exact ⟨ht.sound, .inr ht⟩

theorem commitStep_triple (hfate : fate.clean) (hfits : Fitting codec steps step) :
    Triple (Settled codec steps) (commitStep codec fate step : Call Session Content Unit)
      (fun _ => Settled codec (steps ++ [step])) (fun _ => Sound codec) (Sound codec) := by
  refine .bind (R := fun _ => Marked codec steps) (.write fun s hs => ?_) fun _ => ?_
  · have hsettled : Settled codec steps { s with transaction := true } :=
      ⟨hs.holds.congr rfl rfl, hs.counted⟩
    exact ⟨hsettled.sound, hsettled, rfl⟩
  · refine .bind (.cleaning (appendStep_triple hfate hfits) ?_) fun _ => ?_
    · rintro e s ⟨hsound, hdies | hsettled⟩
      · obtain ⟨kept, rfl⟩ := hdies
        exact ⟨hsound, hsound⟩
      · have hcleared : Settled codec steps { s with transaction := false } :=
          ⟨hsettled.holds.congr rfl rfl, hsettled.counted⟩
        cases fate with
        | dies kept => exact ⟨hsound, hsound⟩
        | succeeds => exact ⟨hcleared.sound, hcleared.sound⟩
        | fails kept => exact ⟨hcleared.sound, hcleared.sound⟩
    · have hcounted : ∀ s : Store Session Content, s.sequence = some step.sequence →
          ∀ n, s.sequence = some n → n = (steps ++ [step]).length := by
        intro s hs n hn
        rw [hs] at hn
        cases hn
        rw [hfits.sequence, length_append, length_singleton]
      refine .bind (R := fun _ s => Holds codec (steps ++ [step]) [] s ∧
        s.sequence = some step.sequence) (.write fun s hs => ?_) fun _ => .write fun s hs => ?_
      · have hholds : Holds codec (steps ++ [step]) [] { s with sequence := some step.sequence } :=
          hs.1.congr rfl rfl
        exact ⟨hholds.sound hs.2, hholds, rfl⟩
      · have hsettled : Settled codec (steps ++ [step]) { s with transaction := false } :=
          ⟨hs.1.congr rfl rfl, hcounted _ hs.2⟩
        exact ⟨hsettled.sound, hsettled⟩

end

end NilsCli.StepJournal
