import Mathlib.Data.List.Infix
import NilsCli.StepJournal.Calls

/-!
# What a read finds

The log holds numbered steps, and behind them nothing, the beginning of one more record, or the
whole of it without its newline (`Holds`).
-/

namespace NilsCli.StepJournal

open Lib List

section
variable {Session Content : Type} {codec : StepCodec Content}
  {steps more : List (StepRecord Content)} {step next : StepRecord Content} {tail : List UInt8}
  {s s' : Store Session Content} {n : Nat}

/-! ## The log -/

def Numbered : Nat → List (StepRecord Content) → Prop
  | _, [] => True
  | n, step :: steps =>
    (step.schemaVersion = stepSchema ∧ step.sequence = n + 1) ∧ Numbered (n + 1) steps

theorem Numbered.concat (h : Numbered n steps) (hschema : step.schemaVersion = stepSchema)
    (hsequence : step.sequence = n + steps.length + 1) : Numbered n (steps ++ [step]) := by
  induction steps generalizing n with
  | nil => exact ⟨⟨hschema, hsequence⟩, trivial⟩
  | cons first steps ih =>
    refine ⟨h.1, ih h.2 ?_⟩
    rw [hsequence, length_cons]
    omega

theorem Numbered.sequences (h : Numbered n steps) :
    steps.map (·.sequence) = range' (n + 1) steps.length := by
  induction steps generalizing n with
  | nil => rfl
  | cons first steps ih => rw [map_cons, h.1.2, ih h.2, length_cons, range'_succ]

/-- The bytes of the steps, a line each. -/
def logOf (codec : StepCodec Content) (steps : List (StepRecord Content)) : List UInt8 :=
  terminated newline (steps.map codec.render)

theorem logOf_concat : logOf codec (steps ++ [step]) = logOf codec steps ++ stepLine codec step := by
  simp [logOf, terminated_append, terminated_singleton, stepLine]

structure Holds (codec : StepCodec Content) (steps : List (StepRecord Content))
    (tail : List UInt8) (s : Store Session Content) : Prop where
  log : s.log.getD [] = logOf codec steps ++ tail
  numbered : Numbered 0 steps
  begun : tail = [] ∨ ∃ next : StepRecord Content, next.schemaVersion = stepSchema ∧
    next.sequence = steps.length + 1 ∧ tail <+: codec.render next
  few : steps.length + (if tail = [] then 0 else 1) ≤ maxJournalSteps
  size : (s.log.getD []).length ≤ maxJournalBytes
  appended : s.appended.Sublist steps

theorem Holds.congr (h : Holds codec steps tail s) (hlog : s'.log.getD [] = s.log.getD [])
    (happended : s'.appended = s.appended) : Holds codec steps tail s' where
  log := hlog ▸ h.log
  numbered := h.numbered
  begun := h.begun
  few := h.few
  size := hlog ▸ h.size
  appended := happended ▸ h.appended

def Whole (codec : StepCodec Content) (tail : List UInt8) : Prop :=
  tail = [] ∨ ∃ next, tail = codec.render next

/-! ## Reading -/

theorem nextStep_render (hlawful : codec.Lawful) (hschema : step.schemaVersion = stepSchema)
    (hsequence : step.sequence = steps.length + 1) :
    nextStep codec steps (codec.render step) = some step := by
  simp [nextStep, hlawful.parse_render, Option.filter, hschema, hsequence]

theorem scan_cons (known : List (StepRecord Content)) (line first : List UInt8)
    (rest : List (List UInt8)) :
    scan codec known (line :: first :: rest) =
      (nextStep codec known line).bind fun step => scan codec (known ++ [step]) (first :: rest) := by
  rw [scan]
  · cases nextStep codec known line <;> rfl
  · simp

theorem scan_steps (hlawful : codec.Lawful) (known : List (StepRecord Content))
    (h : Numbered known.length steps) (tail : List UInt8) :
    scan codec known (steps.map codec.render ++ [tail]) = scan codec (known ++ steps) [tail] := by
  induction steps generalizing known with
  | nil => rw [map_nil, nil_append, append_nil]
  | cons step steps ih =>
    obtain ⟨line, lines, hlines⟩ :=
      exists_cons_of_ne_nil (append_ne_nil_of_right_ne_nil (steps.map codec.render)
        (cons_ne_nil tail []))
    have hrest := ih (known ++ [step]) (by simpa using h.2)
    rw [hlines] at hrest
    rw [map_cons, cons_append, hlines, scan_cons, nextStep_render hlawful h.1.1 h.1.2,
      Option.bind_some, hrest, append_assoc, singleton_append]

theorem newline_notMem_tail (hlawful : codec.Lawful) (h : Holds codec steps tail s) :
    newline ∉ tail := by
  rcases h.begun with rfl | ⟨next, -, -, hprefix⟩
  · exact not_mem_nil
  · exact fun hmem => hlawful.one_line next (List.IsPrefix.subset hprefix hmem)

theorem splitOn_log (hlawful : codec.Lawful) (h : Holds codec steps tail s) :
    (logOf codec steps ++ tail).splitOn newline = steps.map codec.render ++ [tail] := by
  refine splitOn_terminated_append (fun line hline => ?_) (newline_notMem_tail hlawful h)
  obtain ⟨step, -, rfl⟩ := List.mem_map.mp hline
  exact hlawful.one_line step

/-- The store whose log holds just the steps. -/
def cut (codec : StepCodec Content) (steps : List (StepRecord Content))
    (s : Store Session Content) : Store Session Content :=
  { s with log := some (logOf codec steps) }

theorem Holds.cut (h : Holds codec steps tail s) : Holds codec steps [] (cut codec steps s) where
  log := by simp [StepJournal.cut]
  numbered := h.numbered
  begun := .inl rfl
  few := by
    have := h.few
    simp only [if_true]
    omega
  size := by
    have := h.size
    rw [h.log, length_append] at this
    simp only [StepJournal.cut, Option.getD_some]
    omega
  appended := h.appended

theorem readStepsRecover_of_scan {raw : List UInt8}
    {found : List (StepRecord Content) × List UInt8} (hlog : s.log = some raw)
    (hsize : raw.length ≤ maxJournalBytes) (hscan : scan codec [] (raw.splitOn newline) = some found) :
    readStepsRecover codec s =
      if found.2 = [] then ([], .ok (found.1, false))
      else ([{ s with log := some (raw.take (raw.length - found.2.length)) }],
        .ok (found.1, true)) := by
  unfold readStepsRecover
  rw [Durable.load_bind_apply, hlog]
  dsimp only
  have hensure : ensure (raw.length ≤ maxJournalBytes)
      "journal step log exceeded its size bound" = .ok () := ensure_eq_ok.mpr hsize
  have hfound : orErr (scan codec [] (raw.splitOn newline))
      "journal contains a malformed or out-of-sequence complete record" = .ok found :=
    orErr_eq_ok.mpr hscan
  rw [hensure, hfound, Durable.bind_apply_of_eq (s := s) (a := ()) rfl,
    Durable.bind_apply_of_eq (s := s) (a := found) rfl]
  split
  · rfl
  · rfl

theorem readStepsRecover_of_scan_none {raw : List UInt8} (hlog : s.log = some raw)
    (hsize : raw.length ≤ maxJournalBytes) (hscan : scan codec [] (raw.splitOn newline) = none) :
    (readStepsRecover codec).result s =
      .error "journal contains a malformed or out-of-sequence complete record" := by
  unfold readStepsRecover Durable.result
  rw [Durable.load_bind_apply, hlog]
  dsimp only
  have hensure : ensure (raw.length ≤ maxJournalBytes)
      "journal step log exceeded its size bound" = .ok () := ensure_eq_ok.mpr hsize
  rw [hensure, hscan, Durable.bind_apply_of_eq (s := s) (a := ()) rfl]
  rfl

theorem Holds.whole (hlawful : codec.Lawful) (h : Holds codec steps tail s) (hne : tail ≠ [])
    (hwhole : tail = codec.render next) :
    next.schemaVersion = stepSchema ∧ next.sequence = steps.length + 1 := by
  rcases h.begun with hnil | ⟨next', hschema, hsequence, hprefix⟩
  · exact absurd hnil hne
  · have hparse := hlawful.parse_render next
    rw [← hwhole] at hparse
    by_cases hsame : tail = codec.render next'
    · rw [hsame, hlawful.parse_render] at hparse
      cases hparse
      exact ⟨hschema, hsequence⟩
    · rw [hlawful.not_torn next' tail hprefix hsame] at hparse
      cases hparse

theorem Holds.parse_eq_none (hlawful : codec.Lawful) (h : Holds codec steps tail s)
    (hnot : ¬ Whole codec tail) : codec.parse tail = none := by
  rcases h.begun with hnil | ⟨next', -, -, hprefix⟩
  · exact absurd (.inl hnil) hnot
  · exact hlawful.not_torn next' tail hprefix fun hsame => hnot (.inr ⟨next', hsame⟩)

theorem readStepsRecover_apply (hlawful : codec.Lawful) (h : Holds codec steps tail s) :
    tail = [] ∧ readStepsRecover codec s = ([], .ok (steps, false)) ∨
      (∃ next, tail ≠ [] ∧ tail = codec.render next ∧
        readStepsRecover codec s = ([], .ok (steps ++ [next], false))) ∨
      ¬ Whole codec tail ∧
        readStepsRecover codec s = ([StepJournal.cut codec steps s], .ok (steps, true)) := by
  cases hlog : s.log with
  | none =>
    have hnil := h.log
    rw [hlog, Option.getD_none, eq_comm, append_eq_nil_iff] at hnil
    refine .inl ⟨hnil.2, ?_⟩
    have hsteps : steps = [] := by
      rcases eq_nil_or_concat steps with hsteps | ⟨init, last, rfl⟩
      · exact hsteps
      · rw [concat_eq_append, logOf_concat] at hnil
        simp [stepLine] at hnil
    unfold readStepsRecover
    rw [Durable.load_bind_apply, hlog, hsteps]
    rfl
  | some raw =>
    have hraw : raw = logOf codec steps ++ tail := by
      have := h.log
      rwa [hlog, Option.getD_some] at this
    have hsize : raw.length ≤ maxJournalBytes := by
      have := h.size
      rwa [hlog, Option.getD_some] at this
    have hscan : scan codec [] (raw.splitOn newline) = scan codec steps [tail] := by
      rw [hraw, splitOn_log hlawful h, scan_steps hlawful [] h.numbered, nil_append]
    by_cases hnil : tail = []
    · refine .inl ⟨hnil, ?_⟩
      rw [readStepsRecover_of_scan hlog hsize (hscan.trans (by rw [scan, if_pos hnil]))]
      rfl
    · by_cases hwhole : Whole codec tail
      · obtain ⟨next, hnext⟩ := hwhole.resolve_left hnil
        obtain ⟨hschema, hsequence⟩ := h.whole hlawful hnil hnext
        refine .inr (.inl ⟨next, hnil, hnext, ?_⟩)
        have hfound : scan codec steps [tail] = some (steps ++ [next], []) := by
          rw [scan, if_neg hnil, hnext, nextStep_render hlawful hschema hsequence]
        rw [readStepsRecover_of_scan hlog hsize (hscan.trans hfound)]
        rfl
      · refine .inr (.inr ⟨hwhole, ?_⟩)
        have hfound : scan codec steps [tail] = some (steps, tail) := by
          rw [scan, if_neg hnil, nextStep, h.parse_eq_none hlawful hwhole]
          rfl
        rw [readStepsRecover_of_scan hlog hsize (hscan.trans hfound), if_neg hnil, hraw,
          length_append, Nat.add_sub_cancel, take_left]
        rfl

end

end NilsCli.StepJournal
