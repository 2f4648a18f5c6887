import NilsCli.FinishLine.System

/-!
# Moments of a run

What every change keeps, every run of the finish line keeps: a property of the files and of all
earlier moments that no change breaks holds in every world that is reached.
-/

namespace NilsCli.FinishLine

open Lib

variable {operation : AcceptanceOperation} {call : Call} {w' : World} {main : State}
  {acceptance : AcceptanceState}

variable {key : String} {J : Files → List Files → Prop} {w : World}

variable {host : Host} {strict : Prop}

theorem Change.nextSequence_le {files files' : Files} (h : Change strict files files') :
    files.main.nextSequence ≤ files'.main.nextSequence := by
  cases h with
  | shrink h => exact h.nextSequence
  | edit _ _ _ hadds => exact hadds.fresh.le.trans hadds.nextSequence
  | shell _ _ _ hadds => exact hadds.fresh.le.trans hadds.nextSequence
  | validation _ _ _ hadds => exact hadds.fresh.le.trans hadds.nextSequence
  | complete _ _ _ hsequence => exact hsequence.ge
  | accept | reserveMutation | admitMutation | admitValidator | completion => exact le_rfl

theorem Change.acceptanceSequence_le {files files' : Files} (h : Change strict files files') :
    files.acceptance.nextSequence ≤ files'.acceptance.nextSequence := by
  cases h with
  | accept h => exact h.nextSequence
  | reserveMutation _ _ hadds => exact hadds.fresh.le.trans hadds.nextSequence
  | admitMutation _ _ _ hsequence => exact hsequence
  | admitValidator _ hadds => exact hadds.fresh.le.trans hadds.nextSequence
  | completion _ hadds => exact hadds.fresh.le.trans hadds.nextSequence
  | shrink | edit | shell | validation | complete => exact le_rfl

theorem Change.generation_le {files files' : Files} (h : Change strict files files') :
    files.main.generation ≤ files'.main.generation := by
  cases h with
  | shrink h => exact h.generation
  | edit _ _ hgeneration => exact hgeneration ▸ Nat.le_succ _
  | shell _ _ hgeneration => exact hgeneration ▸ Nat.le_succ _
  | validation _ _ hgeneration => exact hgeneration.ge
  | complete _ _ hgeneration => exact hgeneration.ge
  | accept | reserveMutation | admitMutation | admitValidator | completion => exact le_rfl

/-- An operation that has not ended is as it was. -/
theorem OldOperation.open {files : Files}
    (h : OldOperation files key operation) (hterminal : operation.terminal = none) :
    files.acceptance.operations.lookup key = some operation := by
  obtain ⟨old, hold, rfl | ⟨-, -, terminal, rfl, -⟩⟩ := h
  · exact hold
  · cases hterminal

/-! ## Writes of a step -/

/-- The world after some writes. -/
def World.writes (w : World) (trace : List Files) : World := trace.foldl World.write w

@[simp]
theorem World.writes_inFlight (w : World) (trace : List Files) :
    (w.writes trace).inFlight = w.inFlight := by
  induction trace generalizing w with
  | nil => rfl
  | cons files trace ih => exact ih (w.write files)

theorem World.writes_keeps (hJ : ∀ files past files', J files past → Change strict files files' →
      J files' (files :: past)) {trace : List Files}
    (hlinked : Durable.Linked (Change strict) w.files trace) (h : J w.files w.past) :
    J (w.writes trace).files (w.writes trace).past := by
  induction trace generalizing w with
  | nil => exact h
  | cons files trace ih =>
    have hkept : J (w.write files).files (w.write files).past := hJ _ _ _ h hlinked.1
    exact ih hlinked.2 hkept

theorem World.next_cases {writes : Nat} (h : w.next host call writes = some w') :
    (∀ captured ∈ call.needs, captured ∈ w.inFlight) ∧ ∃ captured,
      w' = { w.writes (((call.run host) w.files).1.take writes) with
        inFlight := w.inFlight ++ captured } ∧
      (captured = [] ∨ (call.run host).result w.files = .ok captured ∧
        ((call.run host) w.files).1.length ≤ writes) := by
  unfold World.next at h
  split at h
  · rename_i hneeds
    refine ⟨hneeds, ?_⟩
    have hwrites : (((call.run host) w.files).1.take writes).foldl World.write w =
        { w.writes (((call.run host) w.files).1.take writes) with
          inFlight := w.inFlight ++ [] } := by
      rw [List.append_nil, ← w.writes_inFlight (((call.run host) w.files).1.take writes)]
      rfl
    dsimp only at h
    split at h
    · rename_i captured hresult
      split at h
      · rename_i hlength
        refine ⟨captured, ?_, .inr ⟨hresult, hlength⟩⟩
        have hflight := w.writes_inFlight (((call.run host) w.files).1.take writes)
        unfold World.writes at hflight
        rw [hflight] at h
        exact (Option.some.inj h).symm
      · exact ⟨[], (Option.some.inj h).symm.trans hwrites, .inl rfl⟩
    · exact ⟨[], (Option.some.inj h).symm.trans hwrites, .inl rfl⟩
  · cases h

/-! ## Reservations -/

def InFlight.Known (main : State) : InFlight → Prop
  | .validation reservation => Issued .validation main reservation
  | .shell reservation => Issued .shell main reservation
  | _ => True

def World.Known (w : World) : Prop := ∀ captured ∈ w.inFlight, captured.Known w.files.main

theorem InFlight.Known.mono {captured : InFlight} {main' : State}
    (h : captured.Known main) (hnext : main.nextSequence ≤ main'.nextSequence) :
    captured.Known main' := by
  cases captured with
  | validation => exact ⟨h.1, h.2.trans hnext⟩
  | shell => exact ⟨h.1, h.2.trans hnext⟩
  | recovery | quiesce | orphan => trivial

theorem World.Known.matches (h : w.Known)
    (hneeds : ∀ captured ∈ call.needs, captured ∈ w.inFlight) : call.Matches := by
  cases call with
  | validated => exact (h _ (hneeds _ rfl)).1
  | _ => trivial

theorem discard_known {α : Type} (m : Locked α) :
    Durable.Triple (fun _ => True) (discard m)
      (fun captured files => ∀ x ∈ captured, x.Known files.main) (fun _ _ => True)
      (fun _ => True) := .bind .trivial fun _ => .ret fun _ _ x hx => by cases hx

theorem capture_known {f : Reservation → InFlight} {kind : StoredOperationKind}
    {m : Locked (Option Reservation)}
    (hf : ∀ main reservation, Issued kind main reservation → (f reservation).Known main)
    (h : Durable.Triple (fun _ => True) m
      (fun found files => ∀ reservation ∈ found, Issued kind files.main reservation)
      (fun _ _ => True) (fun _ => True)) :
    Durable.Triple (fun _ => True) (capture f m)
      (fun captured files => ∀ x ∈ captured, x.Known files.main) (fun _ _ => True)
      (fun _ => True) := by
  refine .bind h fun found => .ret fun files hfound x hx => ?_
  obtain ⟨reservation, hmem, rfl⟩ := List.mem_map.mp hx
  exact hf _ _ (hfound reservation (by simpa using hmem))

theorem Call.run_known (host : Host) (call : Call) :
    Durable.Triple (fun _ => True) (call.run host)
      (fun captured files => ∀ x ∈ captured, x.Known files.main) (fun _ _ => True)
      (fun _ => True) := by
  cases call with
  | validate => exact capture_known (fun _ _ h => h) (reserveValidation_issued _ _ _ _ _ _ _)
  | shell => exact capture_known (fun _ _ h => h) (reserveShell_issued _ _ _ _ _ _ _)
  | recover =>
    refine .bind .trivial fun found => .ret fun files _ x hx => ?_
    obtain ⟨_, -, rfl⟩ := List.mem_map.mp hx
    trivial
  | quiesce =>
    refine .bind .trivial fun found => .ret fun files _ x hx => ?_
    obtain ⟨_, -, rfl⟩ := List.mem_map.mp hx
    trivial
  | scan =>
    refine .bind .trivial fun found => .ret fun files _ x hx => ?_
    obtain ⟨_, -, rfl⟩ := List.mem_map.mp hx
    trivial
  | _ => exact discard_known _

theorem World.writes_files (w : World) (trace : List Files) :
    (w.writes trace).files = Durable.lastOf trace w.files := by
  induction trace generalizing w with
  | nil => rfl
  | cons files trace ih =>
    have hlast : Durable.lastOf (files :: trace) w.files = Durable.lastOf trace files := by
      unfold Durable.lastOf
      rw [List.getLast?_cons]
      rfl
    exact (ih (w.write files)).trans hlast.symm

/-! ## Runs -/

theorem step_keeps (hJ : ∀ files past files', J files past → Change strict files files' →
      J files' (files :: past)) {l : Call × Nat}
    (hwaits : strict → l.1.Waits w.files) (hstep : (finishLine host).step l w w')
    (hknown : w.Known) (h : J w.files w.past) : w'.Known ∧ J w'.files w'.past := by
  obtain ⟨call, writes⟩ := l
  obtain ⟨hneeds, captured, rfl, hcaptured⟩ := World.next_cases hstep
  have hlinked : Durable.Linked (Change strict) w.files (((call.run host) w.files).1.take writes) :=
    Durable.Linked.take (Call.run_writes call (hknown.matches hneeds) hwaits) writes
  refine ⟨fun x hx => ?_, World.writes_keeps hJ hlinked h⟩
  have hnext : w.files.main.nextSequence ≤
      (w.writes (((call.run host) w.files).1.take writes)).files.main.nextSequence :=
    World.writes_keeps (J := fun files _ => w.files.main.nextSequence ≤ files.main.nextSequence)
      (fun _ _ _ hle hchange => hle.trans (Change.nextSequence_le hchange)) hlinked le_rfl
  rcases List.mem_append.mp hx with hold | hnew
  · exact (hknown x hold).mono hnext
  · rcases hcaptured with rfl | ⟨hresult, hlength⟩
    · cases hnew
    · have hends := (Call.run_known host call).ends (s := w.files) trivial
      rw [hresult] at hends
      rw [List.take_of_length_le hlength, World.writes_files]
      exact hends x hnew

def orderlyFinishLine (host : Host) : Lts :=
  (finishLine host).restrict fun l w => l.1.Waits w.files

theorem reach_keeps (hJ : ∀ files past files', J files past → Change False files files' →
      J files' (files :: past)) (h₀ : J World.start.files [])
    (h : (finishLine host).Reach w) : w.Known ∧ J w.files w.past := by
  refine Lts.Reach.invariant (S := finishLine host)
    (I := fun w => World.Known w ∧ J (World.files w) (World.past w)) ?_ ?_ h
  · rintro w rfl
    exact ⟨by rintro x ⟨⟩, h₀⟩
  · rintro l s t ⟨hknown, hs⟩ hstep
    exact step_keeps hJ (fun h => h.elim) hstep hknown hs

theorem orderly_reach_keeps (hJ : ∀ files past files', J files past → Change True files files' →
      J files' (files :: past)) (h₀ : J World.start.files [])
    (h : (orderlyFinishLine host).Reach w) : J w.files w.past := by
  refine (Lts.Reach.invariant (S := orderlyFinishLine host)
    (I := fun w => World.Known w ∧ J (World.files w) (World.past w)) ?_ ?_ h).2
  · rintro w rfl
    exact ⟨by rintro x ⟨⟩, h₀⟩
  · rintro l s t ⟨hknown, hs⟩ ⟨hwaits, hstep⟩
    exact step_keeps hJ (fun _ => hwaits) hstep hknown hs

/-! ## Sequences -/

/-- Every sequence in the files has been taken. -/
structure Bounded (files : Files) : Prop where
  operations : ∀ key operation, files.main.operations.lookup key = some operation →
    operation.sequence ≤ files.main.nextSequence
  targets : ∀ key digest target, files.main.target key digest = some target →
    target.attemptSequence ≤ files.main.nextSequence
  attempts : ∀ key operation, files.acceptance.operations.lookup key = some operation →
    operation.sequence ≤ files.acceptance.nextSequence
  evidence : ∀ key session, files.acceptance.sessions.lookup key = some session →
    ∀ requirement evidence, session.evidence.lookup requirement = some evidence →
      evidence.attemptSequence ≤ files.acceptance.nextSequence

section
variable {files files' : Files} {succeeds : String → AcceptanceOperation → Prop}

section

variable (h : Bounded files)

include h

theorem Bounded.of_adds {record : OperationRecord}
    (hadds : main.Adds files.main key record)
    (htargets : ∀ key digest target, main.target key digest = some target →
      target.attemptSequence ≤ main.nextSequence) : Bounded { files with main } := by
  refine ⟨fun key' operation hlookup => ?_, htargets, h.attempts, h.evidence⟩
  rcases hadds.operations key' operation hlookup with ⟨-, rfl⟩ | hold
  · exact hadds.nextSequence
  · exact (h.operations key' operation hold).trans (hadds.fresh.le.trans hadds.nextSequence)

theorem Bounded.oldSession {session : AcceptanceSession}
    (hold : OldSession files succeeds key session) (requirement : String)
    (evidence : RequirementEvidence)
    (hevidence : session.evidence.lookup requirement = some evidence) :
    evidence.attemptSequence ≤ files.acceptance.nextSequence := by
  rcases hold with hempty | ⟨old, hlookup, -, -, hsub⟩
  · rw [hempty] at hevidence
    cases hevidence
  · rcases hsub requirement evidence hevidence with hkept | ⟨first, hfirst, hseen⟩
    · exact h.evidence key old hlookup requirement evidence hkept
    · obtain ⟨_, _, _, _, _, _, _, _, _, _, _, _, rfl, _⟩ := hseen
      exact h.evidence key old hlookup requirement first hfirst

theorem Bounded.oldOperation (hold : OldOperation files key operation) :
    operation.sequence ≤ files.acceptance.nextSequence := by
  obtain ⟨old, hlookup, rfl | ⟨-, -, _, rfl, -⟩⟩ := hold
  · exact h.attempts key operation hlookup
  · have hbound := h.attempts key old hlookup
    exact hbound

theorem Bounded.of_acceptance
    (hnext : files.acceptance.nextSequence ≤ acceptance.nextSequence)
    (hattempts : ∀ key operation, acceptance.operations.lookup key = some operation →
      operation.sequence ≤ acceptance.nextSequence)
    (hsessions : ∀ key session, acceptance.sessions.lookup key = some session →
      OldSession files succeeds key session) : Bounded { files with acceptance } :=
  ⟨h.operations, h.targets, hattempts, fun key session hlookup requirement evidence hevidence =>
    (h.oldSession (hsessions key session hlookup) requirement evidence hevidence).trans hnext⟩

theorem Bounded.added
    {record : AcceptanceOperation} (hadds : acceptance.Adds files key record) (key' : String)
    (operation : AcceptanceOperation)
    (hlookup : acceptance.operations.lookup key' = some operation) :
    operation.sequence ≤ acceptance.nextSequence := by
  rcases hadds.operations key' operation hlookup with ⟨-, rfl⟩ | hold
  · exact hadds.nextSequence
  · exact (h.attempts key' operation hold).trans (hadds.fresh.le.trans hadds.nextSequence)

theorem Bounded.change (hchange : Change strict files files') :
    Bounded files' := by
  have hnext := hchange.nextSequence_le
  cases hchange with
  | shrink hwithin =>
    exact ⟨fun key operation hlookup =>
        (h.operations key operation (hwithin.operations key operation hlookup)).trans hnext,
      fun key digest target htarget =>
        (h.targets key digest target (hwithin.targets key digest target htarget)).trans hnext,
      h.attempts, h.evidence⟩
  | edit _ _ _ hadds htargets =>
    exact h.of_adds hadds fun key digest target htarget =>
      (h.targets key digest target (htargets key digest target htarget)).trans hnext
  | shell _ _ _ hadds htargets =>
    exact h.of_adds hadds fun key digest target htarget =>
      (h.targets key digest target (htargets key digest target htarget)).trans hnext
  | validation _ _ _ hadds _ _ _ htargets =>
    refine h.of_adds hadds fun key digest target htarget => ?_
    rcases htargets key digest target htarget with hold | ⟨-, -, -, -, hattempt, -⟩
    · exact (h.targets key digest target hold).trans hnext
    · exact hattempt ▸ hadds.nextSequence
  | complete hrecord _ _ hsequence hoperations htargets =>
    refine ⟨fun key operation hlookup => ?_, fun key digest target htarget => ?_, h.attempts,
      h.evidence⟩
    · rcases hoperations key operation hlookup with ⟨-, rfl⟩ | ⟨-, hold⟩
      · have hbound := (h.operations _ _ hrecord).trans hnext
        exact hbound
      · exact (h.operations key operation hold).trans hnext
    · rcases htargets key digest target htarget with hold | ⟨old, hold, -, -, -, -, ⟨_, rfl⟩, -⟩
      · exact (h.targets key digest target hold).trans hnext
      · have hbound := (h.targets key digest old hold).trans hnext
        exact hbound
  | accept hwithin =>
    exact h.of_acceptance hwithin.nextSequence (fun key operation hlookup =>
      (h.oldOperation (hwithin.operations key operation hlookup)).trans hwithin.nextSequence)
      hwithin.sessions
  | reserveMutation _ _ hadds hsessions =>
    exact h.of_acceptance (hadds.fresh.le.trans hadds.nextSequence) (h.added hadds) hsessions
  | admitMutation hrecord _ _ hsequence hoperations hsessions =>
    refine h.of_acceptance hsequence (fun key operation hlookup => ?_) hsessions
    rcases hoperations key operation hlookup with ⟨-, rfl⟩ | ⟨-, hold⟩
    · have hbound := (h.attempts _ _ hrecord).trans hsequence
      exact hbound
    · exact (h.attempts key operation hold).trans hsequence
  | admitValidator _ hadds _ _ _ _ _ hsessions =>
    have hle := hadds.fresh.le.trans hadds.nextSequence
    refine ⟨h.operations, h.targets, h.added hadds,
      fun key session hlookup requirement evidence hevidence => ?_⟩
    rcases hsessions key session hlookup with hold | ⟨rfl, old, hold, -, -, -, -, hnew⟩
    · exact (h.oldSession hold requirement evidence hevidence).trans hle
    · rw [hnew] at hevidence
      rcases lookup_insert_cases hevidence with ⟨-, rfl⟩ | ⟨-, hkept⟩
      · exact hadds.nextSequence
      · exact (h.evidence _ old hold requirement evidence hkept).trans hle
  | completion _ hadds _ hsessions =>
    exact h.of_acceptance (hadds.fresh.le.trans hadds.nextSequence) (h.added hadds) hsessions

end

end

/-- Every moment is bounded by its own sequences, and no moment is ahead of the last one. -/
def PastBounded (files : Files) (past : List Files) : Prop :=
  ∀ moment ∈ files :: past, Bounded moment ∧
    moment.main.nextSequence ≤ files.main.nextSequence ∧
    moment.acceptance.nextSequence ≤ files.acceptance.nextSequence

theorem PastBounded.change {files files' : Files} {past : List Files} (h : PastBounded files past)
    (hchange : Change strict files files') : PastBounded files' (files :: past) := by
  intro moment hmem
  rcases List.mem_cons.mp hmem with rfl | hmem
  · exact ⟨(h files (by simp)).1.change hchange, le_rfl, le_rfl⟩
  · obtain ⟨hbounded, hmain, hacceptance⟩ := h moment hmem
    exact ⟨hbounded, hmain.trans hchange.nextSequence_le,
      hacceptance.trans hchange.acceptanceSequence_le⟩

theorem pastBounded_start : PastBounded World.start.files [] := by
  intro moment hmem
  rw [List.mem_singleton] at hmem
  subst hmem
  refine ⟨⟨?_, ?_, ?_, ?_⟩, le_rfl, le_rfl⟩
  · rintro key operation ⟨⟩
  · rintro key digest target ⟨⟩
  · rintro key operation ⟨⟩
  · rintro key session ⟨⟩

theorem reach_pastBounded (h : (finishLine host).Reach w) :
    PastBounded w.files w.past :=
  (reach_keeps (J := PastBounded) (fun _ _ _ h hchange => h.change hchange) pastBounded_start h).2

/-- Over any interleaving of calls and crashes the counters never fall, and no sequence that was stored
at any moment is ahead of them. -/
theorem sequences_bounded {moment : Files} (h : (finishLine host).Reach w) (hmem : moment ∈ w.moments) :
    moment.main.nextSequence ≤ w.files.main.nextSequence ∧
      moment.acceptance.nextSequence ≤ w.files.acceptance.nextSequence ∧
      (∀ key operation, moment.main.operations.lookup key = some operation →
        operation.sequence ≤ w.files.main.nextSequence) ∧
      ∀ key operation, moment.acceptance.operations.lookup key = some operation →
        operation.sequence ≤ w.files.acceptance.nextSequence := by
  obtain ⟨hbounded, hmain, hacceptance⟩ := reach_pastBounded h moment hmem
  exact ⟨hmain, hacceptance, fun _ _ hlookup => (hbounded.operations _ _ hlookup).trans hmain,
    fun _ _ hlookup => (hbounded.attempts _ _ hlookup).trans hacceptance⟩

theorem sequences_bounded_sample : World.start.files.main.nextSequence ≤
    (sampleWorld [.open, .edit, .shell]).files.main.nextSequence :=
  (sequences_bounded (sampleWorld_reach [.open, .edit, .shell] (by decide +kernel))
    (by decide +kernel)).1

end NilsCli.FinishLine
