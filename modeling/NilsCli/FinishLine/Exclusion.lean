import NilsCli.FinishLine.Moments
import Mathlib.Data.List.Chain

/-!
# Mutual exclusion

At most one shell command or mutation is under way, and none while a completion is reserved.
-/

namespace NilsCli.FinishLine

open Lib

variable {x : String ⊕ String} {key : String} {w : World}

variable {host : Host} {strict : Prop} {files files' : Files}

inductive Mutating (files : Files) : String ⊕ String → Prop
  | shell {key : String} {operation : OperationRecord}
      (h : files.main.operations.lookup key = some operation) (hkind : operation.kind = .shell)
      (hterminal : operation.terminal = none) : Mutating files (.inl key)
  | mutation {key : String} {operation : AcceptanceOperation}
      (h : files.acceptance.operations.lookup key = some operation)
      (hkind : operation.kind = .mutation) (hterminal : operation.terminal = none) :
      Mutating files (.inr key)

/-- At most one mutating operation is under way, and no completion is reserved beside it. -/
structure Exclusive (files : Files) : Prop where
  single : ∀ x y, Mutating files x → Mutating files y → x = y
  completion : ∀ x, Mutating files x → NoCompletion files.acceptance

theorem NoMutation.not_mutating (h : NoMutation files) (x : String ⊕ String) :
    ¬ Mutating files x := by
  rintro (⟨hlookup, hkind, hterminal⟩ | ⟨hlookup, hkind, hterminal⟩)
  · exact State.shellActive_eq_false.mp h.2 _ _ hlookup hkind hterminal
  · exact AcceptanceState.mutationActive_eq_false.mp h.1 _ _ hlookup hkind hterminal

/-- Nothing is under way that was not before. -/
theorem Exclusive.of_le (h : Exclusive files) (hmutating : ∀ x, Mutating files' x → Mutating files x)
    (hcompletion : NoCompletion files.acceptance → NoCompletion files'.acceptance) :
    Exclusive files' where
  single x y hx hy := h.single x y (hmutating x hx) (hmutating y hy)
  completion x hx := hcompletion (h.completion x (hmutating x hx))

theorem Mutating.of_main {main : State}
    (h : ∀ key operation, main.operations.lookup key = some operation → operation.kind = .shell →
      operation.terminal = none → files.main.operations.lookup key = some operation)
    (hx : Mutating { files with main } x) : Mutating files x := by
  cases hx with
  | shell hlookup hkind hterminal =>
    exact .shell (h _ _ hlookup hkind hterminal) hkind hterminal
  | mutation hlookup hkind hterminal => exact .mutation hlookup hkind hterminal

theorem Mutating.of_acceptance {acceptance : AcceptanceState}
    (h : ∀ key operation, acceptance.operations.lookup key = some operation →
      operation.kind = .mutation → operation.terminal = none → ∃ old,
        files.acceptance.operations.lookup key = some old ∧ old.kind = .mutation ∧
          old.terminal = none)
    (hx : Mutating { files with acceptance } x) : Mutating files x := by
  cases hx with
  | shell hlookup hkind hterminal => exact .shell hlookup hkind hterminal
  | mutation hlookup hkind hterminal =>
    obtain ⟨old, hold, hkind', hterminal'⟩ := h _ _ hlookup hkind hterminal
    exact .mutation hold hkind' hterminal'

theorem Exclusive.change (h : Exclusive files) (hchange : Change strict files files') :
    Exclusive files' := by
  cases hchange with
  | shrink hwithin =>
    exact h.of_le (fun x => .of_main fun key operation hlookup _ _ =>
      hwithin.operations key operation hlookup) id
  | edit _ _ _ hadds _ hkind =>
    refine h.of_le (fun x => .of_main fun key operation hlookup hshell _ => ?_) id
    rcases hadds.operations key operation hlookup with ⟨-, rfl⟩ | hold
    · cases hkind.symm.trans hshell
    · exact hold
  | @shell main key record hidle hcompletion hgeneration hadds =>
    have hnew : ∀ x, Mutating { files with main } x → x = .inl key := by
      intro x hx
      cases hx with
      | shell hlookup hkind hterminal =>
        rcases hadds.operations _ _ hlookup with ⟨rfl, -⟩ | hold
        · rfl
        · exact absurd (.shell hold hkind hterminal) (hidle.not_mutating _)
      | mutation hlookup hkind hterminal =>
        exact absurd (.mutation hlookup hkind hterminal) (hidle.not_mutating _)
    exact ⟨fun x y hx hy => (hnew x hx).trans (hnew y hy).symm, fun _ _ => hcompletion⟩
  | validation _ _ _ hadds hkind =>
    refine h.of_le (fun x => .of_main fun key operation hlookup hshell _ => ?_) id
    rcases hadds.operations key operation hlookup with ⟨-, rfl⟩ | hold
    · cases hkind.symm.trans hshell
    · exact hold
  | complete _ _ _ _ hoperations =>
    refine h.of_le (fun x => .of_main fun key operation hlookup _ hterminal => ?_) id
    rcases hoperations key operation hlookup with ⟨-, rfl⟩ | ⟨-, hold⟩
    · cases hterminal
    · exact hold
  | accept hwithin =>
    refine h.of_le (fun x => .of_acceptance fun key operation hlookup hkind hterminal => ?_) ?_
    · exact ⟨operation, (hwithin.operations key operation hlookup).open hterminal, hkind, hterminal⟩
    · intro hcompletion key operation hlookup hkind hterminal
      exact hcompletion key operation ((hwithin.operations key operation hlookup).open hterminal)
        hkind hterminal
  | @reserveMutation acceptance key record hidle hcompletion hadds _ hkind =>
    have hnew : ∀ x, Mutating { files with acceptance } x → x = .inr key := by
      intro x hx
      cases hx with
      | shell hlookup hkind hterminal =>
        exact absurd (.shell hlookup hkind hterminal) (hidle.not_mutating _)
      | mutation hlookup hkind hterminal =>
        rcases hadds.operations _ _ hlookup with ⟨rfl, -⟩ | hold
        · rfl
        · exact absurd (.mutation hold hkind hterminal) (hidle.not_mutating _)
    refine ⟨fun x y hx hy => (hnew x hx).trans (hnew y hy).symm, fun _ _ => ?_⟩
    intro key' operation hlookup hcompletionKind
    rcases hadds.operations key' operation hlookup with ⟨-, rfl⟩ | hold
    · cases hkind.symm.trans hcompletionKind
    · exact hcompletion key' operation hold hcompletionKind
  | admitMutation hrecord hkind _ _ hoperations =>
    refine h.of_le (fun x => .of_acceptance fun key operation hlookup hmutation hterminal => ?_) ?_
    · rcases hoperations key operation hlookup with ⟨rfl, rfl⟩ | ⟨-, hold⟩
      · exact ⟨_, hrecord, hkind, hterminal⟩
      · exact ⟨operation, hold, hmutation, hterminal⟩
    · intro hcompletion key operation hlookup hcompletionKind
      rcases hoperations key operation hlookup with ⟨-, rfl⟩ | ⟨-, hold⟩
      · cases hkind.symm.trans hcompletionKind
      · exact hcompletion key operation hold hcompletionKind
  | admitValidator _ hadds hkind =>
    refine h.of_le (fun x => .of_acceptance fun key operation hlookup hmutation hterminal => ?_) ?_
    · rcases hadds.operations key operation hlookup with ⟨-, rfl⟩ | hold
      · cases hkind.symm.trans hmutation
      · exact ⟨operation, hold, hmutation, hterminal⟩
    · intro hcompletion key operation hlookup hcompletionKind
      rcases hadds.operations key operation hlookup with ⟨-, rfl⟩ | hold
      · cases hkind.symm.trans hcompletionKind
      · exact hcompletion key operation hold hcompletionKind
  | completion hidle hadds hkind =>
    have hnone : ∀ x, ¬ Mutating _ x := fun x hx => hidle.not_mutating x
      (.of_acceptance (fun key operation hlookup hmutation hterminal => by
        rcases hadds.operations key operation hlookup with ⟨-, rfl⟩ | hold
        · cases hkind.symm.trans hmutation
        · exact ⟨operation, hold, hmutation, hterminal⟩) hx)
    exact ⟨fun x _ hx => absurd hx (hnone x), fun x hx => absurd hx (hnone x)⟩

/-! ## Generations -/

def Begins (before after : Files) (key : String) (operation : OperationRecord) : Prop :=
  after.main.operations.lookup key = some operation ∧
    ∀ old, before.main.operations.lookup key = some old → old.sequence ≠ operation.sequence

@[simp]
theorem OperationRecord.settle_sequence (record : OperationRecord) (execution : StoredExecution)
    (disposition : CompletionDisposition) :
    (record.settle execution disposition).sequence = record.sequence := rfl

theorem Change.begins {before after : Files} {operation : OperationRecord}
    (hchange : Change strict before after) (hbegins : Begins before after key operation)
    (hkind : operation.kind ≠ .validation) :
    after.main.generation = before.main.generation + 1 ∧ NoMutation before ∧
      NoCompletion before.acceptance := by
  obtain ⟨hlookup, hnew⟩ := hbegins
  cases hchange with
  | shrink hwithin => exact absurd rfl (hnew _ (hwithin.operations key operation hlookup))
  | edit hidle hcompletion hgeneration => exact ⟨hgeneration, hidle, hcompletion⟩
  | shell hidle hcompletion hgeneration => exact ⟨hgeneration, hidle, hcompletion⟩
  | validation _ _ _ hadds hvalidation =>
    rcases hadds.operations key operation hlookup with ⟨-, rfl⟩ | hold
    · exact absurd hvalidation hkind
    · exact absurd rfl (hnew _ hold)
  | complete hrecord _ _ _ hoperations =>
    rcases hoperations key operation hlookup with ⟨rfl, rfl⟩ | ⟨-, hold⟩
    · exact absurd (OperationRecord.settle_sequence _ _ _).symm (hnew _ hrecord)
    · exact absurd rfl (hnew _ hold)
  | accept | reserveMutation | admitMutation | admitValidator | completion =>
    exact absurd rfl (hnew _ hlookup)

def ReservedAt (moments : List Files) (key : String) (operation : AcceptanceOperation) : Prop :=
  ∃ later reserved before earlier, moments = later ++ reserved :: before :: earlier ∧
    reserved.acceptance.operations.lookup key =
      some { operation with admission := .reserved, terminal := none } ∧
    operation.generation = before.main.generation + 1

theorem ReservedAt.cons {moments : List Files} {key : String}
    {operation operation' : AcceptanceOperation} (h : ReservedAt moments key operation)
    (hsame : { operation' with admission := .reserved, terminal := none } =
      { operation with admission := .reserved, terminal := none }) (files : Files) :
    ReservedAt (files :: moments) key operation' := by
  obtain ⟨later, reserved, before, earlier, rfl, hlookup, hgeneration⟩ := h
  refine ⟨files :: later, reserved, before, earlier, rfl, hsame ▸ hlookup, ?_⟩
  have hsameGeneration := congrArg AcceptanceOperation.generation hsame
  exact hsameGeneration.trans hgeneration

def MutationsReserved (files : Files) (past : List Files) : Prop :=
  ∀ key operation, files.acceptance.operations.lookup key = some operation →
    operation.kind = .mutation →
      (operation.admission = .admitted → operation.generation ≤ files.main.generation) ∧
        ReservedAt (files :: past) key operation

theorem MutationsReserved.of_old {past : List Files} (h : MutationsReserved files past)
    (hle : files.main.generation ≤ files'.main.generation)
    {operation : AcceptanceOperation} (hold : OldOperation files key operation)
    (hkind : operation.kind = .mutation) :
    (operation.admission = .admitted → operation.generation ≤ files'.main.generation) ∧
      ReservedAt (files' :: files :: past) key operation := by
  obtain ⟨old, hlookup, rfl | ⟨-, -, terminal, rfl, -⟩⟩ := hold
  · obtain ⟨hadmitted, hreserved⟩ := h key operation hlookup hkind
    exact ⟨fun hadmission => (hadmitted hadmission).trans hle, hreserved.cons rfl files'⟩
  · obtain ⟨hadmitted, hreserved⟩ := h key old hlookup hkind
    exact ⟨fun hadmission => (hadmitted hadmission).trans hle, hreserved.cons rfl files'⟩

theorem MutationsReserved.change {past : List Files} (h : MutationsReserved files past)
    (hchange : Change strict files files') : MutationsReserved files' (files :: past) := by
  have hle := hchange.generation_le
  intro key operation hlookup hmutation
  cases hchange with
  | shrink | edit | shell | validation | complete => exact h.of_old hle (.refl hlookup) hmutation
  | accept hwithin => exact h.of_old hle (hwithin.operations key operation hlookup) hmutation
  | reserveMutation _ _ hadds _ _ hreserved hterminal hgeneration =>
    rcases hadds.operations key operation hlookup with ⟨rfl, rfl⟩ | hold
    · refine ⟨fun hadmitted => (nomatch hreserved.symm.trans hadmitted), [], _, files, past, rfl, ?_,
        hgeneration⟩
      rw [← hreserved, ← hterminal]
      exact hlookup
    · exact h.of_old hle (.refl hold) hmutation
  | admitMutation hrecord hkind hgeneration _ hoperations =>
    rcases hoperations key operation hlookup with ⟨rfl, rfl⟩ | ⟨-, hold⟩
    · exact ⟨fun _ => hgeneration.le, (h _ _ hrecord hkind).2.cons rfl _⟩
    · exact h.of_old hle (.refl hold) hmutation
  | admitValidator _ hadds hkind =>
    rcases hadds.operations key operation hlookup with ⟨-, rfl⟩ | hold
    · cases hkind.symm.trans hmutation
    · exact h.of_old hle (.refl hold) hmutation
  | completion _ hadds hkind =>
    rcases hadds.operations key operation hlookup with ⟨-, rfl⟩ | hold
    · cases hkind.symm.trans hmutation
    · exact h.of_old hle (.refl hold) hmutation

/-! ## Runs -/

/-- Each moment comes from the one before it by a change. -/
theorem reach_moments (h : (finishLine host).Reach w) :
    w.moments.IsChain fun after before => Change False before after := by
  refine (reach_keeps (J := fun files past =>
    (files :: past).IsChain fun after before => Change False before after) ?_ ?_ h).2
  · intro files past files' hchain hchange
    exact List.isChain_cons_cons.mpr ⟨hchange, hchain⟩
  · exact List.isChain_singleton _

theorem reach_exclusive (h : (finishLine host).Reach w) : Exclusive w.files := by
  refine (reach_keeps (J := fun files _ => Exclusive files)
    (fun _ _ _ h hchange => h.change hchange) ?_ h).2
  have hnone : ∀ x, ¬ Mutating World.start.files x := by
    rintro x (⟨hlookup, -, -⟩ | ⟨hlookup, -, -⟩) <;> cases hlookup
  exact ⟨fun x _ hx => absurd hx (hnone x), fun x hx => absurd hx (hnone x)⟩

theorem reach_mutationsReserved (h : (finishLine host).Reach w) :
    MutationsReserved w.files w.past := by
  refine (reach_keeps (J := MutationsReserved) (fun _ _ _ h hchange => h.change hchange) ?_ h).2
  rintro key operation ⟨⟩

theorem NoCompletion.not_reserved (h : NoCompletion files.acceptance) :
    completionReserved files = false := by
  unfold completionReserved
  rw [Table.any_values_eq_false]
  intro key operation hlookup
  have hended := h key operation hlookup
  simp_all

/-- Mutual exclusion, in every world that any interleaving of calls and crashes reaches. -/
theorem mutations_exclude {w : World} (h : (finishLine host).Reach w) :
    (∀ x y, Mutating w.files x → Mutating w.files y → x = y) ∧
      (completionReserved w.files → ∀ x, ¬ Mutating w.files x) ∧
      (∀ later after before earlier, w.moments = later ++ after :: before :: earlier →
        before.main.generation ≤ after.main.generation ∧
          ∀ key operation, Begins before after key operation → operation.kind ≠ .validation →
            ¬ completionReserved before ∧
              after.main.generation = before.main.generation + 1) ∧
      ∀ key operation, w.files.acceptance.operations.lookup key = some operation →
        operation.kind = .mutation → operation.admission = .admitted →
          operation.generation ≤ w.files.main.generation ∧
            ReservedAt w.moments key operation := by
  have hexclusive := reach_exclusive h
  refine ⟨hexclusive.single, fun hreserved x hx => ?_, ?_, ?_⟩
  · have hnone := (hexclusive.completion x hx).not_reserved
    exact absurd hreserved (by simp [hnone])
  · intro later after before earlier hmoments
    have hchain := reach_moments h
    rw [hmoments, List.isChain_append_cons_cons] at hchain
    have hchange := hchain.2.1
    refine ⟨hchange.generation_le, fun key operation hbegins hkind => ?_⟩
    obtain ⟨hgeneration, -, hcompletion⟩ := hchange.begins hbegins hkind
    exact ⟨by simp [hcompletion.not_reserved], hgeneration⟩
  · intro key operation hlookup hkind hadmitted
    obtain ⟨hle, hreserved⟩ := reach_mutationsReserved h key operation hlookup hkind
    exact ⟨hle hadmitted, hreserved⟩

/-- A shell command that has not ended keeps completions away. -/
theorem mutations_exclude_sample :
    completionReserved (sampleWorld [.open, .edit, .shell]).files = false := by
  have hreach := sampleWorld_reach [.open, .edit, .shell] (by decide +kernel)
  have hshell : ((sampleWorld [.open, .edit, .shell]).files.main.operations.lookup "s/x").any
      fun operation => operation.kind = .shell && operation.terminal.isNone := by decide +kernel
  obtain ⟨operation, hlookup, hactive⟩ := (Option.any_eq_true _ _).mp hshell
  rw [Bool.and_eq_true, decide_eq_true_eq, Option.isNone_iff_eq_none] at hactive
  exact Bool.eq_false_iff.mpr fun hreserved =>
    (mutations_exclude hreach).2.1 hreserved _ (.shell hlookup hactive.1 hactive.2)

end NilsCli.FinishLine
