import Mathlib.Data.List.Pairwise
import Mathlib.Logic.Function.Basic
import NilsCli.Lib.Transition
import NilsCli.Prompts.Receipts

/-!
# Attempts of one prompt request

The submits and lookups of one key, in any order, with a crash at any time (`promptSystem`).
-/

namespace NilsCli.Prompts

open Lib List

variable {n : Nat} {phase : Phase} {result : ResultRecord} {write : Write} {fingerprint : String}

inductive Asked
  | submit (fingerprint : String) (torn : Bool)
  | lookup

inductive Answer
  | result (record : ResultRecord)
  | notFound
  | conflict
  | failed

inductive Event
  | created (fingerprint : String)
  | dispatched (fingerprint : String)
  | answered (asked : Asked) (answer : Answer)

/-- Where a request is. -/
inductive Phase
  /-- The claim file is created, and not written yet. -/
  | claiming (fingerprint : String)
  | claimed (fingerprint : String)
  | dispatching (fingerprint : String)
  | finishing (fingerprint : String) (result : ResultRecord)
  /-- The submit found a claim; it has not looked for the result yet. -/
  | existing (asked : Asked)
  | found (asked : Asked) (result : ResultRecord)
  /-- The provider's history has the input. -/
  | located (asked : Asked) (result : ResultRecord) (binding : Option String × Option String)
  /-- The stored result was checked. -/
  | publishing (asked : Asked) (result : ResultRecord) (binding : Option String × Option String)
  | answering (asked : Asked) (result : ResultRecord)

structure State where
  files : Files
  phases : Nat → Option Phase
  trace : List Event

/-- The request `n` goes on. -/
def State.at (state : State) (n : Nat) (phase : Phase) : State :=
  { state with phases := Function.update state.phases n (some phase) }

/-- The request `n` is over. -/
def State.drop (state : State) (n : Nat) : State :=
  { state with phases := Function.update state.phases n none }

def State.log (state : State) (event : Event) : State :=
  { state with trace := state.trace ++ [event] }

def State.store (state : State) (result : ResultRecord) : State :=
  { state with files := { state.files with result := some result } }

def State.claim (state : State) (claim : ClaimFile) : State :=
  { state with files := { state.files with claim := some claim } }

inductive Write
  | done
  /-- The file was replaced; its directory was not synced. -/
  | unsynced
  | failed
  deriving DecidableEq

def State.stores (state : State) (result : ResultRecord) : Write → State
  | .failed => state
  | _ => state.store result

inductive PromptLabel
  | submit (n : Nat) (payload : String × Bool)
  | lookup (n : Nat)
  | fail (asked : Asked)
  | write (n : Nat)
  | writeFails (n : Nat)
  | dispatch (n : Nat)
  | returns (n : Nat) (response : Response) (proof : Option NativeProof)
  | finish (n : Nat) (write : Write)
  | read (n : Nat)
  | locate (n : Nat) (turnId : String) (sessionId : Option String)
  | check (n : Nat)
  | publish (n : Nat) (write : Write)
  | settle (n : Nat)
  | answer (n : Nat)
  | abandon (n : Nat)
  | crash

/-- The claim has another payload. -/
def ClaimFile.conflicts (claim : ClaimFile) (fingerprint : String) : Bool :=
  claim.record.any (·.fingerprint ≠ fingerprint)

/-- The steps of the requests with the key. -/
inductive PromptStep (host : Host) (key : Key) : PromptLabel → State → State → Prop
  | submitNew {n : Nat} {payload : String × Bool} {state : State} (hn : state.phases n = none)
      (habsent : state.files.claim = none) :
      PromptStep host key (.submit n payload) state
        (((state.claim .torn).at n (.claiming (host.fingerprint payload))).log
          (.created (host.fingerprint payload)))
  | submitConflict {n : Nat} {payload : String × Bool} {state : State} {claim : ClaimFile}
      (hclaim : state.files.claim = some claim)
      (hconflict : claim.conflicts (host.fingerprint payload)) :
      PromptStep host key (.submit n payload) state
        (state.log (.answered (.submit (host.fingerprint payload) false) .conflict))
  | submitExisting {n : Nat} {payload : String × Bool} {state : State} {claim : ClaimFile}
      (hn : state.phases n = none) (hclaim : state.files.claim = some claim)
      (hsame : ¬ claim.conflicts (host.fingerprint payload)) :
      PromptStep host key (.submit n payload) state
        (state.at n (.existing (.submit (host.fingerprint payload) claim.record.isNone)))
  | lookupAbsent {n : Nat} {state : State}
      (hlookup : lookup host state.files (.unknown key) = none) :
      PromptStep host key (.lookup n) state (state.log (.answered .lookup .notFound))
  | lookupFound {n : Nat} {state : State} {result : ResultRecord} (hn : state.phases n = none)
      (hlookup : lookup host state.files (.unknown key) = some result) :
      PromptStep host key (.lookup n) state (state.at n (.found .lookup result))
  /-- The session or the storage is not available. -/
  | fail {asked : Asked} {state : State} :
      PromptStep host key (.fail asked) state (state.log (.answered asked .failed))
  | write {n : Nat} {fingerprint : String} {state : State}
      (hn : state.phases n = some (.claiming fingerprint)) :
      PromptStep host key (.write n) state
        ((state.claim (.complete ⟨fingerprint, .unknown key⟩)).at n (.claimed fingerprint))
  /-- The claim is not written, or not synced. -/
  | writeFails {n : Nat} {fingerprint : String} {state : State}
      (hn : state.phases n = some (.claiming fingerprint) ∨
        state.phases n = some (.claimed fingerprint)) :
      PromptStep host key (.writeFails n) state
        ((state.drop n).log (.answered (.submit fingerprint false) .failed))
  | dispatch {n : Nat} {fingerprint : String} {state : State}
      (hn : state.phases n = some (.claimed fingerprint)) :
      PromptStep host key (.dispatch n) state
        ((state.at n (.dispatching fingerprint)).log (.dispatched fingerprint))
  | returns {n : Nat} {fingerprint : String} {response : Response} {proof : Option NativeProof}
      {state : State} (hn : state.phases n = some (.dispatching fingerprint)) :
      PromptStep host key (.returns n response proof) state
        (state.at n (.finishing fingerprint (dispatchResult response proof (.unknown key))))
  | finish {n : Nat} {fingerprint : String} {result : ResultRecord} {write : Write} {state : State}
      (hn : state.phases n = some (.finishing fingerprint result)) :
      PromptStep host key (.finish n write) state ((state.stores result write).at n
        (.answering (.submit fingerprint false)
          (if write = .done then result else unstored result)))
  | read {n : Nat} {asked : Asked} {state : State} (hn : state.phases n = some (.existing asked)) :
      PromptStep host key (.read n) state (state.at n (.found asked
        ((lookup host state.files (.unknown key)).getD (.unknown (.unknown key)))))
  | locate {n : Nat} {asked : Asked} {result : ResultRecord} {turnId : String}
      {sessionId : Option String} {state : State}
      (hn : state.phases n = some (.found asked result))
      (hresult : reconcilable host state.files result) :
      PromptStep host key (.locate n turnId sessionId) state
        (state.at n (.located asked result (confirmedBinding result turnId sessionId)))
  | check {n : Nat} {asked : Asked} {result : ResultRecord}
      {binding : Option String × Option String} {state : State}
      (hn : state.phases n = some (.located asked result binding))
      (hresult : publishable host state.files result) :
      PromptStep host key (.check n) state (state.at n (.publishing asked result binding))
  | publish {n : Nat} {asked : Asked} {result : ResultRecord}
      {binding : Option String × Option String} {write : Write} {state : State}
      (hn : state.phases n = some (.publishing asked result binding)) :
      PromptStep host key (.publish n write) state ((state.stores (published result binding) write).at n
        (.answering asked (if write = .done then published result binding else result)))
  /-- There is nothing to reconcile, or it is not confirmed. -/
  | settle {n : Nat} {asked : Asked} {result : ResultRecord} {state : State}
      (hn : state.phases n = some (.found asked result)) :
      PromptStep host key (.settle n) state (state.at n (.answering asked result))
  /-- The stored result is another one by now, or the session is. -/
  | outdated {n : Nat} {asked : Asked} {result : ResultRecord}
      {binding : Option String × Option String} {state : State}
      (hn : state.phases n = some (.located asked result binding)) :
      PromptStep host key (.settle n) state (state.at n (.answering asked result))
  | answer {n : Nat} {asked : Asked} {result : ResultRecord} {state : State}
      (hn : state.phases n = some (.answering asked result)) :
      PromptStep host key (.answer n) state
        ((state.drop n).log (.answered asked (.result result)))
  | abandon {n : Nat} {state : State} : PromptStep host key (.abandon n) state (state.drop n)
  | crash {state : State} :
      PromptStep host key .crash state { state with phases := fun _ => none }

/-- A key that was never used. -/
def unused : State where
  files := ⟨none, none⟩
  phases := fun _ => none
  trace := []

def promptSystem (host : Host) (key : Key) : Lts where
  State := State
  Label := PromptLabel
  init state := state = unused
  step := PromptStep host key

/-! ## Dispatches and claims -/

def Asked.relies : Asked → Option String
  | submit fingerprint false => some fingerprint
  | _ => none

/-- The payload whose claim the request relies on. -/
def Phase.relies : Phase → Option String
  | claiming fingerprint => some fingerprint
  | claimed fingerprint => some fingerprint
  | dispatching fingerprint => some fingerprint
  | finishing fingerprint _ => some fingerprint
  | existing asked => asked.relies
  | found asked _ => asked.relies
  | located asked _ _ => asked.relies
  | publishing asked _ _ => asked.relies
  | answering asked _ => asked.relies

/-- The request may dispatch. -/
def Phase.mayDispatch : Phase → Bool
  | claiming _ => true
  | claimed _ => true
  | _ => false

def Event.isDispatched : Event → Bool
  | dispatched _ => true
  | _ => false

/-- The event shows that there is a claim. -/
def Event.showsClaim : Event → Bool
  | created _ => true
  | dispatched _ => true
  | answered _ (.result _) => true
  | answered _ .conflict => true
  | _ => false

def Event.isNotFound : Event → Bool
  | answered _ .notFound => true
  | _ => false

structure Traced (state : State) : Prop where
  /-- Without a claim nothing was created, and no request is under way. -/
  absent : state.files.claim = none →
    (∀ event ∈ state.trace, ¬ event.showsClaim) ∧ ∀ n, state.phases n = none
  record : ∀ record, state.files.claim = some (.complete record) →
    .created record.fingerprint ∈ state.trace
  relies : ∀ n phase fingerprint, state.phases n = some phase → phase.relies = some fingerprint →
    .created fingerprint ∈ state.trace
  created : ∀ fingerprint fingerprint', .created fingerprint ∈ state.trace →
    .created fingerprint' ∈ state.trace → fingerprint = fingerprint'
  dispatched : ∀ fingerprint, .dispatched fingerprint ∈ state.trace →
    .created fingerprint ∈ state.trace
  answered : ∀ fingerprint result,
    .answered (.submit fingerprint false) (.result result) ∈ state.trace →
      .created fingerprint ∈ state.trace
  /-- At most one request may dispatch, and none after the dispatch. -/
  pending : ∀ n m phase phase', state.phases n = some phase → state.phases m = some phase' →
    phase.mayDispatch → phase'.mayDispatch → n = m
  once : state.trace.countP Event.isDispatched ≤ 1
  undone : ∀ n phase, state.phases n = some phase → phase.mayDispatch →
    state.trace.countP Event.isDispatched = 0
  order : state.trace.Pairwise fun event event' => event.showsClaim → ¬ event'.isNotFound

section
variable {host : Host} {key : Key} {state state' : State}

theorem update_cases {α : Type} {f : Nat → Option α} {m : Nat} {a : Option α} {b : α}
    (h : Function.update f n a m = some b) : f m = some b ∨ m = n ∧ a = some b := by
  by_cases hm : m = n
  · subst hm
    rw [Function.update_self] at h
    exact .inr ⟨rfl, h⟩
  · rw [Function.update_of_ne hm] at h
    exact .inl h

/-- A step that neither creates a claim nor dispatches. -/
theorem Traced.next (h : Traced state) (hclaim : state'.files.claim = state.files.claim)
    (hphases : ∀ n phase, state'.phases n = some phase → state.phases n = some phase ∨
      state.files.claim ≠ none ∧ phase.mayDispatch = false ∧
        ∀ fingerprint, phase.relies = some fingerprint → .created fingerprint ∈ state.trace)
    (htrace : state'.trace = state.trace ∨ ∃ asked answer,
      state'.trace = state.trace ++ [.answered asked answer] ∧
      (answer = .notFound → state.files.claim = none) ∧
      ((Event.answered asked answer).showsClaim → state.files.claim ≠ none) ∧
      ∀ fingerprint result, asked = .submit fingerprint false → answer = .result result →
        .created fingerprint ∈ state.trace) : Traced state' := by
  have hcreated : ∀ fingerprint, .created fingerprint ∈ state'.trace ↔
      .created fingerprint ∈ state.trace := by
    intro fingerprint
    rcases htrace with htrace | ⟨asked, answer, htrace, -⟩ <;> simp [htrace]
  have hdispatched : ∀ fingerprint, .dispatched fingerprint ∈ state'.trace ↔
      .dispatched fingerprint ∈ state.trace := by
    intro fingerprint
    rcases htrace with htrace | ⟨asked, answer, htrace, -⟩ <;> simp [htrace]
  have hcount : state'.trace.countP Event.isDispatched = state.trace.countP Event.isDispatched := by
    rcases htrace with htrace | ⟨asked, answer, htrace, -⟩ <;> simp [htrace, Event.isDispatched]
  have hpending : ∀ n phase, state'.phases n = some phase → phase.mayDispatch →
      state.phases n = some phase := by
    intro n phase hphase hmay
    rcases hphases n phase hphase with hold | ⟨-, hno, -⟩
    · exact hold
    · rw [hmay] at hno
      cases hno
  refine
    { absent := fun habsent => ?_
      record := fun record hrecord => (hcreated _).mpr (h.record record (hclaim ▸ hrecord))
      relies := fun n phase fingerprint hphase hrelies => ?_
      created := fun a b ha hb => h.created a b ((hcreated a).mp ha) ((hcreated b).mp hb)
      dispatched := fun a ha => (hcreated a).mpr (h.dispatched a ((hdispatched a).mp ha))
      answered := fun fingerprint result hmem => ?_
      pending := fun n m a b ha hb hma hmb =>
        h.pending n m a b (hpending n a ha hma) (hpending m b hb hmb) hma hmb
      once := hcount ▸ h.once
      undone := fun n phase hphase hmay =>
        hcount ▸ h.undone n phase (hpending n phase hphase hmay) hmay
      order := ?_ }
  · obtain ⟨hnone, hidle⟩ := h.absent (hclaim ▸ habsent)
    constructor
    · intro event hmem
      rcases htrace with htrace | ⟨asked, answer, htrace, -, hclaims, -⟩
      · exact hnone event (htrace ▸ hmem)
      · rw [htrace, mem_append, mem_singleton] at hmem
        rcases hmem with hmem | rfl
        · exact hnone event hmem
        · exact fun hshows => hclaims hshows (hclaim ▸ habsent)
    · intro n
      cases hphase : state'.phases n with
      | none => rfl
      | some phase =>
        rcases hphases n phase hphase with hold | ⟨hsome, -⟩
        · exact absurd hold (by simp [hidle n])
        · exact absurd (hclaim ▸ habsent) hsome
  · rw [hcreated]
    rcases hphases n phase hphase with hold | ⟨-, -, hnew⟩
    · exact h.relies n phase fingerprint hold hrelies
    · exact hnew fingerprint hrelies
  · rw [hcreated]
    rcases htrace with htrace | ⟨asked, answer, htrace, -, -, hresult⟩
    · exact h.answered fingerprint result (htrace ▸ hmem)
    · rw [htrace, mem_append, mem_singleton] at hmem
      rcases hmem with hmem | heq
      · exact h.answered fingerprint result hmem
      · cases heq
        exact hresult fingerprint result rfl rfl
  · rcases htrace with htrace | ⟨asked, answer, htrace, hnotFound, -⟩
    · exact htrace ▸ h.order
    · rw [htrace, pairwise_append]
      refine ⟨h.order, pairwise_singleton _ _, ?_⟩
      intro event hmem last hlast hcreated' hnot
      cases List.mem_singleton.mp hlast
      cases answer with
      | notFound => exact (h.absent (hnotFound rfl)).1 event hmem hcreated'
      | _ => cases hnot

/-- The request goes on with what it relied on before. -/
theorem Traced.moves (h : Traced state) {phase' : Phase}
    (hn : state.phases n = some phase) (hclaim : state'.files.claim = state.files.claim)
    (htrace : state'.trace = state.trace)
    (hphases : state'.phases = Function.update state.phases n (some phase'))
    (hmay : phase'.mayDispatch = false)
    (hrelies : ∀ fingerprint, phase'.relies = some fingerprint → phase.relies = some fingerprint) :
    Traced state' := by
  refine h.next hclaim (fun m p hm => ?_) (.inl htrace)
  rw [hphases] at hm
  rcases update_cases hm with hold | ⟨-, heq⟩
  · exact .inl hold
  · cases heq
    refine .inr ⟨fun habsent => ?_, hmay, fun fingerprint hp =>
      h.relies n phase fingerprint hn (hrelies fingerprint hp)⟩
    have hidle := (h.absent habsent).2 n
    rw [hn] at hidle
    cases hidle

theorem Traced.ends (h : Traced state) {asked : Asked} {answer : Answer}
    (hnotFound : answer ≠ .notFound)
    (hclaims : (Event.answered asked answer).showsClaim → state.files.claim ≠ none)
    (hresult : ∀ fingerprint result, asked = .submit fingerprint false → answer = .result result →
      .created fingerprint ∈ state.trace) :
    Traced ((state.drop n).log (.answered asked answer)) := by
  refine h.next rfl (fun m p hm => .inl ?_)
    (.inr ⟨asked, answer, rfl, fun heq => absurd heq hnotFound, hclaims, hresult⟩)
  rcases update_cases hm with hold | ⟨-, heq⟩
  · exact hold
  · cases heq

theorem stores_claim :
    (state.stores result write).files.claim = state.files.claim := by
  cases write <;> rfl

theorem stores_phases :
    ((state.stores result write).at n phase).phases =
      Function.update state.phases n (some phase) := by
  cases write <;> rfl

theorem stores_trace :
    (state.stores result write).trace = state.trace := by
  cases write <;> rfl

theorem countP_log {event : Event} : (state.log event).trace.countP Event.isDispatched =
    state.trace.countP Event.isDispatched + if event.isDispatched then 1 else 0 := by
  simp [State.log, countP_append, countP_singleton]

/-- The claim is created: nothing happened before. -/
theorem Traced.creates (h : Traced state) (habsent : state.files.claim = none) :
    Traced (((state.claim .torn).at n (.claiming fingerprint)).log (.created fingerprint)) := by
  obtain ⟨hnone, hidle⟩ := h.absent habsent
  have hcreated : ∀ fingerprint', .created fingerprint' ∈ state.trace ++ [.created fingerprint] →
      fingerprint' = fingerprint := by
    intro fingerprint' hmem
    rcases List.mem_append.mp hmem with hmem | hmem
    · exact absurd rfl (hnone _ hmem)
    · cases List.mem_singleton.mp hmem
      rfl
  have hmem : ∀ event ∈ state.trace ++ [Event.created fingerprint], event ≠ .created fingerprint →
      event ∈ state.trace := by
    intro event hmem hnot
    rcases List.mem_append.mp hmem with hmem | hmem
    · exact hmem
    · exact absurd (List.mem_singleton.mp hmem) hnot
  have hphase : ∀ m phase, Function.update state.phases n (some (.claiming fingerprint)) m =
      some phase → m = n ∧ phase = .claiming fingerprint := by
    intro m phase hm
    rcases update_cases hm with hold | ⟨rfl, heq⟩
    · rw [hidle m] at hold
      cases hold
    · cases heq
      exact ⟨rfl, rfl⟩
  have hundone : state.trace.countP Event.isDispatched = 0 := by
    rw [countP_eq_zero]
    intro event hevent hdispatched
    cases event with
    | dispatched other => exact absurd rfl (hnone _ (h.dispatched other hevent))
    | _ => cases hdispatched
  refine
    { absent := fun habsent => by cases habsent
      record := fun record hrecord => by cases hrecord
      relies := fun m phase fingerprint' hm hrelies => ?_
      created := fun a b ha hb => (hcreated a ha).trans (hcreated b hb).symm
      dispatched := fun a ha => ?_
      answered := fun a result ha => ?_
      pending := fun m m' phase phase' hm hm' _ _ => (hphase m _ hm).1.trans (hphase m' _ hm').1.symm
      once := ?_
      undone := fun _ _ _ _ => ?_
      order := ?_ }
  · obtain ⟨-, rfl⟩ := hphase m phase hm
    cases hrelies
    exact mem_append_right _ (List.mem_singleton.mpr rfl)
  · exact mem_append_left _ (h.dispatched a (hmem _ ha (by simp)))
  · exact mem_append_left _ (h.answered a result (hmem _ ha (by simp)))
  · rw [countP_log]
    exact Nat.le_trans (Nat.le_of_eq (congrArg (· + 0) hundone)) (Nat.zero_le 1)
  · rw [countP_log]
    exact hundone
  · refine List.pairwise_append.mpr ⟨h.order, pairwise_singleton _ _, ?_⟩
    intro event hevent last hlast hfirst
    exact absurd hfirst (hnone event hevent)

theorem Traced.writes (h : Traced state) (hn : state.phases n = some (.claiming fingerprint)) :
    Traced ((state.claim (.complete ⟨fingerprint, .unknown key⟩)).at n (.claimed fingerprint)) := by
  have hown := h.relies n _ fingerprint hn rfl
  have hphase : ∀ m phase, Function.update state.phases n (some (.claimed fingerprint)) m =
      some phase → ∃ before, state.phases m = some before ∧ before.mayDispatch = phase.mayDispatch ∧
        before.relies = phase.relies := by
    intro m phase hm
    rcases update_cases hm with hold | ⟨rfl, heq⟩
    · exact ⟨phase, hold, rfl, rfl⟩
    · cases heq
      exact ⟨_, hn, rfl, rfl⟩
  refine
    { h with
      absent := fun habsent => by cases habsent
      record := fun record hrecord => ?_
      relies := fun m phase fingerprint' hm hrelies => ?_
      pending := fun m m' phase phase' hm hm' hmay hmay' => ?_
      undone := fun m phase hm hmay => ?_ }
  · cases hrecord
    exact hown
  · obtain ⟨before, hbefore, -, hsame⟩ := hphase m phase hm
    exact h.relies m before fingerprint' hbefore (hsame.trans hrelies)
  · obtain ⟨before, hbefore, hsame, -⟩ := hphase m phase hm
    obtain ⟨before', hbefore', hsame', -⟩ := hphase m' phase' hm'
    exact h.pending m m' before before' hbefore hbefore' (hsame.trans hmay) (hsame'.trans hmay')
  · obtain ⟨before, hbefore, hsame, -⟩ := hphase m phase hm
    exact h.undone m before hbefore (hsame.trans hmay)

theorem Traced.dispatches (h : Traced state) (hn : state.phases n = some (.claimed fingerprint)) :
    Traced ((state.at n (.dispatching fingerprint)).log (.dispatched fingerprint)) := by
  have hown := h.relies n _ fingerprint hn rfl
  have hmem : ∀ event ∈ state.trace ++ [Event.dispatched fingerprint], ¬ event.isDispatched →
      event ∈ state.trace := by
    intro event hmem hnot
    rcases List.mem_append.mp hmem with hmem | hmem
    · exact hmem
    · cases List.mem_singleton.mp hmem
      exact absurd rfl hnot
  have hcreated : ∀ fingerprint', .created fingerprint' ∈ state.trace ++ [.dispatched fingerprint] →
      .created fingerprint' ∈ state.trace :=
    fun _ hin => hmem _ hin (by simp [Event.isDispatched])
  have hnone : ∀ m phase, Function.update state.phases n (some (.dispatching fingerprint)) m =
      some phase → phase.mayDispatch = false := by
    intro m phase hm
    rcases update_cases hm with hold | ⟨-, heq⟩
    · cases hmay : phase.mayDispatch with
      | false => rfl
      | true =>
        have hmn : m = n := h.pending m n phase _ hold hn hmay rfl
        subst hmn
        rw [Function.update_self] at hm
        cases hm
        cases hmay
    · cases heq
      rfl
  refine
    { absent := fun habsent => ?_
      record := fun record hrecord => mem_append_left _ (h.record record hrecord)
      relies := fun m phase fingerprint' hm hrelies => mem_append_left _ ?_
      created := fun a b ha hb => h.created a b (hcreated a ha) (hcreated b hb)
      dispatched := fun a ha => mem_append_left _ ?_
      answered := fun a result ha => mem_append_left _
        (h.answered a result (hmem _ ha (by simp [Event.isDispatched])))
      pending := fun m m' phase phase' hm hm' hmay => ?_
      once := ?_
      undone := fun m phase hm hmay => ?_
      order := ?_ }
  · have hidle := (h.absent habsent).2 n
    rw [hn] at hidle
    cases hidle
  · rcases update_cases hm with hold | ⟨-, heq⟩
    · exact h.relies m phase fingerprint' hold hrelies
    · cases heq
      cases hrelies
      exact hown
  · rcases List.mem_append.mp ha with ha | ha
    · exact h.dispatched a ha
    · cases List.mem_singleton.mp ha
      exact hown
  · rw [hnone m phase hm] at hmay
    cases hmay
  · rw [countP_log]
    exact Nat.le_of_eq (congrArg (· + 1) (h.undone n _ hn rfl))
  · rw [hnone m phase hm] at hmay
    cases hmay
  · refine List.pairwise_append.mpr ⟨h.order, pairwise_singleton _ _, ?_⟩
    intro event hevent last hlast _
    cases List.mem_singleton.mp hlast
    simp [Event.isNotFound]

theorem Traced.finds (h : Traced state) {claim : ClaimFile}
    (hclaim : state.files.claim = some claim) (hmay : phase.mayDispatch = false)
    (hrelies : ∀ fingerprint, phase.relies = some fingerprint →
      ∃ record, claim = .complete record ∧ record.fingerprint = fingerprint) :
    Traced (state.at n phase) := by
  refine h.next rfl (fun m p hm => ?_) (.inl rfl)
  rcases update_cases hm with hold | ⟨-, heq⟩
  · exact .inl hold
  · cases heq
    refine .inr ⟨by simp [hclaim], hmay, fun fingerprint hp => ?_⟩
    obtain ⟨record, rfl, rfl⟩ := hrelies fingerprint hp
    exact h.record record hclaim

theorem traced_unused : Traced unused where
  absent _ := ⟨fun _ hmem => (by cases hmem), fun _ => rfl⟩
  record _ hrecord := by cases hrecord
  relies _ _ _ hphase := by cases hphase
  created _ _ hmem := by cases hmem
  dispatched _ hmem := by cases hmem
  answered _ _ hmem := by cases hmem
  pending _ _ _ _ hphase := by cases hphase
  once := Nat.zero_le 1
  undone _ _ hphase := by cases hphase
  order := .nil

theorem traced_step (label : PromptLabel) (state state' : State) (h : Traced state)
    (hstep : PromptStep host key label state state') : Traced state' := by
  cases hstep with
  | submitNew _ habsent => exact h.creates habsent
  | submitConflict hclaim hconflict =>
    exact h.next rfl (fun _ _ hphase => .inl hphase) (.inr ⟨_, _, rfl, by simp, by simp [hclaim],
      fun _ _ _ hanswer => by cases hanswer⟩)
  | @submitExisting n payload _ claim _ hclaim hsame =>
    refine h.finds hclaim rfl fun fingerprint hrelies => ?_
    cases claim with
    | torn => cases hrelies
    | complete record =>
      cases hrelies
      exact ⟨record, rfl, by simpa [ClaimFile.conflicts, ClaimFile.record] using hsame⟩
  | lookupAbsent hlookup =>
    exact h.next rfl (fun _ _ hphase => .inl hphase)
      (.inr ⟨_, _, rfl, fun _ => lookup_eq_none.mp hlookup, fun hshows => (by cases hshows),
        fun _ _ hasked => by cases hasked⟩)
  | lookupFound _ hlookup =>
    cases hclaim : state.files.claim with
    | none =>
      rw [lookup_eq_none.mpr hclaim] at hlookup
      cases hlookup
    | some claim => exact h.finds hclaim rfl fun _ hrelies => by cases hrelies
  | fail =>
    exact h.next rfl (fun _ _ hphase => .inl hphase)
      (.inr ⟨_, _, rfl, by simp, fun hshows => (by cases hshows), fun _ _ _ hanswer => by cases hanswer⟩)
  | write hn => exact h.writes hn
  | writeFails =>
    exact h.ends (by simp) (fun hshows => by cases hshows) fun _ _ _ hanswer => by cases hanswer
  | dispatch hn => exact h.dispatches hn
  | returns hn => exact h.moves hn rfl rfl rfl rfl fun _ hrelies => hrelies
  | finish hn =>
    exact h.moves hn stores_claim stores_trace stores_phases rfl fun _ hrelies => hrelies
  | read hn => exact h.moves hn rfl rfl rfl rfl fun _ hrelies => hrelies
  | locate hn => exact h.moves hn rfl rfl rfl rfl fun _ hrelies => hrelies
  | check hn => exact h.moves hn rfl rfl rfl rfl fun _ hrelies => hrelies
  | publish hn =>
    exact h.moves hn stores_claim stores_trace stores_phases rfl fun _ hrelies => hrelies
  | settle hn => exact h.moves hn rfl rfl rfl rfl fun _ hrelies => hrelies
  | outdated hn => exact h.moves hn rfl rfl rfl rfl fun _ hrelies => hrelies
  | @answer n _ _ _ hn =>
    refine h.ends (by simp) (fun _ habsent => ?_) fun fingerprint result hasked _ => ?_
    · have hidle := (h.absent habsent).2 n
      rw [hn] at hidle
      cases hidle
    · subst hasked
      exact h.relies _ _ fingerprint hn rfl
  | abandon =>
    refine h.next rfl (fun m p hm => .inl ?_) (.inl rfl)
    rcases update_cases hm with hold | ⟨-, heq⟩
    · exact hold
    · cases heq
  | crash => exact h.next rfl (fun _ _ hphase => by cases hphase) (.inl rfl)

end

end NilsCli.Prompts
