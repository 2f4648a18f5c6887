import NilsCli.Prompts.Attempts

/-!
# Final outcomes

The answers of a key agree from the first one with an outcome on, in every run whose steps are
`Orderly`.
-/

namespace NilsCli.Prompts

open Lib

section
variable (host : Host) (key : Key)

/-- The outcome that a lookup finds. -/
def storedOutcome (files : Files) : Outcome :=
  ((lookup host files (.unknown key)).map (·.outcome)).getD .unknown

def Keeps (files : Files) (result : ResultRecord) : Prop :=
  (result.outcome ≠ .unknown → host.fits result) ∧
    (storedOutcome host key files ≠ .unknown → result.outcome = storedOutcome host key files)

def Orderly : PromptLabel → State → Prop
  | .finish n write, state => ∀ fingerprint result,
    state.phases n = some (.finishing fingerprint result) → write ≠ .failed →
      Keeps host key state.files result
  | .publish n write, state => ∀ asked result binding,
    state.phases n = some (.publishing asked result binding) → write ≠ .failed →
      Keeps host key state.files (published result binding)
  | .answer n, state => ∀ asked result, state.phases n = some (.answering asked result) →
    result.outcome = .unknown → storedOutcome host key state.files = .unknown
  | _, _ => True

def Phase.result : Phase → Option ResultRecord
  | finishing _ result => some result
  | found _ result => some result
  | located _ result _ => some result
  | publishing _ result _ => some result
  | answering _ result => some result
  | _ => none

/-- The result that the request may answer. -/
def Phase.heard : Phase → Option ResultRecord
  | found _ result => some result
  | located _ result _ => some result
  | publishing _ result _ => some result
  | answering _ result => some result
  | _ => none

/-- The outcome of an answer. -/
def Event.outcome : Event → Option Outcome
  | answered _ (.result result) => some result.outcome
  | _ => none

structure Agreed (state : State) : Prop where
  absent : state.files.claim = none → state.files.result = none ∧
    ∀ n, state.phases n = none
  stored : ∀ result, state.files.result = some result → result.key = key
  keyed : ∀ n phase result, state.phases n = some phase → phase.result = some result →
    result.key = key
  heard : ∀ n phase result, state.phases n = some phase → phase.heard = some result →
    result.outcome ≠ .unknown → storedOutcome host key state.files = result.outcome
  answered : ∀ event ∈ state.trace, ∀ outcome, event.outcome = some outcome →
    outcome ≠ .unknown → storedOutcome host key state.files = outcome
  final : state.trace.Pairwise fun event event' => ∀ outcome outcome',
    event.outcome = some outcome → outcome ≠ .unknown → event'.outcome = some outcome' →
      outcome' = outcome

end

section
variable {host : Host} {key : Key} {state state' : State}

theorem storedOutcome_congr {files files' : Files} (hclaim : files.claim = none ↔ files'.claim = none)
    (hresult : files'.result = files.result) :
    storedOutcome host key files' = storedOutcome host key files := by
  unfold storedOutcome lookup
  rw [hresult]
  cases h : files.claim <;> cases h' : files'.claim <;> simp [h, h'] at hclaim ⊢

theorem Keeps.stored {files : Files} {result : ResultRecord} (h : Keeps host key files result)
    (hclaim : files.claim ≠ none) (hkey : result.key = key) :
    (result.outcome ≠ .unknown →
      storedOutcome host key { files with result := some result } = result.outcome) ∧
    ∀ outcome, outcome ≠ .unknown → storedOutcome host key files = outcome →
      storedOutcome host key { files with result := some result } = outcome := by
  have hnew : result.outcome ≠ .unknown →
      storedOutcome host key { files with result := some result } = result.outcome := by
    intro hdefinite
    obtain ⟨claim, hclaim⟩ := Option.ne_none_iff_exists'.mp hclaim
    have hlookup : lookup host { files with result := some result } (.unknown key) = some result :=
      lookup_stored hclaim rfl (h.1 hdefinite) hkey
    simp [storedOutcome, hlookup]
  refine ⟨hnew, fun outcome hdefinite hstored => ?_⟩
  have hsame : result.outcome = outcome := (h.2 (hstored ▸ hdefinite)).trans hstored
  exact (hnew (hsame ▸ hdefinite)).trans hsame

namespace Agreed

variable {n : Nat} {phase : Phase}

section

variable (h : Agreed host key state)

include h

theorem claim_ne (hn : state.phases n = some phase) :
    state.files.claim ≠ none := by
  intro habsent
  rw [(h.absent habsent).2 n] at hn
  cases hn

theorem goes (hclaim : state.files.claim ≠ none)
    (hkeyed : ∀ result, phase.result = some result → result.key = key)
    (hheard : ∀ result, phase.heard = some result → result.outcome ≠ .unknown →
      storedOutcome host key state.files = result.outcome) :
    Agreed host key (state.at n phase) where
  absent habsent := absurd habsent hclaim
  stored := h.stored
  keyed m phase' result hm hresult := by
    rcases update_cases hm with hold | ⟨-, heq⟩
    · exact h.keyed m phase' result hold hresult
    · cases heq
      exact hkeyed result hresult
  heard m phase' result hm hresult hdefinite := by
    rcases update_cases hm with hold | ⟨-, heq⟩
    · exact h.heard m phase' result hold hresult hdefinite
    · cases heq
      exact hheard result hresult hdefinite
  answered := h.answered
  final := h.final

/-- A request goes on with the result that it had. -/
theorem keeps {before : Phase} (hn : state.phases n = some before)
    (hresult : ∀ result, phase.result = some result → before.result = some result)
    (hheard : ∀ result, phase.heard = some result → before.heard = some result) :
    Agreed host key (state.at n phase) :=
  h.goes (h.claim_ne hn) (fun result hr => h.keyed n before result hn (hresult result hr))
    fun result hr => h.heard n before result hn (hheard result hr)

theorem fewer {phases : Nat → Option Phase}
    (hphases : ∀ m phase, phases m = some phase → state.phases m = some phase) :
    Agreed host key { state with phases } where
  absent habsent := by
    refine ⟨(h.absent habsent).1, fun m => ?_⟩
    cases hm : phases m with
    | none => exact hm
    | some phase =>
      have hold := hphases m phase hm
      rw [(h.absent habsent).2 m] at hold
      cases hold
  stored := h.stored
  keyed m phase result hm := h.keyed m phase result (hphases m phase hm)
  heard m phase result hm := h.heard m phase result (hphases m phase hm)
  answered := h.answered
  final := h.final

theorem drops : Agreed host key (state.drop n) := by
  refine h.fewer fun m phase hm => ?_
  rcases update_cases hm with hold | ⟨-, heq⟩
  · exact hold
  · cases heq

theorem logs {event : Event}
    (hevent : ∀ outcome, event.outcome = some outcome →
      storedOutcome host key state.files = outcome) :
    Agreed host key (state.log event) where
  absent := h.absent
  stored := h.stored
  keyed := h.keyed
  heard := h.heard
  answered event' hmem outcome houtcome hdefinite := by
    rcases List.mem_append.mp hmem with hmem | hmem
    · exact h.answered event' hmem outcome houtcome hdefinite
    · cases List.mem_singleton.mp hmem
      exact hevent outcome houtcome
  final := by
    refine List.pairwise_append.mpr ⟨h.final, List.pairwise_singleton _ _, ?_⟩
    intro event' hmem last hlast outcome outcome' houtcome hdefinite houtcome'
    cases List.mem_singleton.mp hlast
    exact (hevent outcome' houtcome').symm.trans (h.answered event' hmem outcome houtcome hdefinite)

theorem stores {result : ResultRecord} {write : Write}
    (hclaim : state.files.claim ≠ none) (hkey : result.key = key)
    (hkeeps : write ≠ .failed → Keeps host key state.files result) :
    Agreed host key (state.stores result write) := by
  by_cases hwrite : write = .failed
  · subst hwrite
    exact h
  · have hstores : state.stores result write = state.store result := by
      cases write with
      | failed => exact absurd rfl hwrite
      | _ => rfl
    obtain ⟨-, hstored⟩ := (hkeeps hwrite).stored hclaim hkey
    rw [hstores]
    exact
      { absent := fun habsent => absurd habsent hclaim
        stored := fun stored heq => Option.some.inj heq ▸ hkey
        keyed := h.keyed
        heard := fun m phase heard hm hheard hdefinite =>
          hstored _ hdefinite (h.heard m phase heard hm hheard hdefinite)
        answered := fun event hmem outcome houtcome hdefinite =>
          hstored _ hdefinite (h.answered event hmem outcome houtcome hdefinite)
        final := h.final }

theorem claims {claim : ClaimFile} :
    Agreed host key (state.claim claim) := by
  have hstored : storedOutcome host key (state.claim claim).files =
      storedOutcome host key state.files := by
    cases hclaim : state.files.claim with
    | none =>
      have hresult := (h.absent hclaim).1
      simp [storedOutcome, lookup, State.claim, hclaim, hresult, Receipt.unknown,
        ResultRecord.unknown, ResultRecord.outcome]
    | some before => exact storedOutcome_congr (by simp [State.claim, hclaim]) rfl
  exact
    { absent := fun habsent => by cases habsent
      stored := h.stored
      keyed := h.keyed
      heard := fun m phase result hm hheard hdefinite =>
        hstored.trans (h.heard m phase result hm hheard hdefinite)
      answered := fun event hmem outcome houtcome hdefinite =>
        hstored.trans (h.answered event hmem outcome houtcome hdefinite)
      final := h.final }

end

end Agreed

theorem agreed_unused : Agreed host key unused where
  absent _ := ⟨rfl, fun _ => rfl⟩
  stored _ hresult := by cases hresult
  keyed _ _ _ hphase := by cases hphase
  heard _ _ _ hphase := by cases hphase
  answered _ hmem := by cases hmem
  final := .nil

theorem storedOutcome_of_lookup {files : Files} {result : ResultRecord}
    (h : lookup host files (.unknown key) = some result) :
    storedOutcome host key files = result.outcome := by
  simp [storedOutcome, h]

theorem stored_of_stores {result : ResultRecord} {write : Write}
    (hclaim : state.files.claim ≠ none) (hkey : result.key = key)
    (hkeeps : write ≠ .failed → Keeps host key state.files result) (hdone : write = .done)
    (hdefinite : result.outcome ≠ .unknown) :
    storedOutcome host key (state.stores result write).files = result.outcome := by
  subst hdone
  exact ((hkeeps (by simp)).stored hclaim hkey).1 hdefinite

theorem agreed_step (label : PromptLabel) (state state' : State) (h : Agreed host key state)
    (horderly : Orderly host key label state) (hstep : PromptStep host key label state state') :
    Agreed host key state' := by
  cases hstep with
  | submitNew hn habsent =>
    refine (h.claims.goes (by simp [State.claim]) ?_ ?_).logs ?_
    · exact fun _ hresult => by cases hresult
    · exact fun _ hheard => by cases hheard
    · exact fun _ houtcome => by cases houtcome
  | submitConflict => exact h.logs fun _ houtcome => by cases houtcome
  | submitExisting _ hclaim =>
    refine h.goes (by simp [hclaim]) ?_ ?_
    · exact fun _ hresult => by cases hresult
    · exact fun _ hheard => by cases hheard
  | lookupAbsent => exact h.logs fun _ houtcome => by cases houtcome
  | lookupFound _ hlookup =>
    refine h.goes ?_ ?_ ?_
    · intro hclaim
      rw [lookup_eq_none.mpr hclaim] at hlookup
      cases hlookup
    · rintro _ ⟨⟩
      exact lookup_key hlookup
    · rintro _ ⟨⟩ -
      exact storedOutcome_of_lookup hlookup
  | fail => exact h.logs fun _ houtcome => by cases houtcome
  | write hn =>
    refine h.claims.keeps hn ?_ ?_
    · exact fun _ hresult => by cases hresult
    · exact fun _ hheard => by cases hheard
  | writeFails => exact h.drops.logs fun _ houtcome => by cases houtcome
  | dispatch hn =>
    refine (h.keeps hn ?_ ?_).logs fun _ houtcome => by cases houtcome
    · exact fun _ hresult => by cases hresult
    · exact fun _ hheard => by cases hheard
  | returns hn =>
    refine h.goes (h.claim_ne hn) ?_ ?_
    · rintro _ ⟨⟩
      exact dispatchResult_key ..
    · exact fun _ hheard => by cases hheard
  | @finish n fingerprint result write _ hn =>
    have hclaim := h.claim_ne hn
    have hkey := h.keyed n _ result hn rfl
    have hkeeps := horderly fingerprint result hn
    refine (h.stores hclaim hkey hkeeps).goes ?_ ?_ ?_
    · rw [stores_claim]
      exact hclaim
    · rintro _ ⟨⟩
      split
      · exact hkey
      · exact hkey
    · rintro _ ⟨⟩ hdefinite
      split at hdefinite
      next hdone =>
        rw [if_pos hdone]
        exact stored_of_stores hclaim hkey hkeeps hdone hdefinite
      next => exact absurd rfl hdefinite
  | @read n asked _ hn =>
    cases hlookup : lookup host state.files (.unknown key) with
    | none => exact absurd (lookup_eq_none.mp hlookup) (h.claim_ne hn)
    | some result =>
      refine h.goes (h.claim_ne hn) ?_ ?_
      · rintro _ ⟨⟩
        exact lookup_key hlookup
      · rintro _ ⟨⟩ -
        exact storedOutcome_of_lookup hlookup
  | locate hn => exact h.keeps hn (fun _ hresult => hresult) fun _ hheard => hheard
  | check hn => exact h.keeps hn (fun _ hresult => hresult) fun _ hheard => hheard
  | @publish n asked result binding write _ hn =>
    have hclaim := h.claim_ne hn
    have hkey := h.keyed n _ result hn rfl
    have hkeeps := horderly asked result binding hn
    have hpublished : (published result binding).key = key := hkey
    refine (h.stores hclaim hpublished hkeeps).goes ?_ ?_ ?_
    · rw [stores_claim]
      exact hclaim
    · rintro _ ⟨⟩
      split
      · exact hkey
      · exact hkey
    · rintro _ ⟨⟩ hdefinite
      split at hdefinite
      next hdone =>
        rw [if_pos hdone]
        exact stored_of_stores hclaim hpublished hkeeps hdone hdefinite
      next hfailed =>
        rw [if_neg hfailed]
        have hstores : Agreed host key (state.stores (published result binding) write) :=
          h.stores hclaim hpublished hkeeps
        have hold : (state.stores (published result binding) write).phases n =
            some (.publishing asked result binding) := by cases write <;> exact hn
        exact hstores.heard n _ result hold rfl hdefinite
  | settle hn => exact h.keeps hn (fun _ hresult => hresult) fun _ hheard => hheard
  | outdated hn => exact h.keeps hn (fun _ hresult => hresult) fun _ hheard => hheard
  | @answer n asked result _ hn =>
    refine h.drops.logs ?_
    rintro _ ⟨⟩
    by_cases hdefinite : result.outcome = .unknown
    · rw [hdefinite]
      exact horderly asked result hn hdefinite
    · exact h.heard n _ result hn rfl hdefinite
  | abandon => exact h.drops
  | crash => exact h.fewer fun _ _ hphase => by cases hphase

/-- In every run the key is dispatched at most once, with the payload of its claim; a submit whose
payload is another one is not answered with a result, unless it found a claim that it could not read;
and no lookup answers not-found after the claim. In an orderly run, the answers with an outcome agree
from the first definite one on. -/
theorem prompt_attempts (h : (promptSystem host key).Reach state) :
    state.trace.countP Event.isDispatched ≤ 1 ∧
      (∀ claimed dispatched, .created claimed ∈ state.trace → .dispatched dispatched ∈ state.trace →
        dispatched = claimed) ∧
      (∀ claimed other result, .created claimed ∈ state.trace →
        .answered (.submit other false) (.result result) ∈ state.trace → other = claimed) ∧
      (state.trace.Pairwise fun event event' => event.showsClaim → ¬ event'.isNotFound) ∧
      (((promptSystem host key).restrict (Orderly host key)).Reach state →
        state.trace.Pairwise fun event event' => ∀ outcome outcome', event.outcome = some outcome →
          outcome ≠ .unknown → event'.outcome = some outcome' → outcome' = outcome) := by
  have htraced : Traced state := h.invariant (by rintro _ rfl; exact traced_unused) traced_step
  refine ⟨htraced.once, fun claimed dispatched hclaimed hdispatched =>
    htraced.created _ _ (htraced.dispatched dispatched hdispatched) hclaimed,
    fun claimed other result hclaimed hanswered =>
      htraced.created _ _ (htraced.answered other result hanswered) hclaimed,
    htraced.order, fun horderly => ?_⟩
  have hagreed : Agreed host key state := horderly.invariant
    (by rintro _ rfl; exact agreed_unused)
    fun label s t hs (hst : Orderly host key label s ∧ PromptStep host key label s t) =>
      agreed_step label s t hs hst.1 hst.2
  exact hagreed.final

end

/-! ## A confirmation that is lost -/

def sampleHost : Host := ⟨fun payload => payload.1, fun _ => true⟩

def sampleKey : Key := ⟨"session", "launch", "request"⟩

def samplePayload : String × Bool := ("continue", false)

def lostAcknowledgement : Response := ⟨409, .null⟩

def lostTrace : List Event :=
  [.created "continue", .dispatched "continue",
    .answered .lookup (.result (published (.unknown (.unknown sampleKey)) (some "turn", none))),
    .answered (.submit "continue" false)
      (.result (dispatchResult lostAcknowledgement none (.unknown sampleKey))),
    .answered .lookup (.result (dispatchResult lostAcknowledgement none (.unknown sampleKey)))]

theorem reach_lostTrace : ∃ state, (promptSystem sampleHost sampleKey).Reach state ∧
    state.trace = lostTrace := by
  have h := Lts.Reach.init (S := promptSystem sampleHost sampleKey) (s := unused) rfl
  have h := h.next (.submitNew rfl rfl : PromptStep _ _ (.submit 0 samplePayload) _ _)
  have h := h.next (.write rfl : PromptStep _ _ (.write 0) _ _)
  have h := h.next (.dispatch rfl : PromptStep _ _ (.dispatch 0) _ _)
  have h := h.next (.lookupFound rfl rfl : PromptStep _ _ (.lookup 1) _ _)
  have h := h.next (.locate rfl rfl : PromptStep _ _ (.locate 1 "turn" none) _ _)
  have h := h.next (.check rfl rfl : PromptStep _ _ (.check 1) _ _)
  have h := h.next (.publish rfl : PromptStep _ _ (.publish 1 .done) _ _)
  have h := h.next (.answer rfl : PromptStep _ _ (.answer 1) _ _)
  have h := h.next (.returns rfl : PromptStep _ _ (.returns 0 lostAcknowledgement none) _ _)
  have h := h.next (.finish rfl : PromptStep _ _ (.finish 0 .done) _ _)
  have h := h.next (.answer rfl : PromptStep _ _ (.answer 0) _ _)
  have h := h.next (.lookupFound rfl rfl : PromptStep _ _ (.lookup 2) _ _)
  have h := h.next (.settle rfl : PromptStep _ _ (.settle 2) _ _)
  have h := h.next (.answer rfl : PromptStep _ _ (.answer 2) _ _)
  exact ⟨_, h, rfl⟩

/-- A lookup answers submitted, and a later one unknown. -/
theorem confirmation_lost : ¬ ∀ state, (promptSystem sampleHost sampleKey).Reach state →
    state.trace.Pairwise fun event event' => ∀ outcome outcome', event.outcome = some outcome →
      outcome ≠ .unknown → event'.outcome = some outcome' → outcome' = outcome := by
  intro hfinal
  obtain ⟨state, hreach, htrace⟩ := reach_lostTrace
  have hpairs := hfinal state hreach
  rw [htrace] at hpairs
  have hlookups := List.pairwise_iff_getElem.mp hpairs 2 4 (by decide) (by decide) (by decide)
    .submitted .unknown rfl (by decide) rfl
  cases hlookups

/-- A response that the prompt was submitted. -/
def submittedResponse : Response := ⟨200, .object [("data", .object [("submitted", .bool true)])]⟩

def submittedResult : ResultRecord := dispatchResult submittedResponse none (.unknown sampleKey)

/-- A submit, and a lookup after it. -/
def submittedTrace : List Event :=
  [.created "continue", .dispatched "continue",
    .answered (.submit "continue" false) (.result submittedResult),
    .answered .lookup (.result submittedResult)]

theorem orderly_next {state state' : State} (label : PromptLabel)
    (h : ((promptSystem sampleHost sampleKey).restrict (Orderly sampleHost sampleKey)).Reach state)
    (horderly : Orderly sampleHost sampleKey label state)
    (hstep : PromptStep sampleHost sampleKey label state state') :
    ((promptSystem sampleHost sampleKey).restrict (Orderly sampleHost sampleKey)).Reach state' :=
  h.next ⟨horderly, hstep⟩

theorem reach_submittedTrace : ∃ state : State,
    ((promptSystem sampleHost sampleKey).restrict (Orderly sampleHost sampleKey)).Reach state ∧
      state.trace = submittedTrace := by
  have h := Lts.Reach.init (s := unused)
    (S := (promptSystem sampleHost sampleKey).restrict (Orderly sampleHost sampleKey)) rfl
  have h := orderly_next (.submit 0 samplePayload) h trivial (.submitNew rfl rfl)
  have h := orderly_next (.write 0) h trivial (.write rfl)
  have h := orderly_next (.dispatch 0) h trivial (.dispatch rfl)
  have h := orderly_next (.returns 0 submittedResponse none) h trivial (.returns rfl)
  have h := orderly_next (.finish 0 .done) h
    (fun _ _ _ _ => ⟨fun _ => rfl, fun hdefinite => absurd rfl hdefinite⟩) (.finish rfl)
  have h := orderly_next (.answer 0) h
    (fun _ _ hphase hunknown => by cases hphase; cases hunknown) (.answer rfl)
  have h := orderly_next (.lookup 1) h trivial (.lookupFound rfl rfl)
  have h := orderly_next (.settle 1) h trivial (.settle rfl)
  have h := orderly_next (.answer 1) h
    (fun _ _ hphase hunknown => by cases hphase; cases hunknown) (.answer rfl)
  exact ⟨_, h, rfl⟩

theorem prompt_attempts_sample : submittedTrace.countP Event.isDispatched ≤ 1 ∧
    submittedTrace.Pairwise fun event event' => ∀ outcome outcome', event.outcome = some outcome →
      outcome ≠ .unknown → event'.outcome = some outcome' → outcome' = outcome := by
  obtain ⟨state, hreach, htrace⟩ := reach_submittedTrace
  rw [← htrace]
  obtain ⟨honce, -, -, -, hfinal⟩ := prompt_attempts hreach.of_restrict
  exact ⟨honce, hfinal hreach⟩

end NilsCli.Prompts
