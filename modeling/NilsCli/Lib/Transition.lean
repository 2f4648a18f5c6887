import Mathlib.Logic.Relation

/-!
# Labelled transition systems

A system has states, initial states and steps, each with a label that says what happened.
-/

namespace Lib

/-- A labelled transition system. -/
structure Lts where
  State : Type
  Label : Type
  init : State → Prop
  step : Label → State → State → Prop

namespace Lts

variable (S : Lts)

inductive Run : List S.Label → S.State → S.State → Prop
  | nil (s : S.State) : Run [] s s
  | snoc {ls : List S.Label} {s t u : S.State} (l : S.Label) :
      Run ls s t → S.step l t u → Run (ls ++ [l]) s u

def Reach (t : S.State) : Prop := ∃ s ls, S.init s ∧ S.Run ls s t

def restrict (P : S.Label → S.State → Prop) : Lts where
  State := S.State
  Label := S.Label
  init := S.init
  step l s t := P l s ∧ S.step l s t

variable {S}

theorem Run.append {ls ls' : List S.Label} {s t u : S.State} (h : S.Run ls s t)
    (h' : S.Run ls' t u) : S.Run (ls ++ ls') s u := by
  induction h' with
  | nil => simpa using h
  | snoc l _ hst ih => rw [← List.append_assoc]; exact .snoc l (ih h) hst

theorem Run.single {l : S.Label} {s t : S.State} (h : S.step l s t) : S.Run [l] s t :=
  .snoc l (.nil s) h

theorem Run.of_foldlM {f : S.State → S.Label → Option S.State}
    (hf : ∀ s l t, f s l = some t → S.step l s t) {ls : List S.Label} {s t : S.State}
    (h : ls.foldlM f s = some t) : S.Run ls s t := by
  induction ls generalizing s with
  | nil =>
    cases h
    exact .nil _
  | cons l ls ih =>
    rw [List.foldlM_cons, Option.bind_eq_bind, Option.bind_eq_some_iff] at h
    obtain ⟨u, hu, h⟩ := h
    exact (Run.single (hf s l u hu)).append (ih h)

theorem Run.of_restrict {P : S.Label → S.State → Prop} {ls : List (S.restrict P).Label}
    {s t : (S.restrict P).State} (h : (S.restrict P).Run ls s t) : S.Run ls s t := by
  induction h with
  | nil s => exact @Run.nil S s
  | snoc l _ hst ih => exact @Run.snoc S _ _ _ _ l ih hst.2

theorem Run.restrict {P : S.Label → S.State → Prop} {ls : List S.Label} {s t : S.State}
    (h : S.Run ls s t) (hP : ∀ l ∈ ls, ∀ u, P l u) : (S.restrict P).Run ls s t := by
  induction h with
  | nil s => exact @Run.nil (S.restrict P) s
  | snoc l _ hst ih =>
    refine @Run.snoc (S.restrict P) _ _ _ _ l (ih fun l' hl' => hP l' (by simp [hl'])) ?_
    exact ⟨hP l (by simp) _, hst⟩

theorem Reach.of_restrict {P : S.Label → S.State → Prop} {t : S.State}
    (h : (S.restrict P).Reach t) : S.Reach t := by
  obtain ⟨s, ls, hs, hr⟩ := h
  exact ⟨s, ls, hs, hr.of_restrict⟩

theorem Reach.init {s : S.State} (h : S.init s) : S.Reach s := ⟨s, [], h, .nil s⟩

theorem Reach.run {s t : S.State} {ls : List S.Label} (h : S.Reach s) (hr : S.Run ls s t) :
    S.Reach t := by
  obtain ⟨s₀, ls₀, h₀, hr₀⟩ := h
  exact ⟨s₀, ls₀ ++ ls, h₀, hr₀.append hr⟩

theorem Reach.next {s t : S.State} {l : S.Label} (h : S.Reach s) (hst : S.step l s t) :
    S.Reach t := h.run (.single hst)

theorem Reach.of_foldlM {β : Type} {f : S.State → β → Option S.State}
    (hf : ∀ s b t, f s b = some t → ∃ l, S.step l s t) {bs : List β} {s t : S.State}
    (h : bs.foldlM f s = some t) (hs : S.Reach s) : S.Reach t := by
  induction bs generalizing s with
  | nil =>
    cases h
    exact hs
  | cons b bs ih =>
    rw [List.foldlM_cons, Option.bind_eq_bind, Option.bind_eq_some_iff] at h
    obtain ⟨u, hu, h⟩ := h
    obtain ⟨l, hstep⟩ := hf s b u hu
    exact ih h (hs.next hstep)

/-- A property that every step keeps holds along a run. -/
theorem Run.preserves {I : S.State → Prop} (hI : ∀ l s t, I s → S.step l s t → I t)
    {ls : List S.Label} {s t : S.State} (hr : S.Run ls s t) (hs : I s) : I t := by
  induction hr with
  | nil => exact hs
  | snoc l _ hst ih => exact hI l _ _ (ih hs) hst

/-- An inductive invariant holds in every reachable state. -/
theorem Reach.invariant {I : S.State → Prop} (h₀ : ∀ s, S.init s → I s)
    (hI : ∀ l s t, I s → S.step l s t → I t) {t : S.State} (h : S.Reach t) : I t := by
  obtain ⟨s, ls, hs, hr⟩ := h
  exact hr.preserves hI (h₀ s hs)

theorem Run.relates {I : S.State → Prop} {R : S.State → S.State → Prop}
    (hI : ∀ l s t, I s → S.step l s t → I t) (hrefl : ∀ s, R s s)
    (htrans : ∀ s t u, R s t → R t u → R s u) (hR : ∀ l s t, I s → S.step l s t → R s t)
    {ls : List S.Label} {s t : S.State} (hr : S.Run ls s t) (hs : I s) : R s t := by
  induction hr with
  | nil => exact hrefl _
  | snoc l hr' hst ih => exact htrans _ _ _ (ih hs) (hR l _ _ (hr'.preserves hI hs) hst)

theorem Run.keeps_or {I P : S.State → Prop} {Q : S.Label → S.State → Prop}
    (hI : ∀ l s t, I s → S.step l s t → I t)
    (hP : ∀ l s t, I s → P s → S.step l s t → P t ∨ Q l s) {ls : List S.Label} {s t : S.State}
    (hr : S.Run ls s t) (hs : I s) (hPs : P s) : P t ∨ ∃ before l after u,
      ls = before ++ l :: after ∧ S.Run before s u ∧ Q l u := by
  induction hr with
  | nil => exact .inl hPs
  | @snoc ls s t u l hr hst ih =>
    rcases ih hs hPs with hPt | ⟨before, l', after, v, rfl, hv, hq⟩
    · rcases hP l t u (hr.preserves hI hs) hPt hst with hPu | hq
      · exact .inl hPu
      · exact .inr ⟨ls, l, [], t, rfl, hr, hq⟩
    · exact .inr ⟨before, l', after ++ [l], v, by simp, hv, hq⟩

end Lts

/-! ## Interrupted calls -/

section

variable {σ : Type}

inductive Interrupted : List (σ → σ) → σ → σ → Prop
  | stop (ws : List (σ → σ)) (s : σ) : Interrupted ws s s
  | write {w : σ → σ} {ws : List (σ → σ)} {s t : σ} :
      Interrupted ws (w s) t → Interrupted (w :: ws) s t

/-- The store after all the writes. -/
def writeAll (ws : List (σ → σ)) (s : σ) : σ := ws.foldl (fun s w => w s) s

def HoldsThroughout (I : σ → Prop) : List (σ → σ) → σ → Prop
  | [], s => I s
  | w :: ws, s => I s ∧ HoldsThroughout I ws (w s)

theorem HoldsThroughout.start {I : σ → Prop} {ws : List (σ → σ)} {s : σ}
    (h : HoldsThroughout I ws s) : I s := by
  cases ws with
  | nil => exact h
  | cons w ws => exact h.1

theorem Interrupted.holds {I : σ → Prop} {ws : List (σ → σ)} {s t : σ} (h : Interrupted ws s t)
    (hI : HoldsThroughout I ws s) : I t := by
  induction h with
  | stop ws s => exact hI.start
  | write _ ih => exact ih hI.2

theorem interrupted_writeAll (ws : List (σ → σ)) (s : σ) : Interrupted ws s (writeAll ws s) := by
  induction ws generalizing s with
  | nil => exact .stop [] s
  | cons w ws ih => exact .write (ih (w s))

/-- A call that stops after its first `k` writes. -/
theorem interrupted_take (k : Nat) (ws : List (σ → σ)) (s : σ) :
    Interrupted ws s (writeAll (ws.take k) s) := by
  induction k generalizing ws s with
  | zero => exact .stop ws s
  | succ k ih =>
    cases ws with
    | nil => exact .stop [] s
    | cons w ws => exact .write (ih ws (w s))

end

end Lib
