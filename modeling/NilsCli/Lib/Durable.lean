import Mathlib.Logic.Basic

/-!
# Computations on a durable store

A fallible computation that writes a durable store, one write after another, and may be interrupted
after any of them.
-/

namespace Lib

def Durable (σ ε α : Type) : Type := σ → List σ × Except ε α

namespace Durable

variable {σ ε α β : Type}

/-- The store after these writes. -/
def lastOf (trace : List σ) (s : σ) : σ := trace.getLast?.getD s

def ret (a : α) : Durable σ ε α := fun _ => ([], .ok a)

def bindTo (m : Durable σ ε α) (f : α → Durable σ ε β) : Durable σ ε β := fun s =>
  match m s with
  | (trace, .error e) => (trace, .error e)
  | (trace, .ok a) => (trace ++ (f a (lastOf trace s)).1, (f a (lastOf trace s)).2)

instance : Monad (Durable σ ε) where
  pure := ret
  bind := bindTo

/-- The store as it is. -/
def load : Durable σ ε σ := fun s => ([], .ok s)

/-- One durable write. -/
def write (f : σ → σ) : Durable σ ε Unit := fun s => ([f s], .ok ())

/-- The computation ends here, with this result. -/
def lift (result : Except ε α) : Durable σ ε α := fun _ => ([], result)

def cleaning (m : Durable σ ε α) (f : σ → σ) : Durable σ ε α := fun s =>
  match m s with
  | (trace, .error e) => (trace ++ [f (lastOf trace s)], .error e)
  | (trace, .ok a) => (trace, .ok a)

/-- The store that an uninterrupted run leaves. -/
def after (m : Durable σ ε α) (s : σ) : σ := lastOf (m s).1 s

/-- What an uninterrupted run returns. -/
def result (m : Durable σ ε α) (s : σ) : Except ε α := (m s).2

def Stops (m : Durable σ ε α) (s t : σ) : Prop := t = s ∨ t ∈ (m s).1

theorem stops_after (m : Durable σ ε α) (s : σ) : m.Stops s (m.after s) := by
  unfold Stops after lastOf
  cases h : (m s).1.getLast? with
  | none => exact .inl rfl
  | some t => exact .inr (List.mem_of_getLast? h)

/-! ## Runs -/

theorem bind_apply_of_eq {m : Durable σ ε α} {f : α → Durable σ ε β} {s : σ} {a : α}
    (h : m s = ([], .ok a)) : (m >>= f) s = f a s := by
  show bindTo m f s = f a s
  simp [bindTo, h, lastOf]

theorem load_bind_apply (f : σ → Durable σ ε β) (s : σ) : (load >>= f) s = f s s :=
  bind_apply_of_eq rfl

theorem lastOf_append (trace trace' : List σ) (s : σ) :
    lastOf (trace ++ trace') s = lastOf trace' (lastOf trace s) := by
  unfold lastOf
  rw [List.getLast?_append]
  cases trace'.getLast? <;> rfl

theorem bind_of_result {m : Durable σ ε α} {f : α → Durable σ ε β} {s : σ} {a : α}
    (h : m.result s = .ok a) :
    (m >>= f).result s = (f a).result (m.after s) ∧
      (m >>= f).after s = (f a).after (m.after s) := by
  unfold result at h
  show (bindTo m f s).2 = _ ∧ lastOf (bindTo m f s).1 s = _
  unfold bindTo result after
  cases hrun : m s with
  | mk trace outcome =>
    rw [hrun] at h
    obtain rfl : outcome = .ok a := h
    exact ⟨rfl, lastOf_append _ _ _⟩

/-! ## Triples -/

/-- The result and the store satisfy the postcondition of success or that of failure. -/
def Ends (Q : α → σ → Prop) (E : ε → σ → Prop) (result : Except ε α) (s : σ) : Prop :=
  match result with
  | .ok a => Q a s
  | .error e => E e s

def Triple (P : σ → Prop) (m : Durable σ ε α) (Q : α → σ → Prop) (E : ε → σ → Prop)
    (C : σ → Prop) : Prop := ∀ s, P s → (∀ t ∈ (m s).1, C t) ∧ Ends Q E (m s).2 (m.after s)

variable {P P' : σ → Prop} {Q Q' : α → σ → Prop} {E : ε → σ → Prop} {C : σ → Prop}
  {m : Durable σ ε α}

theorem Triple.ret {a : α} (h : ∀ s, P s → Q a s) :
    Triple P (pure a : Durable σ ε α) Q E C := fun s hs =>
  ⟨by simp [pure, Durable.ret], h s hs⟩

theorem Triple.lift {r : Except ε α} (h : ∀ s, P s → Ends Q E r s) :
    Triple P (Durable.lift r) Q E C := fun s hs =>
  ⟨by simp [Durable.lift], h s hs⟩

theorem Triple.of_run {s : σ} {trace : List σ} {a : α} (h : m s = (trace, .ok a))
    (hC : ∀ t ∈ trace, C t) (hQ : Q a (lastOf trace s)) : Triple (· = s) m Q E C := by
  rintro t rfl
  rw [after, h]
  exact ⟨hC, hQ⟩

theorem Triple.bind_of_eq {Q : β → σ → Prop} {f : α → Durable σ ε β} {s : σ} {a : α}
    (hm : m s = ([], .ok a)) (hf : Triple (· = s) (f a) Q E C) :
    Triple (· = s) (m >>= f) Q E C := by
  rintro t rfl
  rw [after, bind_apply_of_eq hm]
  exact hf t rfl

theorem Triple.load_bind {s : σ} {f : σ → Durable σ ε α} (h : Triple (· = s) (f s) Q E C) :
    Triple (· = s) (load >>= f) Q E C := .bind_of_eq rfl h

theorem Triple.each (h : ∀ s, P s → Triple (· = s) m Q E C) : Triple P m Q E C :=
  fun s hs => h s hs s rfl

theorem Triple.write {f : σ → σ} {Q : Unit → σ → Prop} (h : ∀ s, P s → C (f s) ∧ Q () (f s)) :
    Triple P (Durable.write f : Durable σ ε Unit) Q E C := fun s hs =>
  ⟨by simpa [Durable.write] using (h s hs).1, (h s hs).2⟩

theorem Triple.bind {R : α → σ → Prop} {Q : β → σ → Prop} {f : α → Durable σ ε β}
    (hm : Triple P m R E C) (hf : ∀ a, Triple (R a) (f a) Q E C) :
    Triple P (m >>= f) Q E C := by
  intro s hs
  obtain ⟨htrace, hend⟩ := hm s hs
  show (∀ t ∈ (bindTo m f s).1, C t) ∧ Ends Q E (bindTo m f s).2 (lastOf (bindTo m f s).1 s)
  unfold bindTo
  cases hrun : m s with
  | mk trace outcome =>
    rw [hrun] at htrace
    have hafter : m.after s = lastOf trace s := by rw [after, hrun]
    rw [hrun, hafter] at hend
    cases outcome with
    | error e => exact ⟨htrace, hend⟩
    | ok a =>
      obtain ⟨htrace', hend'⟩ := hf a (lastOf trace s) hend
      refine ⟨fun t ht => ?_, ?_⟩
      · rcases List.mem_append.mp ht with ht | ht
        · exact htrace t ht
        · exact htrace' t ht
      · rw [lastOf_append]
        exact hend'

theorem Triple.trivial :
    Triple P m (fun _ _ => True) (fun _ _ => True) (fun _ => True) := fun s _ =>
  ⟨fun _ _ => True.intro, by unfold Ends; split <;> exact True.intro⟩

/-- A check that fails ends the computation. -/
theorem Triple.lift_bind {r : Except ε β} {f : β → Durable σ ε α} (hE : ∀ e s, P s → E e s)
    (h : ∀ b, r = .ok b → Triple P (f b) Q E C) : Triple P (Durable.lift r >>= f) Q E C := by
  cases r with
  | error e => exact fun s hs => ⟨by rintro t ⟨⟩, hE e s hs⟩
  | ok b =>
    intro s hs
    rw [after, bind_apply_of_eq (m := Durable.lift (.ok b)) rfl]
    exact h b rfl s hs

theorem Triple.cleaning {f : σ → σ} {E' : ε → σ → Prop} (h : Triple P m Q E' C)
    (hf : ∀ e s, E' e s → C (f s) ∧ E e (f s)) : Triple P (m.cleaning f) Q E C := by
  intro s hs
  obtain ⟨htrace, hend⟩ := h s hs
  unfold after Durable.cleaning
  unfold after at hend
  cases hrun : m s with
  | mk trace outcome =>
    rw [hrun] at htrace hend
    cases outcome with
    | ok a => exact ⟨htrace, hend⟩
    | error e =>
      obtain ⟨hC, hE⟩ := hf e _ hend
      refine ⟨fun t ht => ?_, ?_⟩
      · rcases List.mem_append.mp ht with ht | ht
        · exact htrace t ht
        · rw [List.mem_singleton.mp ht]
          exact hC
      · show E e (lastOf (trace ++ [f (lastOf trace s)]) s)
        rw [lastOf_append]
        exact hE

/-- A stronger precondition and weaker postconditions. -/
theorem Triple.weaken {E' : ε → σ → Prop} {C' : σ → Prop} (h : Triple P m Q E C)
    (hP : ∀ s, P' s → P s) (hQ : ∀ a s, Q a s → Q' a s) (hE : ∀ e s, E e s → E' e s)
    (hC : ∀ s, C s → C' s) : Triple P' m Q' E' C' := by
  intro s hs
  obtain ⟨htrace, hend⟩ := h s (hP s hs)
  refine ⟨fun t ht => hC t (htrace t ht), ?_⟩
  unfold Ends at hend ⊢
  split at hend
  · exact hQ _ _ hend
  · exact hE _ _ hend

theorem Triple.stops (h : Triple P m Q E C) {s t : σ} (hs : P s) (hC : C s)
    (ht : m.Stops s t) : C t := by
  rcases ht with rfl | ht
  · exact hC
  · exact (h s hs).1 t ht

theorem Triple.ends (h : Triple P m Q E C) {s : σ} (hs : P s) :
    Ends Q E (m.result s) (m.after s) := (h s hs).2

/-! ## Invariants of a computation -/

def Keeps (I : σ → Prop) (m : Durable σ ε α) : Prop :=
  Triple I m (fun _ => I) (fun _ => I) I

variable {I : σ → Prop}

theorem Keeps.ret (a : α) : Keeps I (pure a : Durable σ ε α) := Triple.ret fun _ hs => hs

theorem Keeps.lift (r : Except ε α) : Keeps I (Durable.lift r : Durable σ ε α) := by
  refine Triple.lift fun s hs => ?_
  cases r with
  | ok a => exact hs
  | error e => exact hs

theorem Keeps.write {f : σ → σ} (h : ∀ s, I s → I (f s)) :
    Keeps I (Durable.write f : Durable σ ε Unit) := Triple.write fun s hs => ⟨h s hs, h s hs⟩

theorem Keeps.bind {f : α → Durable σ ε β} (hm : Keeps I m) (hf : ∀ a, Keeps I (f a)) :
    Keeps I (m >>= f) := Triple.bind hm hf

theorem Keeps.load_bind {f : σ → Durable σ ε α} (h : ∀ s, I s → Triple (· = s) (f s)
    (fun _ => I) (fun _ => I) I) : Keeps I (load >>= f) :=
  Triple.each fun s hs => .load_bind (h s hs)

/-- A check that fails ends the computation. -/
theorem Keeps.lift_bind {r : Except ε β} {f : β → Durable σ ε α}
    (h : ∀ b, r = .ok b → Keeps I (f b)) : Keeps I (Durable.lift r >>= f) :=
  Triple.lift_bind (fun _ _ hs => hs) h

theorem Keeps.ite {c : Prop} [Decidable c] {m' : Durable σ ε α} (h : Keeps I m)
    (h' : Keeps I m') : Keeps I (if c then m else m') := by
  split
  · exact h
  · exact h'

theorem Keeps.at (h : Keeps I m) {s : σ} (hs : I s) :
    Triple (· = s) m (fun _ => I) (fun _ => I) I := by
  rintro t rfl
  exact h t hs

theorem Keeps.stops (h : Keeps I m) {s t : σ} (hs : I s) (ht : m.Stops s t) : I t :=
  Triple.stops h hs hs ht

theorem Keeps.after (h : Keeps I m) {s : σ} (hs : I s) : I (m.after s) :=
  h.stops hs (m.stops_after s)

/-! ## One write after another -/

/-- Each store of the trace is related to the one before it, the first one to `s`. -/
def Linked (R : σ → σ → Prop) : σ → List σ → Prop
  | _, [] => True
  | s, t :: trace => R s t ∧ Linked R t trace

theorem Linked.append {R : σ → σ → Prop} {s : σ} {trace trace' : List σ} (h : Linked R s trace)
    (h' : Linked R (lastOf trace s) trace') : Linked R s (trace ++ trace') := by
  induction trace generalizing s with
  | nil => exact h'
  | cons t trace ih =>
    refine ⟨h.1, ih h.2 ?_⟩
    have hlast : lastOf (t :: trace) s = lastOf trace t := by
      unfold lastOf
      rw [List.getLast?_cons]
      rfl
    rwa [hlast] at h'

theorem Linked.take {R : σ → σ → Prop} {s : σ} {trace : List σ} (h : Linked R s trace) (k : Nat) :
    Linked R s (trace.take k) := by
  induction trace generalizing s k with
  | nil => simpa using h
  | cons t trace ih =>
    cases k with
    | zero => trivial
    | succ k => exact ⟨h.1, ih h.2 k⟩

def Writes (R : σ → σ → Prop) (s : σ) (m : Durable σ ε α) : Prop := Linked R s (m s).1

section
variable {R : σ → σ → Prop} {s : σ}

theorem Writes.of_eq {r : Except ε α} (h : m s = ([], r)) : Writes R s m := by
  unfold Writes
  rw [h]
  trivial

theorem Writes.ret (a : α) : Writes R s (pure a : Durable σ ε α) := .of_eq rfl

theorem Writes.lift (r : Except ε α) : Writes R s (Durable.lift r : Durable σ ε α) := .of_eq rfl

theorem Writes.write {f : σ → σ} (h : R s (f s)) :
    Writes R s (Durable.write f : Durable σ ε Unit) := ⟨h, trivial⟩

theorem Writes.bind {f : α → Durable σ ε β} (hm : Writes R s m)
    (hf : ∀ a, m.result s = .ok a → Writes R (m.after s) (f a)) : Writes R s (m >>= f) := by
  unfold Writes at hm
  show Linked R s (bindTo m f s).1
  unfold bindTo
  cases hrun : m s with
  | mk trace outcome =>
    rw [hrun] at hm
    cases outcome with
    | error e => exact hm
    | ok a =>
      have hafter : m.after s = lastOf trace s := by rw [after, hrun]
      have hresult : m.result s = .ok a := by rw [result, hrun]
      have hrest := hf a hresult
      rw [hafter] at hrest
      exact Linked.append hm hrest

theorem Writes.load_bind {f : σ → Durable σ ε α} (h : Writes R s (f s)) :
    Writes R s (load >>= f) :=
  .bind (.of_eq rfl) fun a ha => by
    cases ha
    exact h

theorem Writes.lift_bind {r : Except ε β} {f : β → Durable σ ε α}
    (h : ∀ b, r = .ok b → Writes R s (f b)) : Writes R s (Durable.lift r >>= f) :=
  .bind (.lift r) fun b hb => h b hb

theorem Writes.write_bind {g : σ → σ} {f : Unit → Durable σ ε α} (hg : R s (g s))
    (h : Writes R (g s) (f ())) : Writes R s (Durable.write g >>= f) :=
  .bind (.write hg) fun _ _ => h

theorem Writes.ite {c : Prop} [Decidable c] {m' : Durable σ ε α} (h : c → Writes R s m)
    (h' : ¬ c → Writes R s m') : Writes R s (if c then m else m') := by
  split
  · exact h ‹_›
  · exact h' ‹_›

end

end Durable

end Lib
