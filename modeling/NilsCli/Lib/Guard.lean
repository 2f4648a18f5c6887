import Mathlib.Logic.Basic

/-!
# Guards of fallible code

Fallible code is `Except ε`. A guard that returns early is `ensure`, a lookup that must succeed
is `orErr`; the lemmas take a successful run apart into what each guard saw.
-/

namespace Lib

variable {ε α β : Type}

/-- Fails with `e` unless `c` holds. -/
def ensure (c : Prop) [Decidable c] (e : ε) : Except ε Unit := if c then .ok () else .error e

/-- The value of a lookup, or `e`. -/
def orErr (o : Option α) (e : ε) : Except ε α :=
  match o with
  | some a => .ok a
  | none => .error e

theorem bind_eq_ok {m : Except ε α} {f : α → Except ε β} {b : β} :
    (m >>= f) = .ok b ↔ ∃ a, m = .ok a ∧ f a = .ok b := by
  cases m with
  | error e => simp [bind, Except.bind]
  | ok a => simp [bind, Except.bind]

theorem bind_eq_error {m : Except ε α} {f : α → Except ε β} {e : ε} :
    (m >>= f) = .error e ↔ m = .error e ∨ ∃ a, m = .ok a ∧ f a = .error e := by
  cases m with
  | error e' => simp [bind, Except.bind]
  | ok a => simp [bind, Except.bind]

theorem ensure_eq_error {c : Prop} [Decidable c] {e e' : ε} (h : ensure c e = .error e') :
    e' = e := by
  unfold ensure at h
  split at h <;> cases h
  rfl

theorem ensure_eq_ok {c : Prop} [Decidable c] {e : ε} {u : Unit} :
    ensure c e = .ok u ↔ c := by
  unfold ensure; split <;> simp_all

theorem ensure_bind_ok {c : Prop} [Decidable c] {e : ε} {f : Unit → Except ε β} {b : β} :
    (ensure c e >>= f) = .ok b ↔ c ∧ f () = .ok b := by
  rw [bind_eq_ok]
  constructor
  · rintro ⟨u, hu, h⟩
    exact ⟨ensure_eq_ok.mp hu, h⟩
  · rintro ⟨hc, h⟩
    exact ⟨(), ensure_eq_ok.mpr hc, h⟩

theorem orErr_eq_ok {o : Option α} {e : ε} {a : α} : orErr o e = .ok a ↔ o = some a := by
  cases o <;> simp [orErr]

theorem orErr_bind_ok {o : Option α} {e : ε} {f : α → Except ε β} {b : β} :
    (orErr o e >>= f) = .ok b ↔ ∃ a, o = some a ∧ f a = .ok b := by
  simp [bind_eq_ok, orErr_eq_ok]

theorem mem_of_mapM_eq_ok {f : α → Except ε β} {xs : List α} {ys : List β}
    (h : xs.mapM f = .ok ys) {y : β} (hy : y ∈ ys) : ∃ x ∈ xs, f x = .ok y := by
  induction xs generalizing ys with
  | nil =>
    rw [List.mapM_nil] at h
    cases h
    cases hy
  | cons x xs ih =>
    rw [List.mapM_cons, bind_eq_ok] at h
    obtain ⟨b, hb, h⟩ := h
    rw [bind_eq_ok] at h
    obtain ⟨bs, hbs, h⟩ := h
    cases h
    rcases List.mem_cons.mp hy with rfl | hy
    · exact ⟨x, by simp, hb⟩
    · obtain ⟨x', hx', h'⟩ := ih hbs hy
      exact ⟨x', by simp [hx'], h'⟩

theorem ok_of_toOption {m : Except ε α} {a : α} (h : m.toOption = some a) : m = .ok a := by
  cases m with
  | error e => cases h
  | ok a' => exact congrArg _ (Option.some.inj h)

theorem error_of_toOption {m : Except ε α} (h : m.toOption = none) : ∃ e, m = .error e := by
  cases m with
  | error e => exact ⟨e, rfl⟩
  | ok a => cases h

theorem ok_bind {a : α} {f : α → Except ε β} : (Except.ok a >>= f) = f a := rfl

theorem mapM_eq_ok_map {α : Type} {f : α → Except ε β} {g : α → β} {xs : List α}
    (h : ∀ x ∈ xs, f x = .ok (g x)) : xs.mapM f = .ok (xs.map g) := by
  induction xs with
  | nil => rfl
  | cons x xs ih =>
    rw [List.mapM_cons, h x List.mem_cons_self, ih fun y hy => h y (List.mem_cons_of_mem _ hy)]
    rfl

end Lib
