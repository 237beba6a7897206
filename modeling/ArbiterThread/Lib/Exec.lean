import Mathlib.Tactic.Common

/-!
# Programs with State and Faults

A program that reads and writes a state and may stop with a fault, and the
rules for reasoning about one.

The programs themselves are Lean's own `EStateM`: a run either returns a
value together with the state it left, or stops with a fault *and* the state
in which it stopped. Keeping the second state is the point. A process that
aborts or blocks in the middle of a call leaves something behind, and several
properties are about exactly that.

`wp` is the weakest precondition for both exits. It is a definition by cases
on the run rather than a relation, so each program constructor has an
equation, and a straight-line program is executed symbolically by rewriting
with those equations.

`Keeps` is the relational form, for facts that compare the state before with
the state after. A frame condition is a relation that is reflexive and
transitive, and for such relations the rules close under every constructor,
so a long program keeps a relation as soon as its primitive steps do.

## Main definitions

* `wp`: The weakest precondition of a program for a normal and a faulting
  exit.
* `Keeps`: Every run relates the state before it to the state after it, and
  stops with expected faults only.

## Theorems

* `wp_pure`, `wp_bind`, `wp_throw`, `wp_get`, `wp_set`, `wp_modify`, `wp_ite`:
  The equations of `wp`.
* `wp_mono`, `wp_imp`: The rule of consequence.
* `wp_and`: Two postconditions proved of one run hold together.
* `wp_of_forall`: A postcondition that always holds is always reached.
* `wp_run`: Reading a postcondition back off a run that returned.
* `wp_twice`: Two runs from one state are one.
* `exists_ok`: A run without faults returns.
* `wp_eq`: What a run returned may be assumed while proving the rest.
* `bind_eq_ok`: A run of a sequence that returned splits in two.
* `Keeps.pure`, `Keeps.bind`, `Keeps.ite`: Frame rules for each constructor.
-/

namespace Exec

variable {ε σ α β : Type}

/-- The weakest precondition for both exits of a program: `Q` of the value and
    state it returns, or `E` of the fault it stops with and the state in which
    it stopped. -/
def wp (x : EStateM ε σ α) (Q : α → σ → Prop) (E : ε → σ → Prop) (s : σ) : Prop :=
  match x s with
  | .ok a s' => Q a s'
  | .error e s' => E e s'

section Equations

variable (Q : α → σ → Prop) (E : ε → σ → Prop) (s : σ)

@[simp] theorem wp_pure (a : α) : wp (pure a : EStateM ε σ α) Q E s ↔ Q a s :=
  Iff.rfl

@[simp] theorem wp_throw (e : ε) : wp (throw e : EStateM ε σ α) Q E s ↔ E e s :=
  Iff.rfl

@[simp] theorem wp_get (Q : σ → σ → Prop) : wp (get : EStateM ε σ σ) Q E s ↔ Q s s :=
  Iff.rfl

@[simp] theorem wp_set (Q : PUnit → σ → Prop) (t : σ) :
    wp (set t : EStateM ε σ PUnit) Q E s ↔ Q ⟨⟩ t :=
  Iff.rfl

@[simp] theorem wp_modify (Q : PUnit → σ → Prop) (f : σ → σ) :
    wp (modify f : EStateM ε σ PUnit) Q E s ↔ Q ⟨⟩ (f s) :=
  Iff.rfl

@[simp] theorem wp_bind (x : EStateM ε σ β) (f : β → EStateM ε σ α) :
    wp (x >>= f) Q E s ↔ wp x (fun b s' => wp (f b) Q E s') E s := by
  simp only [wp, bind, EStateM.bind]
  cases x s with
  | ok b s' => rfl
  | error e s' => rfl

@[simp] theorem wp_ite (c : Prop) [Decidable c] (x y : EStateM ε σ α) :
    wp (if c then x else y) Q E s ↔ (if c then wp x Q E s else wp y Q E s) := by
  by_cases hc : c
  · rw [if_pos hc, if_pos hc]
  · rw [if_neg hc, if_neg hc]

end Equations

/-- The rule of consequence, for both exits. -/
theorem wp_mono {x : EStateM ε σ α} {Q Q' : α → σ → Prop} {E E' : ε → σ → Prop} {s : σ}
    (h : wp x Q E s) (hQ : ∀ a s', Q a s' → Q' a s') (hE : ∀ e s', E e s' → E' e s') :
    wp x Q' E' s := by
  unfold wp at h ⊢
  cases hx : x s with
  | ok a s' =>
      rw [hx] at h
      exact hQ a s' h
  | error e s' =>
      rw [hx] at h
      exact hE e s' h

/-- The rule of consequence where the faults stay the same. -/
theorem wp_imp {x : EStateM ε σ α} {Q Q' : α → σ → Prop} {E : ε → σ → Prop} {s : σ}
    (h : wp x Q E s) (hQ : ∀ a s', Q a s' → Q' a s') : wp x Q' E s :=
  wp_mono h hQ (fun _ _ he => he)

/-- Two postconditions proved of one run hold of it together. -/
theorem wp_and {x : EStateM ε σ α} {Q Q' : α → σ → Prop} {E E' : ε → σ → Prop} {s : σ}
    (h : wp x Q E s) (h' : wp x Q' E' s) :
    wp x (fun a s' => Q a s' ∧ Q' a s') (fun e s' => E e s' ∧ E' e s') s := by
  unfold wp at h h' ⊢
  cases hx : x s with
  | ok a s' =>
      rw [hx] at h h'
      exact ⟨h, h'⟩
  | error e s' =>
      rw [hx] at h h'
      exact ⟨h, h'⟩

/-- A postcondition that holds of everything is reached by every run. -/
theorem wp_of_forall {x : EStateM ε σ α} {Q : α → σ → Prop} {E : ε → σ → Prop} {s : σ}
    (hQ : ∀ a s', Q a s') (hE : ∀ e s', E e s') : wp x Q E s := by
  unfold wp
  cases x s with
  | ok a s' => exact hQ a s'
  | error e s' => exact hE e s'

/-- Reading the postcondition back off a run that returned. -/
theorem wp_run {x : EStateM ε σ α} {Q : α → σ → Prop} {E : ε → σ → Prop} {s s' : σ} {a : α}
    (h : wp x Q E s) (hx : x s = .ok a s') : Q a s' := by
  unfold wp at h
  rw [hx] at h
  exact h

/-- What is true of the outcome of a run. -/
theorem wp_of_ok {x : EStateM ε σ α} {Q : α → σ → Prop} {E : ε → σ → Prop} {s s' : σ} {a : α}
    (hx : x s = .ok a s') (hQ : Q a s') : wp x Q E s := by
  unfold wp
  rw [hx]
  exact hQ

/-- The outcome decides what is true of all outcomes. -/
theorem wp_outcome (x : EStateM ε σ α) (Q : α → σ → Prop) (E : ε → σ → Prop) (s : σ) :
    wp x (fun a s' => wp x Q E s ↔ Q a s') (fun _ _ => True) s := by
  unfold wp
  cases x s with
  | ok a s' => exact Iff.rfl
  | error e s' => trivial

/-- Running a program twice from one state gives the same result twice. -/
theorem wp_twice {x : EStateM ε σ α} {Q : α → σ → α → σ → Prop} {E : ε → σ → ε → σ → Prop} {s : σ}
    (h : wp x (fun a s' => Q a s' a s') (fun e s' => E e s' e s') s) :
    wp x (fun a s' => wp x (Q a s') (fun _ _ => False) s)
      (fun e s' => wp x (fun _ _ => False) (E e s') s) s := by
  unfold wp at h ⊢
  cases hx : x s with
  | ok a s' =>
      rw [hx] at h
      exact h
  | error e s' =>
      rw [hx] at h
      exact h

/-- Two runs differ if one has a property that the other does not have. -/
theorem wp_ne {x y : EStateM ε σ α} {Q : α → σ → Prop} {E : ε → σ → Prop} {s : σ}
    (hx : wp x Q E s) (hy : wp y (fun a s' => ¬ Q a s') (fun e s' => ¬ E e s') s) :
    x s ≠ y s := by
  intro h
  unfold wp at hx hy
  rw [← h] at hy
  rcases hr : x s with ⟨a, s'⟩ | ⟨e, s'⟩
  all_goals
    rw [hr] at hx hy
    exact hy hx

/-- What the run did may be assumed while its postcondition is proved. This is
    how a condition phrased by running a prefix of the program is used at the
    point the prefix ends. -/
theorem wp_eq {x : EStateM ε σ α} {Q : α → σ → Prop} {E : ε → σ → Prop} {s : σ}
    (h : wp x (fun a s' => x s = .ok a s' → Q a s') (fun e s' => x s = .error e s' → E e s') s) :
    wp x Q E s := by
  unfold wp at h ⊢
  cases hx : x s with
  | ok a s' =>
      rw [hx] at h
      exact h rfl
  | error e s' =>
      rw [hx] at h
      exact h rfl

/-- A run that cannot stop with a fault returns, with its postcondition. -/
theorem exists_ok {x : EStateM ε σ α} {Q : α → σ → Prop} {s : σ}
    (h : wp x Q (fun _ _ => False) s) : ∃ a s', x s = .ok a s' ∧ Q a s' := by
  unfold wp at h
  cases hx : x s with
  | ok a s' =>
      rw [hx] at h
      exact ⟨a, s', rfl, h⟩
  | error e s' =>
      rw [hx] at h
      exact h.elim

/-- On a concrete state a weakest precondition is decided by running the program. -/
instance decidableWp {x : EStateM ε σ α} {Q : α → σ → Prop} {E : ε → σ → Prop} {s : σ}
    [∀ a s', Decidable (Q a s')] [∀ e s', Decidable (E e s')] : Decidable (wp x Q E s) :=
  match h : x s with
  | .ok a s' => decidable_of_iff (Q a s') (by unfold wp; rw [h])
  | .error e s' => decidable_of_iff (E e s') (by unfold wp; rw [h])

/-- A run of a sequence that returned is a run of its head that returned,
    followed by a run of the rest. -/
theorem bind_eq_ok {x : EStateM ε σ β} {f : β → EStateM ε σ α} {s t : σ} {a : α}
    (h : (x >>= f) s = .ok a t) : ∃ b s', x s = .ok b s' ∧ f b s' = .ok a t := by
  simp only [bind, EStateM.bind] at h
  cases hx : x s with
  | ok b s' =>
      rw [hx] at h
      exact ⟨b, s', rfl, h⟩
  | error e s' =>
      rw [hx] at h
      exact absurd h (by simp only [reduceCtorEq, not_false_eq_true])

/-- Every run relates the state before it to the state after it, whichever
    exit it takes, and stops with no other faults than those of `F`. -/
def Keeps (R : σ → σ → Prop) (F : ε → Prop) (x : EStateM ε σ α) : Prop :=
  ∀ s, wp x (fun _ s' => R s s') (fun e s' => F e ∧ R s s') s

section Frame

variable {R : σ → σ → Prop} {F : ε → Prop}
variable (hrefl : ∀ s, R s s) (htrans : ∀ a b c, R a b → R b c → R a c)

include hrefl in
theorem Keeps.pure (a : α) : Keeps R F (Pure.pure a : EStateM ε σ α) :=
  fun s => hrefl s

include hrefl in
theorem Keeps.throw {e : ε} (he : F e) : Keeps R F (throw e : EStateM ε σ α) :=
  fun s => ⟨he, hrefl s⟩

include hrefl in
theorem Keeps.get : Keeps R F (MonadState.get : EStateM ε σ σ) :=
  fun s => hrefl s

theorem Keeps.modify {f : σ → σ} (h : ∀ s, R s (f s)) :
    Keeps R F (modify f : EStateM ε σ PUnit) :=
  fun s => h s

include htrans in
/-- Running on from a state that is already related to the first one. -/
theorem wp_trans {x : EStateM ε σ α} {s s' : σ} (h : R s s')
    (hx : wp x (fun _ t => R s' t) (fun e t => F e ∧ R s' t) s') :
    wp x (fun _ t => R s t) (fun e t => F e ∧ R s t) s' :=
  wp_mono hx (fun _ t ht => htrans s s' t h ht) (fun _ t ht => ⟨ht.1, htrans s s' t h ht.2⟩)

include htrans in
theorem Keeps.bind {x : EStateM ε σ β} {f : β → EStateM ε σ α} (hx : Keeps R F x)
    (hf : ∀ b, Keeps R F (f b)) : Keeps R F (x >>= f) := by
  intro s
  rw [wp_bind]
  exact wp_mono (hx s) (fun b s' h => wp_trans htrans h (hf b s')) (fun e s' h => h)

theorem Keeps.ite {c : Prop} [Decidable c] {x y : EStateM ε σ α} (hx : Keeps R F x)
    (hy : Keeps R F y) : Keeps R F (if c then x else y) := by
  by_cases hc : c
  · rw [if_pos hc]
    exact hx
  · rw [if_neg hc]
    exact hy

end Frame

-- From here on a run is looked at through the equations above. Unfolding it
-- would make the elaborator execute the program.
attribute [irreducible] wp

end Exec
