import Kappara.Lib.Basic

/-! Runs of a system given by a step function.

A run starts in a state allowed at the start and takes steps that exist and meet
a condition. What one step keeps, every run keeps. -/

set_option autoImplicit false

namespace Run

variable {S A : Type} {step : S → A → Option S} {ok : S → A → Prop} {start : S → Prop} {s s' : S}

/-- The states reached by steps that all satisfy ok. -/
inductive Reach (step : S → A → Option S) (ok : S → A → Prop) (start : S → Prop) : S → Prop where
  | start {s : S} : start s → Reach step ok start s
  | next {s s' : S} {a : A} : Reach step ok start s → ok s a → step s a = some s' → Reach step ok start s'

theorem Reach.invariant {Inv : S → Prop} (base : ∀ s, start s → Inv s)
    (keep : ∀ s a s', Inv s → ok s a → step s a = some s' → Inv s') (reached : Reach step ok start s) : Inv s := by
  induction reached with
  | start first => exact base _ first
  | next _ allowed made ih => exact keep _ _ _ ih allowed made

/-- The state after the given steps; none where one of them is not possible or not allowed. -/
def exec (step : S → A → Option S) (ok : S → A → Prop) [(s : S) → (a : A) → Decidable (ok s a)] : S → List A → Option S
  | s, [] => some s
  | s, a :: rest =>
    if ok s a then
      match step s a with
      | none => none
      | some s' => exec step ok s' rest
    else none

theorem Reach.exec [(s : S) → (a : A) → Decidable (ok s a)] {steps : List A} (reached : Reach step ok start s)
    (done : Run.exec step ok s steps = some s') : Reach step ok start s' := by
  induction steps generalizing s with
  | nil =>
    cases done
    exact reached
  | cons a rest ih =>
    obtain ⟨allowed, done⟩ := Option.ite_none_right_eq_some.mp done
    split at done
    · cases done
    next made => exact ih (.next reached allowed made) done

theorem Reach.found [(s : S) → (a : A) → Decidable (ok s a)] {P : S → Prop} [DecidablePred P] (steps : List A)
    (first : start s)
    (passed : (Run.exec step ok s steps).any (fun s => P s) = true) : ∃ s', Reach step ok start s' ∧ P s' := by
  cases done : Run.exec step ok s steps with
  | none =>
    rw [done] at passed
    cases passed
  | some s' =>
    rw [done] at passed
    exact ⟨s', Reach.exec (.start first) done, of_decide_eq_true passed⟩

theorem Reach.found_with [(s : S) → (a : A) → Decidable (ok s a)] {P Q : S → Prop} [DecidablePred P]
    (always : ∀ s, Reach step ok start s → Q s) (steps : List A) (first : start s)
    (passed : (Run.exec step ok s steps).any (fun s => P s) = true) : ∃ s', Reach step ok start s' ∧ P s' ∧ Q s' := by
  obtain ⟨s', reached, has⟩ := Reach.found steps first passed
  exact ⟨s', reached, has, always s' reached⟩

end Run
