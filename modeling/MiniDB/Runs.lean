import Mathlib.Logic.Relation

/-!
# Guarded runs

A system whose states are changed by labelled steps, and the runs all of whose steps meet a
condition on the state before the step and on its label.

* `Reached`: the states that such a run reaches.
* `Reached.invariant`: what holds at the start and is kept by every step holds of every state.
-/

namespace Runs

variable {S L : Type}

/-- The states reached from `s₀` by steps each of which meets the condition `ok`. -/
def Reached (step : S → L → S → Prop) (ok : S → L → Prop) (s₀ s : S) : Prop :=
  Relation.ReflTransGen (fun s s' => ∃ l, ok s l ∧ step s l s') s₀ s

variable {step : S → L → S → Prop} {ok : S → L → Prop} {s₀ s s' : S} {l : L} {P : S → Prop}

@[refl] theorem Reached.refl (s₀ : S) : Reached step ok s₀ s₀ := Relation.ReflTransGen.refl

/-- One more step. -/
theorem Reached.tail (h : Reached step ok s₀ s) (hok : ok s l) (hstep : step s l s') :
    Reached step ok s₀ s' :=
  Relation.ReflTransGen.tail h ⟨l, hok, hstep⟩

/-- **The invariant rule.** -/
theorem Reached.invariant (h : Reached step ok s₀ s) (h₀ : P s₀)
    (hstep : ∀ s l s', P s → ok s l → step s l s' → P s') : P s := by
  induction h with
  | refl => exact h₀
  | tail _ hlast ih =>
    obtain ⟨l, hok, hl⟩ := hlast
    exact hstep _ l _ ih hok hl

end Runs
