import Mathlib.Logic.Relation

/-!
# Related results

Two computations that may fail: both end in related values, or both fail with related errors.

* `Related`: such results.
* `Related.bind`, `Related.ite`: **computations are related step by step**.
-/

namespace Results

/-- Both results are values, or both are errors, and they are related. -/
inductive Related {ε ε' α β : Type} (E : ε → ε' → Prop) (R : α → β → Prop) :
    Except ε α → Except ε' β → Prop
  | error {e : ε} {e' : ε'} : E e e' → Related E R (.error e) (.error e')
  | ok {a : α} {b : β} : R a b → Related E R (.ok a) (.ok b)

variable {ε ε' α β γ δ : Type} {E : ε → ε' → Prop} {R : α → β → Prop} {S : γ → δ → Prop}
  {x x' : Except ε α} {y y' : Except ε' β} {f : α → Except ε γ} {g : β → Except ε' δ}

/-- **One computation after the other.** -/
theorem Related.bind (h : Related E R x y) (hf : ∀ a b, R a b → Related E S (f a) (g b)) :
    Related E S (x >>= f) (y >>= g) := by
  cases h with
  | error he => exact .error he
  | ok hab => exact hf _ _ hab

/-- **Two branches**, under conditions that agree. -/
theorem Related.ite {c c' : Prop} [Decidable c] [Decidable c'] (hc : c ↔ c')
    (h : c → Related E R x y) (h' : ¬ c → Related E R x' y') :
    Related E R (if c then x else x') (if c' then y else y') := by
  by_cases hb : c
  · rw [if_pos hb, if_pos (hc.mp hb)]
    exact h hb
  · rw [if_neg hb, if_neg (fun hb' => hb (hc.mpr hb'))]
    exact h' hb

end Results
