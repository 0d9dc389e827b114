import Mathlib.Data.List.Basic

/-!
# Two machines in lockstep

A machine takes an input in a state; it fails, or it shows something and is in another state.  Two
machines that agree on every single input, from related states on, agree on every list of inputs.

* `runAll`: a list of inputs, one after the other.
* `Agree`: both results are failures, or both show the same in related states.
* `Guarded`: every input meets a condition in the state that those before it lead to.
* `runAll_agree`: **the run rule**.
* `runAll_invariant`: what every input keeps.
* `runAll_idle`: inputs that a machine passes over can be left out.
* `runAll_flatMap`: the runs of lists of inputs, one after the other, are one run.
-/

namespace Lockstep

variable {S A I J O ε ε' : Type}

/-- The inputs one after the other, and all that is shown. -/
def runAll (f : S → I → Except ε (O × S)) (s : S) : List I → Except ε (List O × S)
  | [] => .ok ([], s)
  | i :: is => do
    let (o, s) ← f s i
    let (os, s) ← runAll f s is
    return (o :: os, s)

/-- Both fail, or both show the same and end in related states. -/
inductive Agree (R : S → A → Prop) : Except ε (O × S) → Except ε' (O × A) → Prop
  | fail (e : ε) (e' : ε') : Agree R (.error e) (.error e')
  | step {o : O} {s : S} {a : A} : R s a → Agree R (.ok (o, s)) (.ok (o, a))

/-- Every input meets the condition, in the state that those before it lead to. -/
def Guarded (f : S → I → Except ε (O × S)) (ok : S → I → Prop) (s : S) : List I → Prop
  | [] => True
  | i :: is => ok s i ∧ ∀ o s', f s i = .ok (o, s') → Guarded f ok s' is

variable {f : S → I → Except ε (O × S)} {g : A → I → Except ε' (O × A)} {ok : S → I → Prop}
  {R : S → A → Prop} {s : S} {a : A} {i : I} {is : List I}

/-- What can follow a step of agreeing machines. -/
theorem Agree.cases {x : Except ε (O × S)} {y : Except ε' (O × A)} (h : Agree R x y) :
    (∃ e e', x = .error e ∧ y = .error e') ∨
      ∃ o s a, x = .ok (o, s) ∧ y = .ok (o, a) ∧ R s a := by
  cases h with
  | fail e e' => exact Or.inl ⟨e, e', rfl, rfl⟩
  | step hR => exact Or.inr ⟨_, _, _, rfl, rfl, hR⟩

/-- What the other machine shows. -/
theorem Agree.of_ok {x : Except ε (O × S)} {y : Except ε' (O × A)} {o : O} {s : S}
    (h : Agree R x y) (hx : x = .ok (o, s)) : ∃ a, y = .ok (o, a) ∧ R s a := by
  subst hx
  cases h with
  | step hR => exact ⟨_, rfl, hR⟩

theorem Agree.ok_of {x : Except ε (O × S)} {y : Except ε' (O × A)} {o : O} {a : A}
    (h : Agree R x y) (hy : y = .ok (o, a)) : ∃ s, x = .ok (o, s) ∧ R s a := by
  subst hy
  cases h with
  | step hR => exact ⟨_, rfl, hR⟩

/-- Showing something else of both results, and going on to related states. -/
theorem Agree.map {S' A' P : Type} {R' : S' → A' → Prop} {x : Except ε (O × S)}
    {y : Except ε' (O × A)} (h : Agree R x y) {φ : O × S → P × S'} {ψ : O × A → P × A'}
    (hshow : ∀ o s a, (φ (o, s)).1 = (ψ (o, a)).1)
    (hR : ∀ o s a, R s a → R' (φ (o, s)).2 (ψ (o, a)).2) : Agree R' (x.map φ) (y.map ψ) := by
  cases h with
  | fail e e' => exact .fail e e'
  | @step o s a h =>
    have hsame := hshow o s a
    have hrel := hR o s a h
    show Agree R' (.ok (φ (o, s))) (.ok (ψ (o, a)))
    generalize φ (o, s) = x at *
    generalize ψ (o, a) = y at *
    obtain ⟨p, s'⟩ := x
    obtain ⟨p', a'⟩ := y
    obtain rfl : p = p' := hsame
    exact .step hrel

/-- A run of one input more. -/
theorem runAll_cons {o : O} {s' : S} (h : f s i = .ok (o, s')) (is : List I) :
    runAll f s (i :: is) = (runAll f s' is).map fun r => (o :: r.1, r.2) := by
  rw [runAll, h]
  show (runAll f s' is >>= _) = _
  cases runAll f s' is <;> rfl

theorem runAll_cons_error {e : ε} (h : f s i = .error e) (is : List I) :
    runAll f s (i :: is) = .error e := by
  rw [runAll, h]
  rfl

/-- **The run rule.** -/
theorem runAll_agree (hR : R s a) (hg : Guarded f ok s is)
    (hstep : ∀ s a i, R s a → ok s i → Agree R (f s i) (g a i)) :
    Agree R (runAll f s is) (runAll g a is) := by
  induction is generalizing s a with
  | nil => exact .step hR
  | cons i is ih =>
    rcases (hstep s a i hR hg.1).cases with ⟨e, e', hf, hga⟩ | ⟨o, s', a', hf, hga, hR'⟩
    · rw [runAll_cons_error hf, runAll_cons_error hga]
      exact .fail e e'
    · rw [runAll_cons hf, runAll_cons hga]
      rcases (ih hR' (hg.2 o s' hf)).cases with
        ⟨e, e', hrun, hrun'⟩ | ⟨os, s₁, a₁, hrun, hrun', hR₁⟩
      · rw [hrun, hrun']
        exact .fail e e'
      · rw [hrun, hrun']
        exact .step hR₁

/-- **The invariant rule**: what every one of the inputs keeps holds at the end. -/
theorem runAll_invariant {P : A → Prop} {g : A → I → Except ε (O × A)} {os : List O} {a' : A}
    (h : P a) (hrun : runAll g a is = .ok (os, a'))
    (hstep : ∀ a, ∀ i ∈ is, ∀ o a', P a → g a i = .ok (o, a') → P a') : P a' := by
  induction is generalizing a os with
  | nil =>
    cases hrun
    exact h
  | cons i is ih =>
    cases hi : g a i with
    | error e =>
      rw [runAll_cons_error hi] at hrun
      cases hrun
    | ok r =>
      obtain ⟨o, a₁⟩ := r
      rw [runAll_cons hi] at hrun
      cases hrest : runAll g a₁ is with
      | error e =>
        rw [hrest] at hrun
        cases hrun
      | ok r =>
        obtain ⟨os₁, a₂⟩ := r
        rw [hrest] at hrun
        cases hrun
        exact ih (hstep a i List.mem_cons_self o a₁ h hi) hrest
          fun a j hj => hstep a j (List.mem_cons_of_mem _ hj)

/-- **Inputs that a machine passes over** can be left out: the machine `g` answers to the inputs
that `pick` keeps as `k` does, and to the others with nothing. -/
theorem runAll_idle {g : A → I → Except ε (Option O × A)} {k : A → J → Except ε (O × A)}
    {pick : I → Option J} (hidle : ∀ a i, pick i = none → g a i = .ok (none, a))
    (hkeep : ∀ a i j, pick i = some j → g a i = (k a j).map fun r => (some r.1, r.2))
    (a : A) (is : List I) :
    (runAll g a is).map (fun r => (r.1.filterMap id, r.2)) = runAll k a (is.filterMap pick) := by
  induction is generalizing a with
  | nil => rfl
  | cons i is ih =>
    cases hpick : pick i with
    | none =>
      rw [List.filterMap_cons_none hpick, ← ih a, runAll_cons (hidle a i hpick)]
      cases runAll g a is <;> rfl
    | some j =>
      rw [List.filterMap_cons_some hpick]
      have hg := hkeep a i j hpick
      cases hk : k a j with
      | error e =>
        rw [hk] at hg
        rw [runAll_cons_error hg, runAll_cons_error hk]
        rfl
      | ok r =>
        obtain ⟨o, a'⟩ := r
        rw [hk] at hg
        rw [runAll_cons hg, runAll_cons hk, ← ih a']
        cases runAll g a' is <;> rfl

/-! ## Runs of runs -/

/-- A machine that shows something else. -/
theorem runAll_map {P : Type} (f : S → I → Except ε (O × S)) (φ : O → P) (s : S) (is : List I) :
    runAll (fun s i => (f s i).map fun r => (φ r.1, r.2)) s is =
      (runAll f s is).map fun r => (r.1.map φ, r.2) := by
  induction is generalizing s with
  | nil => rfl
  | cons i is ih =>
    cases hf : f s i with
    | error e =>
      rw [runAll_cons_error hf, runAll_cons_error (by rw [hf]; rfl)]
      rfl
    | ok r =>
      rw [runAll_cons hf, runAll_cons (by rw [hf]; rfl), ih r.2]
      cases runAll f r.2 is <;> rfl

theorem Guarded.map {P : Type} {φ : O → P} (h : Guarded f ok s is) :
    Guarded (fun s i => (f s i).map fun r => (φ r.1, r.2)) ok s is := by
  induction is generalizing s with
  | nil => trivial
  | cons i is ih =>
    refine ⟨h.1, fun o s' hrun => ?_⟩
    dsimp only at hrun
    cases hf : f s i with
    | error e =>
      rw [hf] at hrun
      cases hrun
    | ok r =>
      rw [hf] at hrun
      cases hrun
      exact ih (h.2 r.1 r.2 hf)

/-- A run of some inputs, and then of others. -/
theorem runAll_append (f : S → I → Except ε (O × S)) (s : S) (is js : List I) :
    runAll f s (is ++ js) =
      runAll f s is >>= fun r => (runAll f r.2 js).map fun r' => (r.1 ++ r'.1, r'.2) := by
  induction is generalizing s with
  | nil =>
    rw [List.nil_append]
    show _ = (runAll f s js).map _
    cases runAll f s js <;> rfl
  | cons i is ih =>
    cases hf : f s i with
    | error e =>
      rw [List.cons_append, runAll_cons_error hf, runAll_cons_error hf]
      rfl
    | ok r =>
      rw [List.cons_append, runAll_cons hf, runAll_cons hf, ih r.2]
      cases runAll f r.2 is with
      | error e => rfl
      | ok r' =>
        show ((runAll f r'.2 js).map _).map _ = (runAll f r'.2 js).map _
        cases runAll f r'.2 js <;> rfl

/-- **A run of runs** is a run of all their inputs. -/
theorem runAll_flatMap (f : S → I → Except ε (O × S)) (inputs : J → List I) (s : S) (js : List J) :
    (runAll (fun s j => runAll f s (inputs j)) s js).map (fun r => (r.1.flatten, r.2)) =
      runAll f s (js.flatMap inputs) := by
  induction js generalizing s with
  | nil => rfl
  | cons j js ih =>
    rw [List.flatMap_cons, runAll_append, runAll]
    cases runAll f s (inputs j) with
    | error e => rfl
    | ok r =>
      show (runAll _ r.2 js >>= _).map _ = (runAll f r.2 (js.flatMap inputs)).map _
      rw [← ih r.2]
      cases runAll (fun s j => runAll f s (inputs j)) r.2 js <;> rfl

end Lockstep
