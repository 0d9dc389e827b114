import Mathlib.Data.List.Basic

/-!
# Self-delimiting codes

A code writes values as lists.  It is self-delimiting when, whatever stands behind the code of a
value, both can be told apart: such codes can be written one after the other.

* `SelfDelimiting.injective`: the value can be read off its code.
* `selfDelimiting_stop`: a value, up to a stop.
* `SelfDelimiting.list`: **a list of values, up to a stop**.
-/

namespace Codes

variable {α L : Type} {P : α → Prop} {f : α → List L}

/-- **Self-delimiting**: the value and what follows its code are determined. -/
def SelfDelimiting (P : α → Prop) (f : α → List L) : Prop :=
  ∀ ⦃a⦄, P a → ∀ ⦃b⦄, P b → ∀ ⦃r s⦄, f a ++ r = f b ++ s → a = b ∧ r = s

theorem SelfDelimiting.injective (hf : SelfDelimiting P f) {a b : α} (ha : P a) (hb : P b)
    (h : f a = f b) : a = b := (hf ha hb (congrArg (· ++ []) h)).1

/-- Texts in front of the first stop are the same. -/
theorem append_stop_inj {stop : L} : {xs ys : List L} → {r s : List L} → stop ∉ xs → stop ∉ ys →
    xs ++ stop :: r = ys ++ stop :: s → xs = ys ∧ r = s
  | [], [], _, _, _, _, heq => ⟨rfl, (List.cons.inj heq).2⟩
  | [], y :: _, _, _, _, hy, heq => absurd ((List.cons.inj heq).1 ▸ List.mem_cons_self) hy
  | x :: _, [], _, _, hx, _, heq => absurd ((List.cons.inj heq).1 ▸ List.mem_cons_self) hx
  | x :: xs, y :: ys, _, _, hx, hy, heq => by
    obtain ⟨rfl, htail⟩ := List.cons.inj heq
    obtain ⟨rfl, hrest⟩ := append_stop_inj (fun h => hx (List.mem_cons_of_mem _ h))
      (fun h => hy (List.mem_cons_of_mem _ h)) htail
    exact ⟨rfl, hrest⟩

/-- A heading in front of the code. -/
theorem SelfDelimiting.cons (hf : SelfDelimiting P f) (x : L) :
    SelfDelimiting P fun a => x :: f a := by
  intro a ha b hb r s heq
  exact hf ha hb (List.cons.inj heq).2

/-- **A value up to a stop** that does not occur in its text. -/
theorem selfDelimiting_stop {stop : L} (hinj : ∀ a b, f a = f b → a = b)
    (hstop : ∀ a, stop ∉ f a) : SelfDelimiting P fun a => f a ++ [stop] := by
  intro a _ b _ r s heq
  rw [List.append_assoc, List.append_assoc, List.singleton_append, List.singleton_append] at heq
  obtain ⟨htext, hrest⟩ := append_stop_inj (hstop a) (hstop b) heq
  exact ⟨hinj a b htext, hrest⟩

/-- **A list of values, up to a stop** with which none of them begins. -/
theorem SelfDelimiting.list (hf : SelfDelimiting P f) {stop : L}
    (hstop : ∀ a, P a → ∃ x rest, f a = x :: rest ∧ x ≠ stop) :
    SelfDelimiting (fun as : List α => ∀ a ∈ as, P a) fun as => as.flatMap f ++ [stop] := by
  intro as
  induction as with
  | nil =>
    intro _ bs hbs r s heq
    dsimp only at heq
    cases bs with
    | nil => exact ⟨rfl, (List.cons.inj heq).2⟩
    | cons b bs =>
      obtain ⟨x, rest, hx, hne⟩ := hstop b (hbs b List.mem_cons_self)
      rw [List.flatMap_cons, hx] at heq
      exact absurd (List.cons.inj heq).1.symm hne
  | cons a as ih =>
    intro has bs hbs r s heq
    dsimp only at heq ih
    cases bs with
    | nil =>
      obtain ⟨x, rest, hx, hne⟩ := hstop a (has a List.mem_cons_self)
      rw [List.flatMap_cons, hx] at heq
      exact absurd (List.cons.inj heq).1 hne
    | cons b bs =>
      rw [List.flatMap_cons, List.flatMap_cons] at heq
      simp only [List.append_assoc] at heq
      obtain ⟨rfl, hrest⟩ := hf (has a List.mem_cons_self) (hbs b List.mem_cons_self) heq
      rw [← List.append_assoc, ← List.append_assoc] at hrest
      obtain ⟨htail, hend⟩ := ih (fun c hc => has c (List.mem_cons_of_mem _ hc))
        (fun c hc => hbs c (List.mem_cons_of_mem _ hc)) hrest
      exact ⟨congrArg (a :: ·) htail, hend⟩

end Codes
