import MiniDB.Runs
import MiniDB.Sessions.Execute

/-!
# Reachable databases

A run starts with a new file and carries out one statement after the other.  What is proved of the
states of such runs depends on a condition on their steps; under `AstNode.CanFinish` alone every
state is a database.

* `CarriesOut`: one statement; `processCommand_carriesOut`: one input line is a statement or
  nothing.
* `Reachable`: the states of the runs whose steps meet a condition.
* `Reachable.database`: **they are databases**.
-/

namespace MiniDB

open BPlusTree Pager

/-- A statement is carried out. -/
def CarriesOut (s : Pager) (tree : AstNode) (s' : Pager) : Prop :=
  tree.Parsed ∧ ∃ o, execute s tree = .ok (o, s')

/-- The states that statements lead to, from a new database on, when each statement and the state
before it meet the condition. -/
def Reachable (ok : Pager → AstNode → Prop) (s : Pager) : Prop :=
  ∃ s₀, openDatabase Disk.empty = some s₀ ∧ Runs.Reached CarriesOut ok s₀ s

/-- The condition that every step meets. -/
def Always (_ : Pager) (_ : AstNode) : Prop := True

/-- No `INSERT` runs out of pages half way. -/
def Finishes (s : Pager) (tree : AstNode) : Prop := tree.CanFinish s

variable {s s' : Pager} {ok : Pager → AstNode → Prop} {tree : AstNode}

theorem Reachable.tail (h : Reachable ok s) (hok : ok s tree) (hstep : CarriesOut s tree s') :
    Reachable ok s' := by
  obtain ⟨s₀, hopen, hrun⟩ := h
  exact ⟨s₀, hopen, hrun.tail hok hstep⟩

/-- **The invariant rule for databases.** -/
theorem Reachable.invariant {P : Pager → List TableInfo → Prop} (h : Reachable ok s)
    (hfinish : ∀ s tree, ok s tree → tree.CanFinish s)
    (h₀ : ∀ s, openDatabase Disk.empty = some s → P s [])
    (hstep : ∀ s tree s' ts ts', Database s ts → Database s' ts' → P s ts → ok s tree →
      tree.Parsed → Change s ts s' tree ts' → P s' ts') :
    ∃ ts, Database s ts ∧ P s ts := by
  obtain ⟨s₀, hopen, hrun⟩ := h
  refine Runs.Reached.invariant (P := fun s => ∃ ts, Database s ts ∧ P s ts) hrun ?_ ?_
  · obtain ⟨s₁, hopen₁, hdb⟩ := database_empty
    obtain rfl : s₁ = s₀ := Option.some_inj.mp (hopen₁.symm.trans hopen)
    exact ⟨[], hdb, h₀ _ hopen⟩
  · rintro s tree s' ⟨ts, hdb, hP⟩ hok ⟨hparsed, o, hexec⟩
    obtain ⟨ts', hchange, hdb'⟩ := execute_change hdb hparsed (hfinish s tree hok) hexec
    exact ⟨ts', hdb', hstep s tree s' ts ts' hdb hdb' hP hok hparsed hchange⟩

/-- **Reachable states are databases.** -/
theorem Reachable.database (h : Reachable Finishes s) : ∃ ts, Database s ts := by
  obtain ⟨ts, hdb, -⟩ := h.invariant (P := fun _ _ => True) (fun _ _ h => h) (fun _ _ => trivial)
    fun _ _ _ _ _ _ _ _ _ _ _ => trivial
  exact ⟨ts, hdb⟩

/-- An input line is a statement, or it changes nothing. -/
theorem processCommand_carriesOut {line : List UInt8} {o : Outcome}
    (h : processCommand s line = .ok (o, s')) : s' = s ∨ ∃ tree, CarriesOut s tree s' := by
  unfold processCommand at h
  cases hparse : parseStatement (parserInit line) with
  | none =>
    rw [hparse] at h
    cases h
    exact Or.inl rfl
  | some r =>
    rw [hparse] at h
    cases r with
    | error e =>
      cases e with
      | error e =>
        cases h
        exact Or.inl rfl
      | fault f => cases h
    | ok p =>
      obtain ⟨tree, p'⟩ := p
      exact Or.inr ⟨tree, parseStatement_parsed hparse, o, h⟩

/-- **Lines lead from reachable states to reachable states.** -/
theorem Reachable.runLines {lines : List (List UInt8)} (h : Reachable Always s)
    (hrun : MiniDB.runLines s lines = .ok s') : Reachable Always s' := by
  induction lines generalizing s with
  | nil =>
    cases hrun
    exact h
  | cons line lines ih =>
    unfold MiniDB.runLines at hrun
    obtain ⟨⟨o, s₁⟩, hline, hrest⟩ := bind_eq_ok hrun
    rcases processCommand_carriesOut hline with rfl | ⟨tree, hstep⟩
    · exact ih h hrest
    · exact ih (h.tail trivial hstep) hrest

end MiniDB
