import MiniDB.Statements.Lowered

/-!
# Lines without regard to case

* `SameLine`: lines that differ at most in the case of letters outside of string literals.
* `processCommand_sameLine`: **they do and print the same, or both are refused** with the same
  message but for the case of the names in it.
* `runs_caseless`: **so do the runs of such lines**.
-/

namespace MiniDB

open Results

variable {sql sql' : List UInt8} {lines lines' : List (List UInt8)}

/-- Lines that differ at most in the case of letters outside of string literals; the names that a
`CREATE TABLE` stores are the same. -/
def SameLine (sql sql' : List UInt8) : Prop :=
  sql = sql' ∨ lowered false sql = lowered false sql' ∧ (parserInit sql).current.type ≠ .tokenCreate

/-- **Such lines do the same, or both are refused.** -/
theorem processCommand_sameLine (h : SameLine sql sql') (s : Pager) :
    Alike s (processCommand s sql) (processCommand s sql') := by
  rcases h with rfl | ⟨hlowered, hcreate⟩
  · exact Alike.refl _
  unfold processCommand
  rcases parseStatement_related hlowered hcreate with ⟨hnone, hnone'⟩ | ⟨r, r', hr, hr', halike⟩
  · rw [hnone, hnone']
    exact Alike.refl _
  rw [hr, hr']
  cases halike with
  | @error f f' hf =>
    cases hf with
    | error htext =>
      exact Or.inr ⟨_, _, rfl, rfl, rfl, congrArg (fun text => [text]) htext, .parsed _, .parsed _⟩
    | fault f => exact Alike.refl _
  | @ok a a' htree =>
    -- both trees are the same in lower case
    refine (execute_lowered s a.1).symm.trans ?_
    rw [htree.1]
    exact execute_lowered s a'.1

/-- **Names and keywords are the same in capital and in small letters**: runs of lines that differ
at most in the case of letters outside of string literals, and not in a `CREATE TABLE`, lead to the
same database; and each of the lines does and prints the same in every state, or is refused with the
same message but for the case of the names in it. -/
theorem runs_caseless (h : List.Forall₂ SameLine lines lines') :
    (∀ s, ∀ line ∈ lines.zip lines', Alike s (processCommand s line.1) (processCommand s line.2)) ∧
      ∀ s, runLines s lines = runLines s lines' := by
  induction h with
  | nil => exact ⟨fun _ line hline => absurd hline List.not_mem_nil, fun _ => rfl⟩
  | @cons sql sql' lines lines' hline _ ih =>
    refine ⟨fun s line hmem => ?_, fun s => ?_⟩
    · rcases List.mem_cons.mp hmem with rfl | hmem
      · exact processCommand_sameLine hline s
      · exact ih.1 s line hmem
    · rw [runLines, runLines]
      rcases processCommand_sameLine hline s with hsame | ⟨o, o', hrun, hrun', -⟩
      · rw [hsame]
        exact bind_congr fun r => ih.2 r.2
      · rw [hrun, hrun']
        exact ih.2 s

/-- Two ways to write the same statements. -/
theorem runs_caseless_notes :
    (fun s => runLines s [ascii "CREATE TABLE notes (id INTEGER PRIMARY KEY, body TEXT)",
      ascii "INSERT INTO notes VALUES (1, 'Milk')", ascii "SELECT body FROM notes WHERE id = 1"]) =
    fun s => runLines s [ascii "CREATE TABLE notes (id INTEGER PRIMARY KEY, body TEXT)",
      ascii "insert into NOTES values (1, 'Milk')", ascii "Select Body From Notes Where ID = 1"] :=
  funext (runs_caseless (.cons (Or.inl rfl) (.cons (Or.inr ⟨by decide, by decide⟩)
    (.cons (Or.inr ⟨by decide, by decide⟩) .nil)))).2

end MiniDB
