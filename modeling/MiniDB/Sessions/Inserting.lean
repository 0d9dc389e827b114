import MiniDB.Sessions.Ascending
import MiniDB.Statements.Lookup

/-!
# What an `INSERT` means

* `Unchanged`: nothing happened but that pages were read.
* `insertCommand_refines`: **`INSERT` is the insertion into a finite map**.
-/

namespace MiniDB

open BPlusTree Pager

variable {s s' : Pager} {table : Table} {n : ℕ} {σ : Schema} {t : PageTreeAny}
  {values : List Expr} {key : Int64}

/-- Nothing has changed but what is cached. -/
structure Unchanged (s s' : Pager) : Prop extends SameView s s' where
  numPages : s'.numPages = s.numPages

/-- **`INSERT` is the insertion into a finite map.** -/
theorem insertCommand_refines (h : Holds s table n σ t) (hm : Matches σ values)
    (hkey : values[σ.primaryKey]? = some (.literalInt key)) (hfit : TextsFit values)
    (hroom : HasRoom s table n values) :
    ∃ cells o s', MiniDB.tableCells s table.rootPageNum σ.rowSize = .ok cells ∧
      insertCommand s table table.tableName values = .ok (o, s') ∧
      (o.result = .idDuplicateError ↔ ∃ c ∈ cells, c.1 = key) ∧
      (o.result = .idDuplicateError → Unchanged s s') ∧
      (o.result ≠ .idDuplicateError → o.result = .commandSuccess ∧ ∀ k,
        MiniDB.findRow s' table.rootPageNum σ.rowSize k =
          if k = key then .ok (some (rowBytes (insertedRow values).values))
          else MiniDB.findRow s table.rootPageNum σ.rowSize k) := by
  have hexists := exists_leafFor_iff key h.represents.good.ordered
  obtain ⟨o, s', hrun, hout⟩ := insertCommand_spec h hroom.canFinish
  refine ⟨t.2.contents, o, s', ?_, hrun, ?_⟩
  · rw [← h.root]
    exact h.represents.tableCells h.sound
  cases hout with
  | mismatch hno => exact absurd hm hno
  | duplicate _ hkey' hdup hf =>
    have heq := hkey.symm.trans hkey'
    cases heq
    refine ⟨⟨fun _ => hexists.mp hdup, fun _ => rfl⟩, fun _ => ⟨hf.toSameView, hf.numPages⟩, ?_⟩
    exact fun hne => absurd rfl hne
  | tooLong hlong => exact absurd hfit hlong
  | noPage hat hneed =>
    have hle := hroom _ hat
    rw [h.describes.rowSize] at hle
    exact absurd hle (not_le.mpr hneed)
  | inserted _ _ hkey' hnew hnum hev hrep =>
    have heq := hkey.symm.trans hkey'
    cases heq
    have hnone : ∀ a ∈ t.2.contents, a.1 ≠ key := fun a ha heq =>
      (hexists.mpr ⟨a, ha, heq⟩).elim fun b hb => hnew b hb.1 hb.2
    refine ⟨⟨fun hr => (by cases hr), ?_⟩, fun hr => (by cases hr), fun _ => ⟨rfl, ?_⟩⟩
    · rintro ⟨c, hc, heq⟩
      exact absurd heq (hnone c hc)
    · intro k
      rw [← h.root, h.represents.findRow_inserted hnone hrep hev.sound,
        h.represents.findRow h.sound]
      split <;> rfl

/-- The third row of a table, for which its leaf is split. -/
theorem insertCommand_refines_notes : ∃ s table t,
    Holds s table 0 (schemaOf notes validNotes) t ∧ ∃ o s',
      insertCommand s table table.tableName (notesRow 3) = .ok (o, s') ∧
        (o.result ≠ .idDuplicateError → o.result = .commandSuccess) := by
  obtain ⟨s, -, h, hnum⟩ := exists_two
  have hkey : (notesRow 3)[primaryIndex notes]? = some (.literalInt 3) := rfl
  have hroom : HasRoom s (openTable s 0 notesName) 0 (notesRow 3) := by
    refine h.holds.hasRoom hkey ?_
    unfold treeInserted
    rw [hnum]
    decide
  obtain ⟨-, o, s', -, hrun, -, -, hok⟩ :=
    insertCommand_refines h.holds (matches_notesRow 3) rfl (textsFit_notesRow 3) hroom
  exact ⟨s, _, _, h.holds, o, s', hrun, fun hne => (hok hne).1⟩

end MiniDB
