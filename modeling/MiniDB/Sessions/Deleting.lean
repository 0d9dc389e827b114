import MiniDB.Sessions.Naming
import MiniDB.Statements.Conditions
import MiniDB.Sessions.TableRuns

/-!
# What a `DELETE` means

A `DELETE` filters the leaves of its table, and the room of the deleted rows can be used again.  It
compares texts with `strlen`, which has no end on a text of 255 bytes, for the array of the row has
no byte for a terminator.

* `Filters`: what a `DELETE` does.
* `Holds.reinsert`: the keys of deleted rows can be inserted again.
* `deleteCommand_filters_iff`: **`DELETE` is a filter** unless it compares a text that fills its
  field.
-/

namespace MiniDB

open BPlusTree Pager

variable {s s' : Pager} {table : Table} {n : ℕ} {σ : Schema} {t : PageTreeAny}
  {where_ : Option Expr} {values : List Expr}

/-- **A `DELETE` is a filter**: every leaf keeps, in their order, the cells whose row does not
satisfy the condition; nothing else on a leaf page has changed but the number of its cells, and
nothing at all on other pages; the leaves that have changed are marked as dirty; and the key of a
deleted row can be inserted again, on the pages there are. -/
structure Filters (s : Pager) (table : Table) (n : ℕ) (σ : Schema) (t : PageTreeAny)
    (where_ : Option Expr) (s' : Pager) : Prop where
  cells : ∀ l ∈ t.2.leaves, leafCells σ.rowSize (s'.page l.page) =
    (leafCells σ.rowSize (s.page l.page)).filter fun c => ! selected σ (s.page 0) n where_ c
  frame : ∀ l ∈ t.2.leaves, SameFrame (s.page l.page) (s'.page l.page)
  others : ∀ q, q ∉ t.2.leaves.map Leaf.page → s'.page q = s.page q
  dirty : ∀ l ∈ t.2.leaves,
    leafCells σ.rowSize (s'.page l.page) ≠ leafCells σ.rowSize (s.page l.page) →
      s'.pageDirty l.page = true
  reuse : ∀ c ∈ t.2.contents, selected σ (s.page 0) n where_ c = true →
    ∀ values, Matches σ values → TextsFit values →
      values[σ.primaryKey]? = some (.literalInt c.1) →
      ∃ s'', insertCommand s' table table.tableName values = .ok (⟨.commandSuccess, []⟩, s'') ∧
        s''.numPages = s'.numPages ∧ findRow s'' table.rootPageNum σ.rowSize c.1 =
          .ok (some (rowBytes (insertedRow values).values))

/-- The leaf of a deleted row has neither its key nor as many cells as before. -/
theorem Holds.leafFor_deleted (h : Holds s table n σ t) {c : Cell} (hc : c ∈ t.2.contents)
    (hsel : selected σ (s.page 0) n where_ c = true) :
    (∀ a ∈ unselected σ (s.page 0) n where_ (t.2.leafFor c.1).cells, a.1 ≠ c.1) ∧
      (unselected σ (s.page 0) n where_ (t.2.leafFor c.1).cells).length <
        leafNodeMaxCells σ.rowSize := by
  have hsorted := h.sorted_leafFor c.1
  obtain ⟨a, ha, hkey⟩ := (exists_leafFor_iff c.1 h.represents.good.ordered).mpr ⟨c, hc, rfl⟩
  -- the leaf holds the cell itself
  have hmem : c ∈ (t.2.leafFor c.1).cells := by
    have hall : a ∈ t.2.contents := mem_contents.mpr ⟨_, Tree.leafFor_mem_leaves c.1 t.2, ha⟩
    rwa [h.represents.good.ordered.sorted_contents.1.eq_of_fst_eq hall hc hkey] at ha
  constructor
  · intro b hb heq
    obtain ⟨hb, hkept⟩ := List.mem_filter.mp hb
    rw [hsorted.eq_of_fst_eq hb hmem heq, hsel] at hkept
    exact absurd hkept (by decide)
  · have hsize : (t.2.leafFor c.1).cells.length ≤ leafNodeMaxCells σ.rowSize :=
      h.represents.good.sized.leafFor
    refine lt_of_lt_of_le ?_ hsize
    refine List.length_filter_lt_length_iff_exists.mpr ⟨c, hmem, ?_⟩
    rw [hsel]
    decide

/-- **The key of a deleted row can be inserted again.** -/
theorem Holds.reinsert (h : Holds s table n σ t)
    (h' : Holds s' table n σ ⟨t.1, t.2.mapCells (unselected σ (s.page 0) n where_)⟩) {c : Cell}
    (hc : c ∈ t.2.contents) (hsel : selected σ (s.page 0) n where_ c = true)
    (hm : Matches σ values) (hfit : TextsFit values)
    (hkey : values[σ.primaryKey]? = some (.literalInt c.1)) :
    ∃ s'', insertCommand s' table table.tableName values = .ok (⟨.commandSuccess, []⟩, s'') ∧
      s''.numPages = s'.numPages ∧ findRow s'' table.rootPageNum σ.rowSize c.1 =
        .ok (some (rowBytes (insertedRow values).values)) := by
  obtain ⟨hnew, hlt⟩ := h.leafFor_deleted hc hsel
  have hleaf := Tree.leafFor_mapCells c.1 (f := unselected σ (s.page 0) n where_) t.2
  have hnew' : ∀ a ∈ ((t.2.mapCells (unselected σ (s.page 0) n where_)).leafFor c.1).cells,
      a.1 ≠ c.1 := by
    rw [hleaf]
    exact hnew
  have hnext := h'.represents.next_treeInserted c.1 (insertedRow values) h'.sound
    (by rw [hleaf]; exact hlt)
  obtain ⟨s'', hrun, hnum, hev, hrep⟩ := insertCommand_inserted h' hm hfit hkey hnew'
    (by rw [hnext]; exact h'.sound.bounded)
  refine ⟨s'', hrun, hnum.trans hnext, ?_⟩
  have hnone : ∀ a ∈ (t.2.mapCells (unselected σ (s.page 0) n where_)).contents, a.1 ≠ c.1 := by
    intro a ha heq
    obtain ⟨b, hb, hbkey⟩ :=
      (exists_leafFor_iff c.1 h'.represents.good.ordered).mpr ⟨a, ha, heq⟩
    exact hnew' b hb hbkey
  have hfound := h'.represents.findRow_inserted hnone hrep hev.sound c.1
  rw [h'.root, if_pos rfl] at hfound
  exact hfound

/-- **`DELETE` is exactly a filter** just when the condition reads no text that fills its field. -/
theorem deleteCommand_filters_iff (h : Holds s table n σ t) (hw : WhereTyped (s.page 0) n where_) :
    (∃ s', deleteCommand s table table.tableName where_ = .ok (.commandSuccess, s') ∧
        Filters s table n σ t where_ s') ↔
      ∀ c ∈ t.2.contents, Testable σ (s.page 0) n where_ c := by
  have hgood : (∀ c ∈ t.2.contents, Testable σ (s.page 0) n where_ c) ↔
      ∀ c ∈ t.2.contents, ∀ f, ¬ Faulty σ (s.page 0) n where_ f c :=
    forall₂_congr fun c _ => testable_iff h.describes hw
  rw [hgood]
  rcases deleteCommand_spec h where_ with
    ⟨f, ⟨c, hc, hbad⟩, herr⟩ | ⟨hall, s', hrun, hnum, hev, hedit, hrep⟩
  · constructor
    · rintro ⟨s', hok, -⟩
      rw [herr] at hok
      cases hok
    · intro hno
      exact absurd hbad (hno c hc f)
  · refine ⟨fun _ c hc f => hall f c hc, fun _ => ⟨s', hrun, ?_⟩⟩
    obtain ⟨h', -⟩ := h.replace (hev.mono (fun q hq => Or.inl hq) (Set.Subset.refl ∅)) hrep
      (Tree.page_mapCells _)
    refine ⟨fun l hl => (hedit.leaf l hl).cells, fun l hl => (hedit.leaf l hl).frame, hedit.rest,
      ?_, ?_⟩
    · intro l _ hne
      refine (hev.tracked l.page (Set.notMem_empty _)).resolve_left ?_
      intro hsame
      exact hne (by rw [hsame])
    · intro c hc hsel values hm hfit hkey
      exact h.reinsert h' hc hsel hm hfit hkey

/-- The text of the row that has one is read back. -/
theorem decodeValues_textCell (text : List UInt8) (hfit : text.length ≤ valueTextMaxLen)
    (hterm : 0 ∉ text) :
    (decodeValues (schemaOf notes validNotes).types (textCell text).2)[1]? =
      some (literalValue (.literalString text)) := by
  rw [textCell, (matches_textRow text).decodeValues (textsFit_textRow hfit)]
  · rfl
  · intro text' h
    rcases mem_textRow h with rfl | rfl
    · exact hterm
    · exact List.not_mem_nil

/-- A table with two rows, and the condition `id = 1`. -/
theorem deleteCommand_filters_iff_notes : ∃ s table t,
    Holds s table 0 (schemaOf notes validNotes) t ∧ t.2.contents ≠ [] ∧
      ∃ s', deleteCommand s table table.tableName
          (some (.equals (.column (ascii "id")) (.literalInt 1))) = .ok (.commandSuccess, s') ∧
        Filters s table 0 (schemaOf notes validNotes) t
          (some (.equals (.column (ascii "id")) (.literalInt 1))) s' := by
  obtain ⟨s, -, h, -⟩ := exists_two
  have hfind := h.findColumn_id
  have htype : storedType (s.page 0) 0 0 = ColumnType.columnInteger.toByte :=
    h.holds.describes.storedType (i := 0) (by decide)
  have hw : WhereTyped (s.page 0) 0 (some (.equals (.column (ascii "id")) (.literalInt 1))) := by
    refine .equals hfind ?_
    rw [htype]
    rfl
  refine ⟨s, _, _, h.holds, List.cons_ne_nil _ _, (deleteCommand_filters_iff h.holds hw).mpr ?_⟩
  rintro c - _ _ i v ⟨⟩ hi hv
  have hzero := hfind.symm.trans hi
  cases hzero
  cases hv
  trivial

/-- The condition `a = ''` runs over the end of a text of 255 bytes. -/
theorem not_deleteCommand_filters : ∃ s, Reachable Finishes s ∧ ∃ table t,
    Holds s table 0 (schemaOf notes validNotes) t ∧
      WhereTyped (s.page 0) 0 (some (.equals (.column [97]) (.literalString []))) ∧
      deleteCommand s table table.tableName
        (some (.equals (.column [97]) (.literalString []))) = .error .unterminated := by
  have hlen : (List.replicate 255 (97 : UInt8)).length = valueTextMaxLen :=
    List.length_replicate ..
  have hterm : (0 : UInt8) ∉ List.replicate 255 97 := fun h0 =>
    absurd (List.eq_of_mem_replicate h0) (by decide)
  obtain ⟨s, hreach, h, -⟩ := exists_textRow _ hlen.le
  have hfind := h.findColumn_text
  have htype : storedType (s.page 0) 0 1 = ColumnType.columnText.toByte :=
    h.holds.describes.storedType (i := 1) (by decide)
  have hfault : testRow (schemaOf notes validNotes) (s.page 0) 0
      (some (.equals (.column [97]) (.literalString []))) (textCell (List.replicate 255 97)).2 =
        .error .unterminated := by
    rw [testRow_equals hfind (decodeValues_textCell _ hlen.le hterm)]
    refine valueMatches_full ?_ _ _
    rwa [TextField.overwrite_of_length hlen]
  have hcontents : (Tree.leaf 1 [textCell (List.replicate 255 97)] : PageTree 0).contents =
      [textCell (List.replicate 255 97)] := Tree.contents_zero _
  refine ⟨s, hreach, _, _, h.holds, .equals hfind (by rw [htype]; rfl), ?_⟩
  rcases deleteCommand_spec h.holds (some (.equals (.column [97]) (.literalString []))) with
    ⟨f, ⟨c, hc, hbad⟩, herr⟩ | ⟨hgood, -⟩
  · rw [herr]
    rw [hcontents] at hc
    rw [List.mem_singleton.mp hc] at hbad
    have heq := hfault.symm.trans hbad
    cases heq
    rfl
  · refine absurd hfault (hgood _ (textCell (List.replicate 255 97)) ?_)
    rw [hcontents]
    exact List.mem_singleton_self _

end MiniDB
