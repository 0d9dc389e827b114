import MiniDB.Sessions.Deleting

/-!
# What a stored row is read back as

`serialize_row` goes by the tags of the values, `deserialize_row` by the types in the catalog, and
`catalog_node_row_size` adds up the widths in a third loop.

* `RoundTrips`: the three agree on a table.
* `rows_roundTrip`: **they do for every schema**, and so for every cell of a reachable table.
* `valueMatches_literalValue`: a comparison with a stored literal, unless it fills its field.
* `TestsExactly`, `testsExactly_iff`: **a condition on a stored row is exact just when the text that
  it compares is shorter than its field**.
-/

namespace MiniDB

open BPlusTree Pager

variable {s : Pager} {table : Table} {n i : ℕ} {types : List ColumnType} {σ : Schema} {row : Row}
  {values : List Expr} {vs : List Value} {name : List UInt8} {literal e : Expr} {p : Page}

/-! ## Round trips -/

/-- Rows of the types are written as one run of the width of a row, and read back as they were; and
what is read from anywhere is written back as the bytes it was read from. -/
structure RoundTrips (s : Pager) (table : Table) (n : ℕ) (types : List ColumnType) : Prop where
  written : ∀ row : Row, row.values.map Value.columnType = types →
    ∃ bs : List UInt8, bs.length = catalogNodeRowSize (s.page 0) n ∧
      ∀ page dest, serializeRow row page dest = page.write dest bs
  restored : ∀ row : Row, row.values.map Value.columnType = types →
    (∀ v ∈ row.values, v.Padded) →
    ∀ page dest, deserializeRow s table (serializeRow row page dest) dest = .ok row
  reproduced : ∀ page source, ∃ row, deserializeRow s table page source = .ok row ∧
    ∀ page' dest, serializeRow row page' dest =
      page'.write dest (page.read source (catalogNodeRowSize (s.page 0) n))

/-- The width of a row, from the types in the catalog. -/
theorem rowSize_eq (htypes : storedTypes p n = types.map ColumnType.toByte) :
    catalogNodeRowSize p n = rowWidth types := by
  rw [catalogNodeRowSize, htypes, List.map_map, rowWidth]
  exact congrArg List.sum (List.map_congr_left fun t _ => typeWidth_toByte t)

/-- **The loops agree on every schema.** -/
theorem roundTrips (hfind : findTable (s.page 0) table.tableName = .ok n)
    (htypes : storedTypes (s.page 0) n = types.map ColumnType.toByte) :
    RoundTrips s table n types := by
  have hreads : Reads s table types := ⟨n, hfind, htypes⟩
  have hsize := rowSize_eq htypes
  refine ⟨?_, ?_, ?_⟩
  · intro row hrow
    refine ⟨rowBytes row.values, ?_, fun page dest => serializeRow_eq row page dest⟩
    rw [length_rowBytes, hrow, hsize]
  · intro row hrow hpadded page dest
    have hlen : (rowBytes row.values).length = rowWidth types := by rw [length_rowBytes, hrow]
    rw [hreads.deserializeRow, serializeRow_eq, ← hlen, Mem.read_write_self, ← hrow,
      decodeValues_rowBytes fun v hv => (hpadded v hv).normal]
  · intro page source
    refine ⟨_, hreads.deserializeRow page source, ?_⟩
    intro page' dest
    rw [serializeRow_eq, rowBytes_decodeValues (Mem.length_read ..), hsize]

/-- **Rows make the round trip in both directions**, for every schema in the catalog; and every cell
of a table in a reachable state is read and written back at its place without a change. -/
theorem rows_roundTrip :
    (∀ (s : Pager) (table : Table) (n : ℕ) (types : List ColumnType),
      findTable (s.page 0) table.tableName = .ok n →
      storedTypes (s.page 0) n = types.map ColumnType.toByte → RoundTrips s table n types) ∧
    ∀ (s : Pager) (name : List UInt8) (n leaf i : ℕ), Reachable Finishes s →
      catalogNodeFindTable (s.page 0) name = .ok (some n) →
      ∃ row, deserializeRow s (openTable s n name) (s.page leaf)
          (leafNodeValue i (catalogNodeRowSize (s.page 0) n)) = .ok row ∧
        serializeRow row (s.page leaf) (leafNodeValue i (catalogNodeRowSize (s.page 0) n)) =
          s.page leaf := by
  refine ⟨fun s table n types hfind htypes => roundTrips hfind htypes, ?_⟩
  intro s name n leaf i h hfind
  obtain ⟨ts, hdb⟩ := h.database
  obtain ⟨x, -, hholds⟩ := hdb.holds hfind
  obtain ⟨row, hread, hwrite⟩ := (roundTrips hholds.find hholds.describes.types).reproduced
    (s.page leaf) (leafNodeValue i (catalogNodeRowSize (s.page 0) n))
  exact ⟨row, hread, by rw [hwrite, Mem.write_read]⟩

/-- The row with the key `1` and the text `hi`. -/
theorem rows_roundTrip_notes : ∃ s, Reachable Finishes s ∧
    deserializeRow s (openTable s 0 notesName)
        (serializeRow (insertedRow (textRow (ascii "hi"))) (s.page 1) 14) 14 =
      .ok (insertedRow (textRow (ascii "hi"))) ∧
    ∃ row, deserializeRow s (openTable s 0 notesName) (s.page 1)
        (leafNodeValue 0 (catalogNodeRowSize (s.page 0) 0)) = .ok row ∧
      serializeRow row (s.page 1) (leafNodeValue 0 (catalogNodeRowSize (s.page 0) 0)) =
        s.page 1 := by
  obtain ⟨s, hreach, h, -⟩ := exists_textRow (ascii "hi") (by decide)
  refine ⟨s, hreach, ?_, rows_roundTrip.2 s notesName 0 1 0 hreach h.find⟩
  refine (rows_roundTrip.1 s _ 0 _ h.holds.find h.holds.describes.types).restored _
    (matches_textRow _).columnTypes ?_ _ _
  intro v hv
  obtain ⟨e, he, rfl⟩ := List.mem_map.mp hv
  refine padded_literalValue ?_ ?_
  · rintro text rfl
    rcases mem_textRow he with rfl | rfl
    · decide
    · exact List.not_mem_nil
  · rintro text rfl
    exact textsFit_textRow (by decide) text he

/-! ## Conditions on stored rows -/

/-- The name of a column is not that of a column in front of it. -/
theorem DistinctNames.tested (h : DistinctNames p n) (hi : i < catalogNodeColumnCount p n)
    (hname : nameEquals name (columnName p n i) = .ok true) :
    ∀ j < i, nameEquals name (columnName p n j) = .ok false := by
  obtain ⟨names, hlen, hfrom, hnodup⟩ := h
  rw [← hlen] at hi
  have hdecode := hfrom i hi
  rw [Nat.zero_add] at hdecode
  rw [nameEquals_of_decodeName hdecode] at hname
  have hsame : lowercase name = lowercase names[i] := beq_iff_eq.mp (Except.ok.inj hname)
  have hfind := findColumn_eq hfrom hlen.symm name
  rw [(resolveName_eq_some_iff hnodup hi).mpr hsame] at hfind
  exact (findColumn_tests hfind).2

/-- A text in its field is read as a C string, if it leaves room for the terminator. -/
theorem strlen_overwrite {text : List UInt8} (hlen : text.length < valueTextMaxLen)
    (hterm : 0 ∉ text) : strlen (TextField.zero.overwrite text).1 = .ok text.length := by
  obtain ⟨k, hk⟩ : ∃ k, valueTextMaxLen - text.length = k + 1 :=
    ⟨valueTextMaxLen - text.length - 1, by omega⟩
  rw [TextField.overwrite_zero hlen.le, hk, List.replicate_succ, strlen, cstrlen, if_pos (by simp),
    List.idxOf_append_of_notMem hterm, List.idxOf_cons_self, Nat.add_zero]

theorem typeMatches_text (h : typeMatches ColumnType.columnText.toByte e = true) :
    ∃ text, e = .literalString text := by
  cases e with
  | literalString text => exact ⟨text, rfl⟩
  | _ => simp [typeMatches, ColumnType.toByte] at h

theorem typeMatches_boolean (h : typeMatches ColumnType.columnBoolean.toByte e = true) :
    ∃ b, e = .literalBoolean b := by
  cases e with
  | literalBoolean b => exact ⟨b, rfl⟩
  | _ => simp [typeMatches, ColumnType.toByte] at h

/-- **A comparison with a stored literal** tells whether the literals are equal, unless the stored
one is a text that fills its field. -/
theorem valueMatches_literalValue {t : ColumnType} (he : typeMatches t.toByte e = true)
    (hliteral : typeMatches t.toByte literal = true)
    (hterm : ∀ text, e = .literalString text → 0 ∉ text)
    (hfit : ∀ text, e = .literalString text → text.length ≤ valueTextMaxLen) :
    valueMatches literal (literalValue e) = .ok (decide (e = literal)) ↔
      ∀ text, e = .literalString text → text.length < valueTextMaxLen := by
  cases t with
  | columnInteger =>
    obtain ⟨m, rfl⟩ := typeMatches_integer he
    obtain ⟨k, rfl⟩ := typeMatches_integer hliteral
    refine iff_of_true (congrArg Except.ok ?_) (by rintro _ ⟨⟩)
    rw [Bool.eq_iff_iff, beq_iff_eq, decide_eq_true_iff, Expr.literalInt.injEq, eq_comm]
  | columnBoolean =>
    obtain ⟨b, rfl⟩ := typeMatches_boolean he
    obtain ⟨c, rfl⟩ := typeMatches_boolean hliteral
    refine iff_of_true (congrArg Except.ok ?_) (by rintro _ ⟨⟩)
    cases b <;> cases c <;> rfl
  | columnText =>
    obtain ⟨text, rfl⟩ := typeMatches_text he
    obtain ⟨other, rfl⟩ := typeMatches_text hliteral
    constructor
    · rintro htest text' ⟨⟩
      by_contra hfull
      have hlen : text.length = valueTextMaxLen := le_antisymm (hfit text rfl) (not_lt.mp hfull)
      have hnone : 0 ∉ (TextField.zero.overwrite text).1 := by
        rw [TextField.overwrite_of_length hlen]
        exact hterm text rfl
      rw [literalValue, valueMatches_full hnone] at htest
      cases htest
    · intro hshort
      have hlen := hshort text rfl
      show literalStringEquals (.literalString other) (TextField.zero.overwrite text) = _
      unfold literalStringEquals
      rw [strlen_overwrite hlen (hterm text rfl), TextField.overwrite_zero hlen.le]
      show Except.ok (other.length == text.length && other == _) = _
      rw [List.take_left]
      refine congrArg Except.ok ?_
      rw [Bool.eq_iff_iff, Bool.and_eq_true, beq_iff_eq, beq_iff_eq, decide_eq_true_iff,
        Expr.literalString.injEq]
      constructor
      · exact fun h => h.2.symm
      · rintro rfl
        exact ⟨rfl, rfl⟩

/-- The condition `column = literal` of column `i`, tested on a row that was stored in the page and
read back, tells whether the value of the row is the literal; the test stays inside its fields. -/
def TestsExactly (s : Pager) (table : Table) (n i : ℕ) (name : List UInt8) (literal : Expr)
    (values : List Expr) (row : Row) (page : Page) (dest : ℕ) : Prop :=
  ∃ row', deserializeRow s table (serializeRow row page dest) dest = .ok row' ∧
    rowMatchesWhere (some (.equals (.column name) literal)) row' (s.page 0) n =
      .ok (decide (values[i]? = some literal))

/-- **The test compares the value that was stored.** -/
theorem testsExactly_iff_value (hfind : findTable (s.page 0) table.tableName = .ok n)
    (hd : Describes (s.page 0) n σ) (hnames : DistinctNames (s.page 0) n) (hm : Matches σ values)
    (hfit : TextsFit values) (hscan : AreScanned values) (hlt : i < values.length)
    (hname : nameEquals name (columnName (s.page 0) n i) = .ok true) (page : Page) (dest : ℕ) :
    TestsExactly s table n i name literal values (insertedRow values) page dest ↔
      valueMatches literal (literalValue values[i]) = .ok (decide (values[i] = literal)) := by
  have hread : deserializeRow s table (serializeRow (insertedRow values) page dest) dest =
      .ok (insertedRow values) := by
    rw [(hd.reads hfind).deserializeRow, serializeRow_eq, ← hm.length_rowBytes,
      Mem.read_write_self, hm.decodeValues hfit hscan]
  have hi : i < catalogNodeColumnCount (s.page 0) n := by
    rw [hd.columnCount, hm.length_eq]
    exact hlt
  have hget : values[i]? = some values[i] := List.getElem?_eq_getElem hlt
  have htest : rowMatchesWhere (some (.equals (.column name) literal)) (insertedRow values)
      (s.page 0) n = valueMatches literal (literalValue values[i]) := by
    refine rowMatchesFrom_found hname (hnames.tested hi hname) (Nat.zero_le i) ?_
    rw [Nat.sub_zero, insertedRow, List.getElem?_map, hget]
    rfl
  have hsame : decide (values[i]? = some literal) = decide (values[i] = literal) := by
    simp only [hget, Option.some_inj]
  unfold TestsExactly
  rw [hread, hsame, ← htest]
  constructor
  · rintro ⟨_, ⟨⟩, hok⟩
    exact hok
  · exact fun hok => ⟨_, rfl, hok⟩

/-- **A condition on a stored row is exact just when the text that it compares is shorter than its
field.** -/
theorem testsExactly_iff (hfind : findTable (s.page 0) table.tableName = .ok n)
    (hd : Describes (s.page 0) n σ) (hnames : DistinctNames (s.page 0) n) (hm : Matches σ values)
    (hscan : AreScanned values) (hrow : rowValues values = .ok (some vs))
    (hi : i < catalogNodeColumnCount (s.page 0) n)
    (hname : nameEquals name (columnName (s.page 0) n i) = .ok true)
    (htype : typeMatches (storedType (s.page 0) n i) literal = true) (page : Page) (dest : ℕ) :
    TestsExactly s table n i name literal values ⟨vs⟩ page dest ↔
      ∀ text, values[i]? = some (.literalString text) → text.length < valueTextMaxLen := by
  obtain ⟨hfit, rfl⟩ : TextsFit values ∧ vs = values.map literalValue := by
    rcases rowValues_eq values with ⟨hfit, heq⟩ | ⟨-, heq⟩
    · rw [heq] at hrow
      cases hrow
      exact ⟨hfit, rfl⟩
    · rw [heq] at hrow
      cases hrow
  rw [hd.columnCount] at hi
  have hlt : i < values.length := hm.length_eq ▸ hi
  have hmem : values[i] ∈ values := List.getElem_mem hlt
  have hvalue : typeMatches σ.types[i].toByte values[i] = true := hm.get hi hlt
  rw [hd.storedType hi] at htype
  have hexact := valueMatches_literalValue hvalue htype
    (fun text heq => hscan text (heq ▸ hmem)) (fun text heq => hfit text (heq ▸ hmem))
  rw [List.getElem?_eq_getElem hlt]
  simp only [Option.some_inj]
  rw [← hexact]
  exact testsExactly_iff_value hfind hd hnames hm hfit hscan hlt hname page dest

/-- The names of the columns of the notes. -/
theorem OneTable.distinctNames {t : PageTreeAny} (h : OneTable s notesName notes validNotes t) :
    DistinctNames (s.page 0) 0 := by
  refine ⟨notes.map ColumnDefinition.name, ?_, h.namesFrom (by decide), by decide⟩
  rw [h.columnCount, List.length_map]

theorem areScanned_textRow {text : List UInt8} (hterm : 0 ∉ text) : AreScanned (textRow text) := by
  intro text' h
  rcases mem_textRow h with rfl | rfl
  · exact hterm
  · exact List.not_mem_nil

/-- The condition `a = 'ab'` on a row with this text. -/
theorem testsExactly_iff_notes : ∃ s, Reachable Finishes s ∧
    TestsExactly s (openTable s 0 notesName) 0 1 [97] (.literalString [97, 98])
      (textRow [97, 98]) (insertedRow (textRow [97, 98])) (s.page 1) 14 := by
  obtain ⟨s, hreach, h, -⟩ := exists_notes
  have htype : storedType (s.page 0) 0 1 = ColumnType.columnText.toByte :=
    h.holds.describes.storedType (i := 1) (by decide)
  have hrow : rowValues (textRow [97, 98]) = .ok (some ((textRow [97, 98]).map literalValue)) := rfl
  refine ⟨s, hreach, (testsExactly_iff h.holds.find h.holds.describes h.distinctNames
    (matches_textRow _) (areScanned_textRow (by decide)) hrow (by rw [h.columnCount]; decide)
    (findColumn_tests h.findColumn_text).1 (by rw [htype]; rfl) _ _).mpr ?_⟩
  rintro _ ⟨⟩
  decide

/-- A text of 255 bytes is taken by `insert_command`; the condition `a = ''` runs over its end. -/
theorem not_testsExactly_full : ∃ s, Reachable Finishes s ∧ DistinctNames (s.page 0) 0 ∧
    Matches (schemaOf notes validNotes) (textRow (List.replicate 255 97)) ∧
    TextsFit (textRow (List.replicate 255 97)) ∧
    ∀ page dest, ¬ TestsExactly s (openTable s 0 notesName) 0 1 [97] (.literalString [])
      (textRow (List.replicate 255 97))
      (insertedRow (textRow (List.replicate 255 97))) page dest := by
  have hlen : (List.replicate 255 (97 : UInt8)).length = valueTextMaxLen :=
    List.length_replicate ..
  have hterm : (0 : UInt8) ∉ List.replicate 255 97 := fun h0 =>
    absurd (List.eq_of_mem_replicate h0) (by decide)
  generalize List.replicate 255 (97 : UInt8) = text at hlen hterm ⊢
  obtain ⟨s, hreach, h, -⟩ := exists_notes
  have hfit := textsFit_textRow hlen.le
  refine ⟨s, hreach, h.distinctNames, matches_textRow _, hfit, fun page dest hexact => ?_⟩
  have htest := (testsExactly_iff_value h.holds.find h.holds.describes h.distinctNames
    (matches_textRow _) hfit (areScanned_textRow hterm) (by exact Nat.succ_lt_succ (Nat.succ_pos _))
    (findColumn_tests h.findColumn_text).1 page dest).mp hexact
  have hfull : 0 ∉ (TextField.zero.overwrite text).1 := by
    rwa [TextField.overwrite_of_length hlen]
  have hfault := (valueMatches_full hfull [] text.length).symm.trans htest
  cases hfault

end MiniDB
