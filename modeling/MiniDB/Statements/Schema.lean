import MiniDB.Storage.Room
import MiniDB.Model.Table

/-!
# Schemas

What the catalog entry of a table says, as a value: the column types, and the number of the INTEGER
column that is the primary key.

* `Schema`, `Describes`: schemas, and the entries that stand for them.
* `Schema.one_le_maxCells`: a row of a schema always fits into a leaf.
* `literalValue`, `rowValues_eq`: the row that an `INSERT` builds.
-/

namespace MiniDB

open BPlusTree Pager

/-- The column types of a table and the position of its primary key. -/
structure Schema where
  types : List ColumnType
  primaryKey : ℕ
  bounded : types.length ≤ maxTableColumns
  integer : types[primaryKey]? = some .columnInteger

namespace Schema

/-- The width of the rows of a table. -/
abbrev rowSize (σ : Schema) : ℕ := rowWidth σ.types

theorem primaryKey_lt (σ : Schema) : σ.primaryKey < σ.types.length :=
  (List.getElem?_eq_some_iff.mp σ.integer).1

theorem rowWidth_le (types : List ColumnType) : rowWidth types ≤ 255 * types.length := by
  induction types with
  | nil => exact le_rfl
  | cons t ts ih =>
    have ht : t.width ≤ 255 := by cases t <;> decide
    rw [rowWidth_cons, List.length_cons]
    omega

/-- A leaf has room for a row at least. -/
theorem one_le_maxCells (σ : Schema) : 1 ≤ leafNodeMaxCells σ.rowSize := by
  have hle := rowWidth_le σ.types
  have hlen := σ.bounded
  have hwidth : leafNodeCellSize σ.rowSize ≤ leafNodeSpaceForCells := by
    simp only [leafNodeCellSize, keySize, leafNodeSpaceForCells, pageSize, leafNodeHeaderSize,
      maxTableColumns, rowSize] at *
    omega
  exact Nat.div_pos hwidth (Nat.add_pos_left (by decide) _)

end Schema

/-- Entry `n` of the catalog describes a table of the schema. -/
structure Describes (catalog : Page) (n : ℕ) (σ : Schema) : Prop where
  types : storedTypes catalog n = σ.types.map ColumnType.toByte
  primaryKey : catalogNodePrimaryKeyColumn catalog n = σ.primaryKey

variable {catalog : Page} {n : ℕ} {σ : Schema}

theorem Describes.columnCount (h : Describes catalog n σ) :
    catalogNodeColumnCount catalog n = σ.types.length := by
  have hlen := congrArg List.length h.types
  simpa [storedTypes] using hlen

theorem Describes.rowSize (h : Describes catalog n σ) :
    catalogNodeRowSize catalog n = σ.rowSize := by
  rw [catalogNodeRowSize, h.types, List.map_map, Schema.rowSize, rowWidth]
  exact congrArg List.sum (List.map_congr_left fun t _ => typeWidth_toByte t)

theorem Describes.storedType (h : Describes catalog n σ) {i : ℕ} (hi : i < σ.types.length) :
    storedType catalog n i = σ.types[i].toByte := by
  have hget := congrArg (fun l => l[i]?) h.types
  rw [List.getElem?_map, List.getElem?_eq_getElem hi, storedTypes, List.getElem?_map,
    List.getElem?_range (by rwa [h.columnCount])] at hget
  exact Option.some_inj.mp hget

theorem Describes.reads {s : Pager} {table : Table} (h : Describes (s.page 0) n σ)
    (hfind : findTable (s.page 0) table.tableName = .ok n) : Reads s table σ.types :=
  ⟨n, hfind, h.types⟩

theorem toByte_injective {t t' : ColumnType} (h : t.toByte = t'.toByte) : t = t' := by
  cases t <;> cases t' <;> first | rfl | exact absurd h (by decide)

/-- The columns of a table are stored in one way only. -/
theorem Describes.unique {τ : Schema} (h : Describes catalog n σ) (h' : Describes catalog n τ) :
    σ = τ := by
  have htypes : σ.types = τ.types :=
    List.map_injective_iff.mpr (fun _ _ => toByte_injective) (h.types.symm.trans h'.types)
  have hkey : σ.primaryKey = τ.primaryKey := h.primaryKey.symm.trans h'.primaryKey
  cases σ
  cases τ
  cases htypes
  cases hkey
  rfl

/-! ## Names -/

/-- The first index at which a test holds. -/
theorem findFirst_eq_some {test : ℕ → Exec Bool} {is : List ℕ} {i : ℕ}
    (h : findFirst test is = .ok (some i)) :
    ∃ l₁ l₂, is = l₁ ++ i :: l₂ ∧ test i = .ok true ∧ ∀ j ∈ l₁, test j = .ok false := by
  induction is with
  | nil => cases h
  | cons j is ih =>
    rw [findFirst] at h
    cases htest : test j with
    | error f =>
      rw [htest] at h
      cases h
    | ok b =>
      rw [htest] at h
      cases b with
      | true =>
        cases h
        exact ⟨[], is, rfl, htest, fun _ hj => absurd hj List.not_mem_nil⟩
      | false =>
        obtain ⟨l₁, l₂, rfl, hi, hl₁⟩ := ih h
        refine ⟨j :: l₁, l₂, rfl, hi, ?_⟩
        intro k hk
        rcases List.mem_cons.mp hk with rfl | hk
        · exact htest
        · exact hl₁ k hk

/-- What was found was searched. -/
theorem findFirst_mem {test : ℕ → Exec Bool} {is : List ℕ} {i : ℕ}
    (h : findFirst test is = .ok (some i)) : i ∈ is := by
  obtain ⟨l₁, l₂, rfl, -⟩ := findFirst_eq_some h
  exact List.mem_append_right l₁ List.mem_cons_self

/-- A search stumbles over what its test stumbles over. -/
theorem findFirst_fault {test : ℕ → Exec Bool} {is : List ℕ} {f f' : Fault}
    (htest : ∀ i f, test i = .error f → f = f') (h : findFirst test is = .error f) : f = f' := by
  induction is with
  | nil => cases h
  | cons i is ih =>
    rcases bind_eq_error h with h | ⟨b, -, h⟩
    · exact htest i f h
    · cases b with
      | true => cases h
      | false => exact ih h

/-- A column that was found is a column of the table. -/
theorem findColumn_lt {name : List UInt8} {i : ℕ}
    (hi : catalogNodeFindColumn catalog n name = .ok (some i)) :
    i < catalogNodeColumnCount catalog n := List.mem_range.mp (findFirst_mem hi)

theorem Describes.findColumn_lt (h : Describes catalog n σ) {name : List UInt8} {i : ℕ}
    (hi : catalogNodeFindColumn catalog n name = .ok (some i)) : i < σ.types.length :=
  h.columnCount ▸ MiniDB.findColumn_lt hi

/-! ## The row of an `INSERT` -/

/-- The value that a literal is stored as. -/
def literalValue : Expr → Value
  | .literalInt n => .integer n
  | .literalString text => .text (TextField.zero.overwrite text) text.length
  | .literalBoolean b => .boolean (boolByte b)
  | _ => .integer 0

/-- Every text fits into its field. -/
def TextsFit (values : List Expr) : Prop :=
  ∀ text, .literalString text ∈ values → text.length ≤ valueTextMaxLen

/-- The row that an `INSERT` stores. -/
def insertedRow (values : List Expr) : Row := ⟨values.map literalValue⟩

theorem textsFit_cons {e : Expr} {es : List Expr} :
    TextsFit (e :: es) ↔
      (∀ text, e = .literalString text → text.length ≤ valueTextMaxLen) ∧ TextsFit es := by
  simp only [TextsFit, List.mem_cons, or_imp, forall_and]
  exact and_congr_left' (forall_congr' fun text => by rw [eq_comm])

theorem rowValues_text (text : List UInt8) (es : List Expr) :
    rowValues (.literalString text :: es) =
      if valueTextMaxLen < text.length then .ok none
      else do return (← rowValues es).map (literalValue (.literalString text) :: ·) := rfl

theorem rowValues_other {e : Expr} (es : List Expr) (he : ∀ text, e ≠ .literalString text) :
    rowValues (e :: es) = do return (← rowValues es).map (literalValue e :: ·) := by
  cases e with
  | literalString text => exact absurd rfl (he text)
  | _ => rfl

/-- The row is filled, unless a text is too long. -/
theorem rowValues_eq (values : List Expr) :
    (TextsFit values ∧ rowValues values = .ok (some (values.map literalValue))) ∨
      (¬ TextsFit values ∧ rowValues values = .ok none) := by
  induction values with
  | nil => exact Or.inl ⟨fun _ h => absurd h List.not_mem_nil, rfl⟩
  | cons e es ih =>
    rw [textsFit_cons]
    by_cases htext : ∃ text, e = .literalString text
    · obtain ⟨text, rfl⟩ := htext
      rw [rowValues_text]
      by_cases hlen : valueTextMaxLen < text.length
      · rw [if_pos hlen]
        exact Or.inr ⟨fun h => absurd (h.1 text rfl) (not_le.mpr hlen), rfl⟩
      · have hfits : ∀ t, Expr.literalString text = .literalString t →
            t.length ≤ valueTextMaxLen := by
          rintro _ ⟨⟩
          exact not_lt.mp hlen
        rw [if_neg hlen]
        rcases ih with ⟨hfit, heq⟩ | ⟨hno, heq⟩
        · exact Or.inl ⟨⟨hfits, hfit⟩, by rw [heq]; rfl⟩
        · exact Or.inr ⟨fun h => hno h.2, by rw [heq]; rfl⟩
    · have hother : ∀ text, e ≠ .literalString text := fun text h => htext ⟨text, h⟩
      rw [rowValues_other es hother]
      rcases ih with ⟨hfit, heq⟩ | ⟨hno, heq⟩
      · exact Or.inl ⟨⟨fun text h => absurd h (hother text), hfit⟩, by rw [heq]; rfl⟩
      · exact Or.inr ⟨fun h => hno h.2, by rw [heq]; rfl⟩

/-- A literal that goes with a column type is stored as a value of that type. -/
theorem columnType_literalValue {t : ColumnType} {e : Expr} (h : typeMatches t.toByte e = true) :
    (literalValue e).columnType = t := by
  cases e with
  | literalInt n => exact (toByte_injective (of_decide_eq_true h)).symm
  | literalString text => exact (toByte_injective (of_decide_eq_true h)).symm
  | literalBoolean b => exact (toByte_injective (of_decide_eq_true h)).symm
  | column name => exact absurd h (by simp [typeMatches])
  | equals l r => exact absurd h (by simp [typeMatches])

end MiniDB
