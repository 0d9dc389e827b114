import MiniDB.Statements.Names
import MiniDB.Statements.Walk

/-!
# Conditions that compare a column with a literal

* `WhereTyped`: the condition is absent, or `column = literal` with a literal of the column's type.
* `testRow_equals`: the test of such a condition compares one value of the row.
* `Testable`, `testable_iff`: **the test goes wrong just when it reads a text that fills its
  field**.
* `Matches.decodeValues`: a row that was inserted is read back.
-/

namespace MiniDB

open BPlusTree Pager

/-- The condition is absent, or it compares a column of the table with a literal of its type. -/
inductive WhereTyped (catalog : Page) (n : ℕ) : Option Expr → Prop
  | absent : WhereTyped catalog n none
  | equals {name : List UInt8} {value : Expr} {i : ℕ} :
      catalogNodeFindColumn catalog n name = .ok (some i) →
      typeMatches (storedType catalog n i) value = true →
      WhereTyped catalog n (some (.equals (.column name) value))

variable {catalog : Page} {n i : ℕ} {σ : Schema} {name : List UInt8} {value : Expr} {c : Cell}
  {where_ : Option Expr}

/-! ## The test -/

/-- What was tested when a column was found. -/
theorem findColumn_tests (h : catalogNodeFindColumn catalog n name = .ok (some i)) :
    nameEquals name (columnName catalog n i) = .ok true ∧
      ∀ j < i, nameEquals name (columnName catalog n j) = .ok false := by
  obtain ⟨l₁, l₂, heq, hi, hl₁⟩ := findFirst_eq_some h
  have hlen : l₁.length = i := by
    have hget := congrArg (fun l => l[l₁.length]?) heq
    simp only [List.getElem?_append_right le_rfl, Nat.sub_self, List.getElem?_cons_zero] at hget
    obtain ⟨hlt, hval⟩ := List.getElem?_eq_some_iff.mp hget
    rwa [List.getElem_range] at hval
  refine ⟨hi, ?_⟩
  intro j hj
  refine hl₁ j ?_
  have hget := congrArg (fun l => l[j]?) heq
  simp only [List.getElem?_append_left (show j < l₁.length by omega)] at hget
  refine List.mem_of_getElem? (i := j) (hget.symm.trans ?_)
  rw [List.getElem?_range]
  exact hj.trans (findColumn_lt h)

/-- The loop of `row_matches_where` compares the column that `catalog_node_find_column` finds. -/
theorem rowMatchesFrom_found {k : ℕ} {vs : List Value} {v : Value}
    (hfound : nameEquals name (columnName catalog n i) = .ok true)
    (hbefore : ∀ j < i, nameEquals name (columnName catalog n j) = .ok false) (hk : k ≤ i)
    (hv : vs[i - k]? = some v) :
    rowMatchesFrom (.column name) value catalog n k vs = valueMatches value v := by
  induction vs generalizing k with
  | nil => cases hv
  | cons w vs ih =>
    have hname : columnNameIs (.column name) (columnName catalog n k) =
        nameEquals name (columnName catalog n k) := rfl
    rw [rowMatchesFrom, hname]
    rcases Nat.lt_or_eq_of_le hk with hlt | rfl
    · rw [hbefore k hlt]
      show rowMatchesFrom _ _ _ _ _ _ = _
      refine ih hlt ?_
      rwa [show i - k = (i - (k + 1)) + 1 by omega, List.getElem?_cons_succ] at hv
    · rw [Nat.sub_self, List.getElem?_cons_zero, Option.some_inj] at hv
      rw [hfound, hv]
      rfl

/-- The value of a column that was found. -/
theorem Describes.getElem?_decodeValues (h : Describes catalog n σ)
    (hi : catalogNodeFindColumn catalog n name = .ok (some i)) (bs : List UInt8) :
    ∃ v, (decodeValues σ.types bs)[i]? = some v ∧
      v.columnType.toByte = MiniDB.storedType catalog n i := by
  have hlt := h.findColumn_lt hi
  have hlen : i < (decodeValues σ.types bs).length := by rwa [length_decodeValues]
  refine ⟨_, List.getElem?_eq_getElem hlen, ?_⟩
  have htypes := map_columnType_decodeValues σ.types bs
  have hget := congrArg (fun l => l[i]?) htypes
  rw [List.getElem?_map, List.getElem?_eq_getElem hlen, List.getElem?_eq_getElem hlt,
    Option.map_some, Option.some_inj] at hget
  rw [hget, h.storedType hlt]

/-- **The test compares the value of the column.** -/
theorem testRow_equals (hi : catalogNodeFindColumn catalog n name = .ok (some i)) {v : Value}
    {bs : List UInt8} (hv : (decodeValues σ.types bs)[i]? = some v) :
    testRow σ catalog n (some (.equals (.column name) value)) bs = valueMatches value v := by
  obtain ⟨hfound, hbefore⟩ := findColumn_tests hi
  exact rowMatchesFrom_found hfound hbefore (Nat.zero_le i) hv

/-! ## Texts that fill their fields -/

/-- The value is no text that fills its field. -/
def Value.Ends : Value → Prop
  | .text field _ => 0 ∈ field.1
  | _ => True

/-- A text that fills its field is read beyond its end. -/
theorem valueMatches_full {field : TextField} (h : 0 ∉ field.1) (text : List UInt8) (length : ℕ) :
    valueMatches (.literalString text) (.text field length) = .error .unterminated := by
  show literalStringEquals (.literalString text) field = _
  unfold literalStringEquals strlen cstrlen
  rw [if_neg h]
  rfl

/-- A comparison with a literal of the right type reads the text to its end. -/
theorem valueMatches_fault_iff {v : Value} (h : typeMatches v.columnType.toByte value = true) :
    (∀ f, valueMatches value v ≠ .error f) ↔ v.Ends := by
  cases v with
  | integer m =>
    cases value with
    | literalInt k => exact ⟨fun _ => trivial, fun _ f hf => by cases hf⟩
    | _ => simp [typeMatches, Value.columnType, ColumnType.toByte] at h
  | boolean b =>
    cases value with
    | literalBoolean k => exact ⟨fun _ => trivial, fun _ f hf => by cases hf⟩
    | _ => simp [typeMatches, Value.columnType, ColumnType.toByte] at h
  | text field length =>
    cases value with
    | literalString text =>
      by_cases h0 : 0 ∈ field.1
      · refine ⟨fun _ => h0, fun _ f => ?_⟩
        show literalStringEquals (.literalString text) field ≠ .error f
        unfold literalStringEquals strlen cstrlen
        rw [if_pos h0]
        rintro ⟨⟩
      · exact ⟨fun hall => absurd (valueMatches_full h0 text length) (hall .unterminated),
          fun hmem => absurd hmem h0⟩
    | _ => simp [typeMatches, Value.columnType, ColumnType.toByte] at h

/-- The condition reads no text of the row that fills its field. -/
def Testable (σ : Schema) (catalog : Page) (n : ℕ) (where_ : Option Expr) (c : Cell) : Prop :=
  ∀ name value i v, where_ = some (.equals (.column name) value) →
    catalogNodeFindColumn catalog n name = .ok (some i) →
    (decodeValues σ.types c.2)[i]? = some v → v.Ends

/-- **What a test can stumble over** is a text that fills its field. -/
theorem testable_iff (hd : Describes catalog n σ) (hw : WhereTyped catalog n where_) :
    Testable σ catalog n where_ c ↔ ∀ f, ¬ Faulty σ catalog n where_ f c := by
  cases hw with
  | absent =>
    constructor
    · intro _ f hf
      cases hf
    · rintro - name value i v ⟨⟩
  | @equals name value i hi htype =>
    obtain ⟨v, hv, hvt⟩ := hd.getElem?_decodeValues hi c.2
    rw [← hvt] at htype
    have hends := valueMatches_fault_iff htype
    have htest : testRow σ catalog n (some (.equals (.column name) value)) c.2 =
        valueMatches value v := testRow_equals hi hv
    unfold Faulty
    rw [htest]
    refine Iff.trans ?_ hends.symm
    constructor
    · exact fun h => h name value i v rfl hi hv
    · rintro h _ _ j w ⟨⟩ hj hw
      have hij := hi.symm.trans hj
      cases hij
      have hvw := hv.symm.trans hw
      cases hvw
      exact h

/-! ## Rows that were inserted -/

/-- A text that fits stands in its field. -/
theorem padded_literalValue {e : Expr} (hscan : ∀ text, e = .literalString text → 0 ∉ text)
    (hfit : ∀ text, e = .literalString text → text.length ≤ valueTextMaxLen) :
    (literalValue e).Padded := by
  cases e with
  | literalString text =>
    exact ⟨text, rfl, hscan text rfl, TextField.overwrite_zero (hfit text rfl)⟩
  | _ => trivial

/-- **A row that was inserted is read back.** -/
theorem Matches.decodeValues {values : List Expr} (h : Matches σ values) (hfit : TextsFit values)
    (hscan : ∀ text, .literalString text ∈ values → 0 ∉ text) :
    MiniDB.decodeValues σ.types (rowBytes (insertedRow values).values) =
      (insertedRow values).values := by
  rw [← h.columnTypes]
  refine decodeValues_rowBytes ?_
  intro v hv
  obtain ⟨e, he, rfl⟩ := List.mem_map.mp hv
  refine (padded_literalValue ?_ ?_).normal
  · rintro text rfl
    exact hscan text he
  · rintro text rfl
    exact hfit text he

end MiniDB
