import MiniDB.Statements.Create

/-!
# Names in the catalog

A name field holds a C string, and every comparison of names reads the string out of the field and
compares without regard to case.

* `decodeName`: the name that a field holds.
* `decodeName_eq_ok_iff`: it ends at the first terminator of the field.
* `nameEquals_eq`: **a comparison decodes the field and compares in lower case**.
* `findFirst_congr`, `findFirst_eq_none`: the search for a name.
-/

namespace MiniDB

/-- A name as it is read back from its field. -/
def decodeName (field : List UInt8) : Exec (List UInt8) := do
  return field.take (← strlen field)

/-- A name without regard to case. -/
def lowercase (name : List UInt8) : List UInt8 := name.map tolower

theorem length_lowercase (name : List UInt8) : (lowercase name).length = name.length :=
  List.length_map _

variable {field name other : List UInt8}

/-- A field without a terminator is no string. -/
theorem decodeName_of_notMem (h : 0 ∉ field) : decodeName field = .error .unterminated := by
  unfold decodeName strlen cstrlen
  rw [if_neg h]
  rfl

/-- The name in front of the first terminator. -/
theorem decodeName_append (hterm : 0 ∉ name) (rest : List UInt8) :
    decodeName (name ++ 0 :: rest) = .ok name := by
  unfold decodeName strlen cstrlen
  rw [if_pos (by simp), List.idxOf_append_of_notMem hterm, List.idxOf_cons_self, Nat.add_zero]
  show Except.ok _ = _
  rw [List.take_left]

/-- **The name in a field ends at the first terminator.** -/
theorem decodeName_eq_ok_iff :
    decodeName field = .ok name ↔ 0 ∉ name ∧ ∃ rest, field = name ++ 0 :: rest := by
  constructor
  · intro h
    by_cases h0 : 0 ∈ field
    · obtain ⟨front, rest, rfl, hfront⟩ := List.eq_append_cons_of_mem h0
      rw [decodeName_append hfront] at h
      cases h
      exact ⟨hfront, rest, rfl⟩
    · rw [decodeName_of_notMem h0] at h
      cases h
  · rintro ⟨hterm, rest, rfl⟩
    exact decodeName_append hterm rest

/-- A name that is shorter than its field is read back. -/
theorem decodeName_nameField (h : name.length < columnNameSize) (hterm : 0 ∉ name) :
    decodeName (nameField name) = .ok name := by
  obtain ⟨k, hk⟩ : ∃ k, columnNameSize - name.length = k + 1 :=
    ⟨columnNameSize - name.length - 1, by omega⟩
  rw [decodeName_eq_ok_iff, nameField, hk, List.replicate_succ]
  exact ⟨hterm, _, rfl⟩

/-- A name that is read back from a field is shorter than the field. -/
theorem length_lt_of_decodeName (h : decodeName field = .ok name) :
    name.length < field.length := by
  obtain ⟨-, rest, rfl⟩ := decodeName_eq_ok_iff.mp h
  simp

/-- **A comparison reads the name and compares in lower case.** -/
theorem nameEquals_eq (name field : List UInt8) :
    nameEquals name field = do return lowercase name == lowercase (← decodeName field) := by
  by_cases h0 : 0 ∈ field
  · obtain ⟨stored, rest, rfl, hterm⟩ := List.eq_append_cons_of_mem h0
    rw [decodeName_append hterm]
    unfold nameEquals strlen cstrlen
    rw [if_pos h0, List.idxOf_append_of_notMem hterm, List.idxOf_cons_self, Nat.add_zero]
    show Except.ok _ = Except.ok _
    rw [List.take_left]
    congr 1
    rw [Bool.eq_iff_iff, Bool.and_eq_true, beq_iff_eq, beq_iff_eq, beq_iff_eq]
    constructor
    · exact fun h => h.2
    · intro h
      refine ⟨?_, h⟩
      have heq := congrArg List.length h
      rwa [length_lowercase, length_lowercase] at heq
  · rw [decodeName_of_notMem h0]
    unfold nameEquals strlen cstrlen
    rw [if_neg h0]
    rfl

/-- A comparison with a name that can be read back. -/
theorem nameEquals_of_decodeName (h : decodeName field = .ok other) :
    nameEquals name field = .ok (lowercase name == lowercase other) := by
  rw [nameEquals_eq, h]
  rfl

/-! ## Searches -/

/-- A search depends on its tests. -/
theorem findFirst_congr {test test' : ℕ → Exec Bool} {is : List ℕ}
    (h : ∀ i ∈ is, test i = test' i) : findFirst test is = findFirst test' is := by
  induction is with
  | nil => rfl
  | cons i is ih =>
    rw [findFirst, findFirst, h i List.mem_cons_self,
      ih fun j hj => h j (List.mem_cons_of_mem _ hj)]

/-- Which table a name stands for depends on the entries there are. -/
theorem catalogNodeFindTable_congr {p q : Page}
    (h : ∀ k < catalogNodeTable (catalogNodeNumTables p), q k = p k) (name : List UInt8) :
    catalogNodeFindTable q name = catalogNodeFindTable p name := by
  unfold catalogNodeFindTable
  rw [numTables_congr h]
  refine findFirst_congr fun i hi => ?_
  have hlt := List.mem_range.mp hi
  have hname : catalogNodeName q i = catalogNodeName p i := by
    refine Mem.read_congr ?_
    intro k hk
    refine h _ ?_
    simp only [catalogNodeTable_eq, tableNameOffset]
    omega
  rw [hname]

/-- The entries there are keep their names. -/
theorem Created.name_eq {s s' : Pager} {name : List UInt8} {definitions : List ColumnDefinition}
    {hv : ValidDefinitions definitions} (h : Created s name definitions hv s') {i : ℕ}
    (hi : i < catalogNodeNumTables (s.page 0)) :
    catalogNodeName (s'.page 0) i = catalogNodeName (s.page 0) i := by
  refine Mem.read_congr ?_
  intro k hk
  refine h.entries _ ?_ ?_ <;>
    simp only [catalogNodeTable_eq, tableNameOffset, catalogEntriesOffset] <;> omega

/-- A search that comes to its end has made every test. -/
theorem findFirst_eq_none {test : ℕ → Exec Bool} {is : List ℕ}
    (h : findFirst test is = .ok none) : ∀ i ∈ is, test i = .ok false := by
  induction is with
  | nil => exact fun i hi => absurd hi List.not_mem_nil
  | cons j is ih =>
    rw [findFirst] at h
    obtain ⟨b, htest, h⟩ := bind_eq_ok h
    cases b with
    | true => cases h
    | false =>
      intro i hi
      rcases List.mem_cons.mp hi with rfl | hi
      · exact htest
      · exact ih h i hi

end MiniDB
