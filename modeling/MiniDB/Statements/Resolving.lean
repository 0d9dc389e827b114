import MiniDB.Parsing.Trees
import MiniDB.Statements.Names

/-!
# The loops that resolve column names

Five loops of the program look a column name up in the catalog entry of a table, each on its own.
When every name of the entry can be read back, they all find the first column of that name; the one
that only looks at the primary key column agrees with the others when no two columns share a name.

* `NamesFrom`, `resolveName`: the names of an entry, and the first column of a name.
* `findColumn_eq`, `rowMatchesFrom_eq`, `projectColumn_eq`, `columnExists_eq`, `isPrimaryKey_eq`:
  the loops.
* `ResolversAgree`, `DistinctNames`: the agreement, and when there is one.
* `resolversAgree_iff`: **they agree just when the names are distinct and can be read back**.
-/

namespace MiniDB

/-- The columns from `i` on have these names. -/
def NamesFrom (p : Page) (n i : ℕ) (names : List (List UInt8)) : Prop :=
  ∀ j (h : j < names.length), decodeName (columnName p n (i + j)) = .ok names[j]

/-- The first of the names that is the given one, without regard to case. -/
def resolveName (names : List (List UInt8)) (name : List UInt8) : Option ℕ :=
  names.findIdx? fun other => lowercase name == lowercase other

variable {p : Page} {n i : ℕ} {name other : List UInt8} {names : List (List UInt8)}

theorem NamesFrom.head (h : NamesFrom p n i (other :: names)) :
    decodeName (columnName p n i) = .ok other := h 0 (Nat.succ_pos _)

theorem NamesFrom.tail (h : NamesFrom p n i (other :: names)) : NamesFrom p n (i + 1) names := by
  intro j hj
  have hname := h (j + 1) (Nat.succ_lt_succ hj)
  rw [show i + (j + 1) = i + 1 + j by omega] at hname
  exact hname

/-- The test of column `i`. -/
theorem NamesFrom.test (h : NamesFrom p n i (other :: names)) (name : List UInt8) :
    nameEquals name (columnName p n i) = .ok (lowercase name == lowercase other) :=
  nameEquals_of_decodeName h.head

theorem resolveName_cons (other : List UInt8) (names : List (List UInt8)) (name : List UInt8) :
    resolveName (other :: names) name =
      if lowercase name == lowercase other then some 0 else (resolveName names name).map (· + 1) :=
  List.findIdx?_cons ..

/-! ## The loops -/

/-- The loop of `catalog_node_find_column`, from column `i` on. -/
theorem findFirst_names (h : NamesFrom p n i names) (name : List UInt8) :
    findFirst (fun i => nameEquals name (columnName p n i)) (List.range' i names.length) =
      .ok ((resolveName names name).map (i + ·)) := by
  induction names generalizing i with
  | nil => rfl
  | cons other names ih =>
    rw [List.length_cons, List.range'_succ, findFirst, h.test, resolveName_cons]
    cases hname : lowercase name == lowercase other with
    | true => rfl
    | false =>
      show findFirst _ _ = _
      rw [ih h.tail, if_neg Bool.false_ne_true, Option.map_map]
      congr 2
      funext j
      exact Nat.add_right_comm i 1 j

theorem findColumn_eq (h : NamesFrom p n 0 names) (hlen : catalogNodeColumnCount p n = names.length)
    (name : List UInt8) : catalogNodeFindColumn p n name = .ok (resolveName names name) := by
  rw [catalogNodeFindColumn, hlen, List.range_eq_range', findFirst_names h]
  simp

/-- The inner loop of `validate_columns`. -/
theorem columnExists_eq (h : NamesFrom p n 0 names)
    (hlen : catalogNodeColumnCount p n = names.length) (name : List UInt8) :
    columnExists p n (.column name) = .ok (resolveName names name).isSome := by
  have hfind := findColumn_eq h hlen name
  unfold catalogNodeFindColumn at hfind
  unfold columnExists
  show (findFirst (fun i => nameEquals name (columnName p n i)) _ >>= _) = _
  rw [hfind]
  rfl

/-- The loop of `row_matches_where`. -/
theorem rowMatchesFrom_eq (h : NamesFrom p n i names) (name : List UInt8) (value : Expr)
    {vs : List Value} (hlen : vs.length = names.length) :
    rowMatchesFrom (.column name) value p n i vs =
      match (resolveName names name).bind (vs[·]?) with
      | some v => valueMatches value v
      | none => .ok false := by
  induction names generalizing i vs with
  | nil =>
    rw [List.length_eq_zero_iff.mp hlen]
    rfl
  | cons other names ih =>
    obtain ⟨v, vs, rfl⟩ := List.exists_cons_of_length_eq_add_one hlen
    have htest : columnNameIs (.column name) (columnName p n i) =
        .ok (lowercase name == lowercase other) := h.test name
    rw [rowMatchesFrom, htest, resolveName_cons]
    cases hname : lowercase name == lowercase other with
    | true => rfl
    | false =>
      show rowMatchesFrom _ _ _ _ _ _ = _
      rw [ih h.tail (Nat.succ.inj hlen), if_neg Bool.false_ne_true, Option.bind_map]
      rfl

/-- The inner loop of `projection_next`. -/
theorem projectColumn_eq (h : NamesFrom p n i names) (name : List UInt8) {vs : List Value}
    (hlen : vs.length = names.length) :
    projectColumn p n (.column name) i vs =
      match (resolveName names name).bind (vs[·]?) with
      | some v => .ok v
      | none => .error .uninitialised := by
  induction names generalizing i vs with
  | nil =>
    rw [List.length_eq_zero_iff.mp hlen]
    rfl
  | cons other names ih =>
    obtain ⟨v, vs, rfl⟩ := List.exists_cons_of_length_eq_add_one hlen
    have htest : columnNameIs (.column name) (columnName p n i) =
        .ok (lowercase name == lowercase other) := h.test name
    rw [projectColumn, htest, resolveName_cons]
    cases hname : lowercase name == lowercase other with
    | true => rfl
    | false =>
      show projectColumn _ _ _ _ _ = _
      rw [ih h.tail (Nat.succ.inj hlen), if_neg Bool.false_ne_true, Option.bind_map]
      rfl

theorem isPrimaryKey_eq (h : NamesFrom p n 0 names)
    (hpk : catalogNodePrimaryKeyColumn p n < names.length) (name : List UInt8) :
    isPrimaryKey p n name =
      .ok (lowercase name == lowercase names[catalogNodePrimaryKeyColumn p n]) := by
  have hname := h _ hpk
  rw [Nat.zero_add] at hname
  exact nameEquals_of_decodeName hname

/-! ## Distinct names -/

/-- A name that occurs is resolved to its own column when the names are distinct. -/
theorem resolveName_eq_some_iff (hnd : (names.map lowercase).Nodup) (hi : i < names.length) :
    resolveName names name = some i ↔ lowercase name = lowercase names[i] := by
  rw [resolveName, List.findIdx?_eq_some_iff_getElem]
  constructor
  · rintro ⟨_, htest, -⟩
    exact beq_iff_eq.mp htest
  · intro heq
    refine ⟨hi, beq_iff_eq.mpr heq, ?_⟩
    intro j hj htest
    have hsame := heq.symm.trans (beq_iff_eq.mp htest)
    have hi' : i < (names.map lowercase).length := by rwa [List.length_map]
    have hsame' : (names.map lowercase)[i] = (names.map lowercase)[j] := by
      rw [List.getElem_map, List.getElem_map]
      exact hsame
    have hij := (List.Nodup.getElem_inj_iff hnd).mp hsame'
    omega

/-- Only the lower case of a name matters. -/
theorem resolveName_congr {name' : List UInt8} (h : lowercase name = lowercase name') :
    resolveName names name = resolveName names name' := by
  unfold resolveName
  rw [h]

/-- The names of the columns of a table can be read back, and no two of them are the same. -/
def DistinctNames (p : Page) (n : ℕ) : Prop :=
  ∃ names : List (List UInt8), names.length = catalogNodeColumnCount p n ∧
    NamesFrom p n 0 names ∧ (names.map lowercase).Nodup

/-! ## The agreement -/

/-- Every resolver finds the column `found` under the name, or no column. -/
structure ResolvesTo (s : Pager) (n : ℕ) (name : List UInt8) (found : Option ℕ) : Prop where
  find : catalogNodeFindColumn (s.page 0) n name = .ok found
  compare : ∀ (value : Expr) (vs : List Value), vs.length = catalogNodeColumnCount (s.page 0) n →
    rowMatchesWhere (some (.equals (.column name) value)) ⟨vs⟩ (s.page 0) n =
      match found.bind (vs[·]?) with
      | some v => valueMatches value v
      | none => .ok false
  project : ∀ vs : List Value, vs.length = catalogNodeColumnCount (s.page 0) n →
    projectRow (s.page 0) n ⟨vs⟩ [.column name] =
      match found.bind (vs[·]?) with
      | some v => .ok [v]
      | none => .error .uninitialised
  validateColumn : ∀ table : Table, validateColumns s table n [.column name] none =
    .ok (if found.isSome then none else some (noSuchColumn name table.tableName))
  validateWhere : ∀ (table : Table) (value : Expr),
    validateColumns s table n [] (some (.equals (.column name) value)) =
      .ok (if found.isSome then none else some (noSuchColumn name table.tableName))
  primary : isPrimaryKey (s.page 0) n name =
    .ok (found == some (catalogNodePrimaryKeyColumn (s.page 0) n))

/-- **The resolvers agree** on every identifier of fewer than 32 bytes, and every column is found
under its own name. -/
structure ResolversAgree (s : Pager) (n : ℕ) : Prop where
  agree : ∀ name, IsWord name → name.length < columnNameSize → ∃ found, ResolvesTo s n name found
  own : ∀ i < catalogNodeColumnCount (s.page 0) n, ∃ name,
    decodeName (columnName (s.page 0) n i) = .ok name ∧
      catalogNodeFindColumn (s.page 0) n name = .ok (some i)

variable {s : Pager}

/-- What `validate_columns` makes of the columns of a statement. -/
theorem validateColumns_of_exists {b : Bool}
    (h : columnExists (s.page 0) n (.column name) = .ok b) (table : Table) :
    validateColumns s table n [.column name] none =
        .ok (if b then none else some (noSuchColumn name table.tableName)) ∧
      ∀ value : Expr, validateColumns s table n [] (some (.equals (.column name) value)) =
        .ok (if b then none else some (noSuchColumn name table.tableName)) := by
  constructor
  · show missingColumns (s.page 0) table n [.column name] = _
    rw [missingColumns, h]
    cases b <;> rfl
  · intro value
    unfold validateColumns
    show (columnExists (s.page 0) n (.column name) >>= _) = _
    rw [h]
    cases b <;> rfl

/-- A condition on a column that is there leaves the columns of the `SELECT` to check. -/
theorem validateColumns_equals {columns : List Expr} (table : Table) (value : Expr)
    (h : columnExists (s.page 0) n (.column name) = .ok true) :
    validateColumns s table n columns (some (.equals (.column name) value)) =
      missingColumns (s.page 0) table n columns := by
  unfold validateColumns
  show (columnExists (s.page 0) n (.column name) >>= _) = _
  rw [h]
  rfl

/-- Names that can be read back and differ are resolved in the same way by all loops. -/
theorem resolvesTo_resolveName (h : NamesFrom (s.page 0) n 0 names)
    (hlen : names.length = catalogNodeColumnCount (s.page 0) n)
    (hnd : (names.map lowercase).Nodup)
    (hpk : catalogNodePrimaryKeyColumn (s.page 0) n < names.length) (name : List UInt8) :
    ResolvesTo s n name (resolveName names name) := by
  have hexists := columnExists_eq h hlen.symm name
  refine ⟨findColumn_eq h hlen.symm name, ?_, ?_,
    fun table => (validateColumns_of_exists hexists table).1,
    fun table => (validateColumns_of_exists hexists table).2, ?_⟩
  · intro value vs hvs
    exact rowMatchesFrom_eq h name value (hvs.trans hlen.symm)
  · intro vs hvs
    rw [projectRow, projectColumn_eq h name (hvs.trans hlen.symm)]
    cases (resolveName names name).bind (vs[·]?) <;> rfl
  · rw [isPrimaryKey_eq h hpk]
    congr 1
    rw [Bool.eq_iff_iff, beq_iff_eq, beq_iff_eq]
    exact (resolveName_eq_some_iff hnd hpk).symm

/-- **The resolvers agree just when the names are distinct** and can be read back. -/
theorem resolversAgree_iff
    (hpk : catalogNodePrimaryKeyColumn (s.page 0) n < catalogNodeColumnCount (s.page 0) n) :
    ResolversAgree s n ↔ DistinctNames (s.page 0) n := by
  constructor
  · intro h
    choose name hname hfind using h.own
    obtain ⟨names, hnames⟩ : ∃ names : List (List UInt8),
        names = List.ofFn fun i : Fin (catalogNodeColumnCount (s.page 0) n) => name i i.2 :=
      ⟨_, rfl⟩
    have hlen : names.length = catalogNodeColumnCount (s.page 0) n := by
      rw [hnames, List.length_ofFn]
    have hget : ∀ i (hi : i < names.length), names[i] = name i (hlen ▸ hi) := by
      subst hnames
      intro i hi
      rw [List.getElem_ofFn]
    have hfrom : NamesFrom (s.page 0) n 0 names := by
      intro i hi
      rw [hget i hi, Nat.zero_add]
      exact hname i _
    refine ⟨names, hlen, hfrom, ?_⟩
    -- two columns of one name are found at the same place
    have hown : ∀ i (hi : i < names.length), resolveName names names[i] = some i := by
      intro i hi
      have hi' := hfind i (hlen ▸ hi)
      rw [← hget i hi, findColumn_eq hfrom hlen.symm] at hi'
      exact Except.ok.inj hi'
    rw [List.nodup_iff_injective_getElem]
    rintro ⟨i, hi⟩ ⟨j, hj⟩ heq
    rw [List.length_map] at hi hj
    simp only [List.getElem_map] at heq
    have hsame := (hown i hi).symm.trans ((resolveName_congr heq).trans (hown j hj))
    exact Fin.ext (Option.some_inj.mp hsame)
  · rintro ⟨names, hlen, hfrom, hnd⟩
    constructor
    · intro name _ _
      exact ⟨_, resolvesTo_resolveName hfrom hlen hnd (by omega) name⟩
    · intro i hi
      rw [← hlen] at hi
      refine ⟨names[i], ?_, ?_⟩
      · have hname := hfrom i hi
        rwa [Nat.zero_add] at hname
      · rw [findColumn_eq hfrom hlen.symm, (resolveName_eq_some_iff hnd hi).mpr rfl]

end MiniDB
