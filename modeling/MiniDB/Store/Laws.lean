import MiniDB.Store.Runs
import MiniDB.Sessions.StoredRows

/-!
# Laws of the store

What follows for the database from what its store does.

* `AstNode.Spares`: the statement leaves the rows there are in a table alone.
* `insert_readsBack`: **a row that was inserted is read back** after any run that spares it.
* `statements_commute`: **statements about different tables commute**.
-/

namespace MiniDB

open BPlusTree Pager Lockstep

variable {s s₁ s₂ : Pager} {st st' : Store} {n m : ℕ} {r r' : Relation} {name : List UInt8}
  {tree : AstNode} {key : Int64} {vs : List Value} {values : List Expr} {o : Outcome}
  {events : List SessionEvent}

/-- The statement changes rows that are there. -/
def AstNode.rewrites : AstNode → Bool
  | .updateTable _ _ _ _ | .deleteTable _ _ => true
  | .createTable _ _ | .insert _ _ | .select _ _ _ _ => false

/-- The statement leaves the rows there are in the table of the name alone. -/
def AstNode.Spares (tree : AstNode) (name : List UInt8) : Prop :=
  tree.rewrites = true → lowercase tree.table ≠ lowercase name

/-! ## Finding tables -/

/-- A table that is rewritten keeps its name. -/
theorem Store.find_set (hr : st[n]? = some r) (hname : r'.name = r.name) (name : List UInt8) :
    Store.find (st.set n r') name = st.find name := by
  obtain ⟨hlt, rfl⟩ := List.getElem?_eq_some_iff.mp hr
  have hmap : (st.set n r').map Relation.name = st.map Relation.name := by
    have hlt' : n < (st.map Relation.name).length := by rwa [List.length_map]
    rw [List.map_set, hname, ← List.getElem_map Relation.name (h := hlt')]
    exact List.set_getElem_self hlt'
  rw [Store.find, hmap, Store.find]

/-- Tables of different names are different. -/
theorem Store.find_ne {other : List UInt8} (h : st.find name = some n)
    (h' : st.find other = some m) (hne : lowercase name ≠ lowercase other) : m ≠ n := by
  rintro rfl
  have hname := (List.findIdx?_eq_some_iff_getElem.mp h).2.1
  have hother := (List.findIdx?_eq_some_iff_getElem.mp h').2.1
  exact hne ((beq_iff_eq.mp hname).trans (beq_iff_eq.mp hother).symm)

/-- A table that is added is found last. -/
theorem Store.find_append (h : st.find name = some n) (r : Relation) :
    Store.find (st ++ [r]) name = some n := by
  rw [Store.find, resolveName, List.map_append, List.findIdx?_append]
  have hfind : List.findIdx? (fun other => lowercase name == lowercase other)
      (st.map Relation.name) = some n := h
  rw [hfind]
  rfl

/-! ## What a statement can do -/

/-- The relation is another table of the same name and columns. -/
structure Relation.SameHead (r r' : Relation) : Prop where
  name : r'.name = r.name
  definitions : r'.definitions = r.definitions

theorem Relation.sameHead_insert (r : Relation) (values : List Expr) :
    r.SameHead (r.insert values).2 := by
  rw [Relation.insert]
  repeat' split
  all_goals exact ⟨rfl, rfl⟩

theorem Relation.sameHead_update {columns : List Expr} {where_ : Option Expr}
    {res : Outcome × Relation} (h : r.update columns values where_ = .ok res) :
    r.SameHead res.2 := by
  rw [Relation.update] at h
  split at h
  · cases h
    exact ⟨rfl, rfl⟩
  obtain ⟨found, -, h⟩ := bind_eq_ok h
  cases found with
  | error line =>
    cases h
    exact ⟨rfl, rfl⟩
  | ok as =>
    dsimp only at h
    split at h
    · obtain ⟨-, -, h⟩ := bind_eq_ok h
      cases h
      exact ⟨rfl, rfl⟩
    · obtain ⟨b, -, h⟩ := bind_eq_ok h
      cases b <;> cases h <;> exact ⟨rfl, rfl⟩

theorem Relation.sameHead_delete {where_ : Option Expr} {res : Outcome × Relation}
    (h : r.delete where_ = .ok res) : r.SameHead res.2 := by
  obtain ⟨-, -, h⟩ := bind_eq_ok h
  cases h
  exact ⟨rfl, rfl⟩

/-- **What a statement can do to the store**: nothing, or it adds a table, or it puts a table in the
place of the one it is about. -/
theorem Store.exec_cases (h : st.exec tree = .ok (o, st')) :
    st' = st ∨ (∃ r, st' = st ++ [r]) ∨ ∃ n r r', st.find tree.table = some n ∧ st[n]? = some r ∧
      r.SameHead r' ∧ st' = st.set n r' ∧
        (tree.rewrites = true ∨ ∃ values, r' = (r.insert values).2) := by
  rw [Store.exec] at h
  cases hfind : st.find tree.table with
  | none =>
    simp only [hfind, Except.ok.injEq] at h
    cases tree with
    | createTable name definitions =>
      rw [Store.execNew] at h
      split at h
      · cases h
        exact Or.inr (Or.inl ⟨_, rfl⟩)
      · cases h
        exact Or.inl rfl
    | insert | updateTable | deleteTable | select =>
      cases h
      exact Or.inl rfl
  | some n =>
    have hr := List.getElem?_eq_getElem (Store.find_lt hfind)
    simp only [hfind, hr] at h
    cases tree with
    | createTable name definitions =>
      cases h
      exact Or.inl rfl
    | insert name values =>
      cases h
      exact Or.inr (Or.inr ⟨n, _, _, rfl, hr, Relation.sameHead_insert _ values, rfl,
        Or.inr ⟨values, rfl⟩⟩)
    | updateTable name columns values where_ =>
      obtain ⟨res, hres, h⟩ := bind_eq_ok h
      cases h
      exact Or.inr (Or.inr ⟨n, _, res.2, rfl, hr, Relation.sameHead_update hres, rfl, Or.inl rfl⟩)
    | deleteTable name where_ =>
      obtain ⟨res, hres, h⟩ := bind_eq_ok h
      cases h
      exact Or.inr (Or.inr ⟨n, _, res.2, rfl, hr, Relation.sameHead_delete hres, rfl, Or.inl rfl⟩)
    | select name isStar columns where_ =>
      obtain ⟨out, -, h⟩ := bind_eq_ok h
      cases h
      exact Or.inl rfl

/-! ## Reading back what was inserted -/

/-- The table of the name has a row under the key. -/
structure Store.HasRow (st : Store) (name : List UInt8) (n : ℕ)
    (definitions : List ColumnDefinition) (key : Int64) (vs : List Value) : Prop where
  find : st.find name = some n
  row : ∃ r, st[n]? = some r ∧ r.definitions = definitions ∧ r.rows.lookup key = some vs

variable {definitions : List ColumnDefinition}

/-- The row is there as long as its table is only put in its own place. -/
theorem Store.HasRow.put (h : st.HasRow name n definitions key vs) (hr : st[m]? = some r)
    (hname : r'.name = r.name)
    (hrow : m = n → r'.definitions = r.definitions ∧
      (r.rows.lookup key = some vs → r'.rows.lookup key = some vs)) :
    Store.HasRow (st.set m r') name n definitions key vs := by
  obtain ⟨hfind, r₀, hr₀, hdefs, hlookup⟩ := h
  refine ⟨(Store.find_set hr hname name).trans hfind, ?_⟩
  by_cases hm : m = n
  · subst hm
    obtain rfl : r₀ = r := Option.some_inj.mp (hr₀.symm.trans hr)
    have hlt := (List.getElem?_eq_some_iff.mp hr).1
    exact ⟨r', List.getElem?_set_self hlt, (hrow rfl).1.trans hdefs, (hrow rfl).2 hlookup⟩
  · exact ⟨r₀, (List.getElem?_set_ne hm).trans hr₀, hdefs, hlookup⟩

/-- What an `INSERT` can do to a table. -/
theorem Relation.insert_cases (r : Relation) (values : List Expr) :
    (r.insert values).2 = r ∧ (r.insert values).1.result ≠ .commandSuccess ∨
      ∃ key, ∃ (hm : Matches r.schema values) (hnew : ∀ row ∈ r.rows, row.1 ≠ key),
        values[r.schema.primaryKey]? = some (.literalInt key) ∧ TextsFit values ∧
        r.insert values =
          (⟨.commandSuccess, []⟩,
            r.add key (insertedRow values).values hnew hm.columnTypes) := by
  by_cases hm : Matches r.schema values
  swap
  · rw [Relation.insert_mismatch hm]
    exact Or.inl ⟨rfl, by rintro ⟨⟩⟩
  obtain ⟨key, hkey⟩ := hm.exists_key
  by_cases hex : ∃ row ∈ r.rows, row.1 = key
  · rw [Relation.insert_duplicate hm hkey hex]
    exact Or.inl ⟨rfl, by rintro ⟨⟩⟩
  have hnew : ∀ row ∈ r.rows, row.1 ≠ key := fun row hrow heq => hex ⟨row, hrow, heq⟩
  by_cases hfit : TextsFit values
  · exact Or.inr ⟨key, hm, hnew, hkey, hfit, Relation.insert_new hm hkey hnew hfit⟩
  · rw [Relation.insert_tooLong hm hkey hnew hfit]
    exact Or.inl ⟨rfl, by rintro ⟨⟩⟩

/-- An `INSERT` keeps the rows there are. -/
theorem Relation.insert_keeps (r : Relation) (values : List Expr)
    (hlookup : r.rows.lookup key = some vs) : (r.insert values).2.rows.lookup key = some vs := by
  rcases r.insert_cases values with ⟨hsame, -⟩ | ⟨key', hm, hnew, -, -, hins⟩
  · rwa [hsame]
  · rw [hins]
    show (insertCell key' _ r.rows).lookup key = some vs
    rw [lookup_insertCell hnew, if_neg ?_, hlookup]
    rintro rfl
    obtain ⟨l₁, l₂, hsplit, -⟩ := List.lookup_eq_some_iff.mp hlookup
    exact hnew (key, vs) (by rw [hsplit]; simp) rfl

/-- **One statement** that spares the table. -/
theorem Store.HasRow.exec (h : st.HasRow name n definitions key vs) (hspares : tree.Spares name)
    (hexec : st.exec tree = .ok (o, st')) : st'.HasRow name n definitions key vs := by
  rcases Store.exec_cases hexec with rfl | ⟨r, rfl⟩ | ⟨m, r, r', hfind, hr, hhead, rfl, hhow⟩
  · exact h
  · obtain ⟨hfind, r₀, hr₀, hrow⟩ := h
    have hlt := (List.getElem?_eq_some_iff.mp hr₀).1
    exact ⟨Store.find_append hfind r, r₀, (List.getElem?_append_left hlt).trans hr₀, hrow⟩
  · refine h.put hr hhead.name fun hm => ⟨hhead.definitions, fun hlookup => ?_⟩
    rcases hhow with hrewrites | ⟨values, rfl⟩
    · exact absurd hm (Store.find_ne h.find hfind (hspares hrewrites).symm)
    · exact r.insert_keeps values hlookup

/-- **A run** that spares the table. -/
theorem Store.HasRow.runAll {os : List (Option Outcome)}
    (h : st.HasRow name n definitions key vs)
    (hspares : ∀ tree ∈ events.filterMap SessionEvent.tree, tree.Spares name)
    (hrun : Lockstep.runAll Store.run st events = .ok (os, st')) :
    st'.HasRow name n definitions key vs := by
  refine runAll_invariant (P := fun st => st.HasRow name n definitions key vs) h hrun ?_
  intro st event hmem o st' h hstep
  cases event with
  | reopen =>
    cases hstep
    exact h
  | statement tree =>
    have hspare := hspares tree (List.mem_filterMap.mpr ⟨_, hmem, rfl⟩)
    rw [Store.run] at hstep
    cases hexec : st.exec tree with
    | error f =>
      rw [hexec] at hstep
      cases hstep
    | ok res =>
      rw [hexec] at hstep
      cases hstep
      exact h.exec hspare hexec

/-- The text of a literal, as it is printed. -/
def Expr.shown : Expr → List UInt8
  | .literalInt n => ascii (toString n.toInt)
  | .literalString text => text
  | .literalBoolean b => if b then ascii "TRUE" else ascii "FALSE"
  | _ => []

/-- The line of a row of literals. -/
def shownLine (values : List Expr) : List UInt8 := values.flatMap fun e => e.shown ++ [32]

/-- A literal that was stored is printed as it was written. -/
theorem printValue_literalValue {e : Expr} {t : ColumnType} (htype : typeMatches t.toByte e = true)
    (hscan : ∀ text, e = .literalString text → 0 ∉ text)
    (hshort : ∀ text, e = .literalString text → text.length < valueTextMaxLen) :
    printValue (literalValue e) = .ok e.shown := by
  cases e with
  | literalInt n => rfl
  | literalString text =>
    have hlen := hshort text rfl
    rw [literalValue, printValue, strlen_overwrite hlen (hscan text rfl),
      TextField.overwrite_zero hlen.le, ok_bind, List.take_left]
    rfl
  | literalBoolean b => cases b <;> rfl
  | column _ | equals _ _ => cases htype

/-- **A row of literals** is printed as it was written. -/
theorem printValues_literals {types : List ColumnType}
    (hm : List.Forall₂ (fun t e => typeMatches (ColumnType.toByte t) e = true) types values)
    (hscan : AreScanned values)
    (hshort : ∀ text, .literalString text ∈ values → text.length < valueTextMaxLen) :
    printValues (values.map literalValue) = .ok (shownLine values) := by
  induction hm with
  | nil => rfl
  | @cons t e types values he _ ih =>
    have hrest := ih (fun text htext => hscan text (List.mem_cons_of_mem _ htext))
      fun text htext => hshort text (List.mem_cons_of_mem _ htext)
    have hhead := printValue_literalValue he (fun text h => hscan text (h ▸ List.mem_cons_self))
      fun text h => hshort text (h ▸ List.mem_cons_self)
    rw [List.map_cons, printValues, hhead, hrest, ok_bind, ok_bind]
    show Except.ok (e.shown ++ 32 :: shownLine values) = .ok ((e.shown ++ [32]) ++ shownLine values)
    rw [List.append_assoc, List.singleton_append]

/-- The name of the primary key is that of a column. -/
theorem Relation.column_isKey {column : List UInt8} (h : r.isKey column = true) :
    (r.column column).isSome = true := by
  have hlt : r.schema.primaryKey < r.names.length := by
    rw [r.length_names]
    exact Schema.primaryKey_lt _
  rw [Relation.isKey, List.getD_eq_getElem _ _ hlt] at h
  rw [Relation.column, resolveName, List.findIdx?_isSome, List.any_eq_true]
  exact ⟨_, List.getElem_mem hlt, h⟩

/-- **A `SELECT` of a key** looks the row up. -/
theorem Relation.select_key {column : List UInt8} (hcolumn : r.isKey column = true)
    (hlookup : r.rows.lookup key = some vs) (asked : List UInt8) :
    r.select asked [] (some (.equals (.column column) (.literalInt key))) =
      printRows [⟨vs⟩] := by
  have hplan : r.plan (some (.equals (.column column) (.literalInt key))) = .ok (some key) := by
    show (if r.isKey column then _ else _) = _
    rw [if_pos hcolumn]
    rfl
  have hvalid : r.complaint asked [] (some (.equals (.column column) (.literalInt key))) =
      .ok none := by
    have hhas : r.missing asked [.column column] = .ok none := by
      show (if (r.column column).isSome then _ else _) = _
      rw [if_pos (Relation.column_isKey hcolumn)]
      rfl
    show (r.missing asked [.column column] >>= _) = _
    rw [hhas]
    rfl
  rw [Relation.select, hplan, ok_bind, hvalid]
  show printRows (((r.rows.lookup key).toList).map Row.mk) = _
  rw [hlookup]
  rfl

/-- An `INSERT` that is a success. -/
theorem Relation.insert_success (hsuccess : (r.insert values).1.result = .commandSuccess)
    (hkey : values[r.schema.primaryKey]? = some (.literalInt key)) :
    Matches r.schema values ∧
      (r.insert values).2.rows.lookup key = some (values.map literalValue) := by
  rcases r.insert_cases values with ⟨-, hno⟩ | ⟨key', hm, hnew, hkey', -, hins⟩
  · exact absurd hsuccess hno
  · obtain rfl : key' = key := by
      rw [hkey] at hkey'
      cases hkey'
      rfl
    refine ⟨hm, ?_⟩
    rw [hins]
    show (insertCell key' _ r.rows).lookup key' = _
    rw [lookup_insertCell hnew, if_pos rfl]
    rfl

/-- What passes for the primary key is in the definitions. -/
theorem Relation.isKey_congr (hdefs : r'.definitions = r.definitions) (column : List UInt8) :
    r'.isKey column = r.isKey column := by
  have heq : ∀ r : Relation, r.isKey column = (lowercase column ==
      lowercase ((r.definitions.map ColumnDefinition.name).getD (primaryIndex r.definitions) [])) :=
    fun _ => rfl
  rw [heq, heq, hdefs]

/-- **A row that was inserted is read back**: when an `INSERT` was a success, every later `SELECT`
of its key prints its literals, after any statements that spare the rows of the table and any
restarts. -/
theorem insert_readsBack {os : List (Option Outcome)} {column : List UInt8} (h : Keeps s st)
    (hfind : st.find name = some n) (hr : st[n]? = some r)
    (hkey : values[r.schema.primaryKey]? = some (.literalInt key))
    (hshort : ∀ text, .literalString text ∈ values → text.length < valueTextMaxLen)
    (hok : Feasible s (.insert name values))
    (hinsert : execute s (.insert name values) = .ok (⟨.commandSuccess, []⟩, s₁))
    (hg : Guarded SessionEvent.run FeasibleAcross s₁ events)
    (hspares : ∀ tree ∈ events.filterMap SessionEvent.tree, tree.Spares name)
    (hrun : Lockstep.runAll SessionEvent.run s₁ events = .ok (os, s₂))
    (hcolumn : r.isKey column = true) :
    ∃ s₃, execute s₂ (.select name true [] (some (.equals (.column column) (.literalInt key)))) =
      .ok (⟨.commandSuccess, [shownLine values]⟩, s₃) := by
  obtain ⟨st₁, hins, hkeeps₁⟩ := (execute_agree h hok).of_ok hinsert
  rw [Store.exec_at hfind hr] at hins
  obtain ⟨hout, rfl⟩ := Prod.mk.inj (Except.ok.inj hins)
  obtain ⟨hm, hlookup⟩ := Relation.insert_success (congrArg Outcome.result hout) hkey
  have hhead := r.sameHead_insert values
  have hlt := (List.getElem?_eq_some_iff.mp hr).1
  have hrow : Store.HasRow (st.set n (r.insert values).2) name n r.definitions key
      (values.map literalValue) :=
    ⟨(Store.find_set hr hhead.name name).trans hfind, _, List.getElem?_set_self hlt,
      hhead.definitions, hlookup⟩
  obtain ⟨st₂, hrun₂, hkeeps₂⟩ := (hkeeps₁.runAll hg).of_ok hrun
  obtain ⟨hfind₂, r₂, hr₂, hdefs, hlookup₂⟩ := hrow.runAll hspares hrun₂
  have hselect : st₂.exec
      (.select name true [] (some (.equals (.column column) (.literalInt key)))) =
      .ok (⟨.commandSuccess, [shownLine values]⟩, st₂) := by
    rw [Store.exec_at hfind₂ hr₂, Store.execAt,
      Relation.select_key ((Relation.isKey_congr hdefs column).trans hcolumn) hlookup₂, printRows,
      printValues_literals hm hok.scanned hshort]
    rfl
  obtain ⟨s₃, hexec, -⟩ := (execute_agree hkeeps₂ (feasible_select s₂ name true
    (fun _ he => absurd he List.not_mem_nil) _)).ok_of hselect
  exact ⟨s₃, hexec⟩

/-- A row that is read back after a restart. -/
theorem insert_readsBack_notes : ∃ s₁ s₂ s₃ os, execute s₁ (.insert notesName (notesRow 7)) =
      .ok (⟨.commandSuccess, []⟩, s₂) ∧
    Lockstep.runAll SessionEvent.run s₂ [.reopen] = .ok (os, s₃) ∧
    ∃ s₄, execute s₃ (.select notesName true []
        (some (.equals (.column (ascii "id")) (.literalInt 7)))) =
      .ok (⟨.commandSuccess, [shownLine (notesRow 7)]⟩, s₄) := by
  obtain ⟨s, hopen, -⟩ := database_empty
  obtain ⟨s₁, -, hkeeps₁, -⟩ := run_createNotes hopen
  have hok : Feasible s₁ (.insert notesName (notesRow 7)) :=
    hkeeps₁.feasible_insert rfl rfl rfl (areScanned_notesRow 7)
  obtain ⟨s₂, hinsert, hkeeps₂⟩ := (execute_agree hkeeps₁ hok).ok_of rfl
  obtain ⟨s₃, hopen₃, -⟩ := hkeeps₂.choose_spec.reopen
  have hrun : Lockstep.runAll SessionEvent.run s₂ [.reopen] = .ok ([none], s₃) := by
    simp only [Lockstep.runAll, SessionEvent.run, hopen₃]
    rfl
  have hg : Guarded SessionEvent.run FeasibleAcross s₂ [.reopen] := ⟨trivial, fun _ _ _ => trivial⟩
  refine ⟨s₁, s₂, s₃, _, hinsert, hrun, ?_⟩
  refine insert_readsBack hkeeps₁ rfl rfl rfl ?_ hok hinsert hg ?_ hrun rfl
  · intro text htext
    rcases List.mem_cons.mp htext with h | h
    · cases h
    · cases List.eq_of_mem_replicate h
      exact Nat.zero_lt_succ _
  · intro tree htree
    cases htree

/-! ## Statements about different tables -/

/-- A statement about the table that it is about. -/
def Relation.exec (r : Relation) : AstNode → Exec (Outcome × Relation)
  | .createTable _ _ => .ok (⟨.commandSuccess, [ascii "Table already exists!"]⟩, r)
  | .insert _ values => .ok (r.insert values)
  | .updateTable _ columns values where_ => r.update columns values where_
  | .deleteTable _ where_ => r.delete where_
  | .select asked _ columns where_ =>
    (r.select asked columns where_).map fun out => (⟨.commandSuccess, out⟩, r)

/-- A statement reads and writes its own table only. -/
theorem Store.execAt_eq (hr : st[n]? = some r) (tree : AstNode) :
    st.execAt n r tree = (r.exec tree).map fun x => (x.1, st.set n x.2) := by
  have hself := Store.set_self hr
  cases tree with
  | createTable name definitions =>
    show _ = Except.ok (_, st.set n r)
    rw [hself]
    rfl
  | insert name values => rfl
  | updateTable name columns values where_ =>
    rw [Store.execAt, Relation.exec]
    cases r.update columns values where_ <;> rfl
  | deleteTable name where_ =>
    rw [Store.execAt, Relation.exec]
    cases r.delete where_ <;> rfl
  | select name isStar columns where_ =>
    rw [Store.execAt, Relation.exec]
    cases r.select name columns where_ with
    | error f => rfl
    | ok out =>
      show Except.ok (_, st) = .ok (_, st.set n r)
      rw [hself]

theorem Relation.sameHead_exec {x : Outcome × Relation} (h : r.exec tree = .ok x) :
    r.SameHead x.2 := by
  cases tree with
  | createTable name definitions =>
    cases h
    exact ⟨rfl, rfl⟩
  | insert name values =>
    cases h
    exact r.sameHead_insert values
  | updateTable name columns values where_ => exact Relation.sameHead_update h
  | deleteTable name where_ => exact Relation.sameHead_delete h
  | select name isStar columns where_ =>
    rw [Relation.exec] at h
    cases hrun : r.select name columns where_ with
    | error f =>
      rw [hrun] at h
      cases h
    | ok out =>
      rw [hrun] at h
      cases h
      exact ⟨rfl, rfl⟩

/-- What a statement other than a `CREATE TABLE` does: the table that it rewrites, and as what. -/
def Store.effect (st : Store) (tree : AstNode) : Exec (Outcome × Option (ℕ × Relation)) :=
  match st.find tree.table with
  | none => .ok (⟨.commandSuccess, [ascii "Table is not found"]⟩, none)
  | some n =>
    match st[n]? with
    | none => .ok (⟨.commandSuccess, []⟩, none)
    | some r => (r.exec tree).map fun x => (x.1, some (n, x.2))

/-- The store with that table. -/
def Store.edit (st : Store) : Option (ℕ × Relation) → Store
  | none => st
  | some (n, r) => st.set n r

theorem Store.exec_eq_effect (st : Store)
    (hno : ∀ name definitions, tree ≠ .createTable name definitions) :
    st.exec tree = (st.effect tree).map fun x => (x.1, st.edit x.2) := by
  rw [Store.exec, Store.effect]
  cases hfind : st.find tree.table with
  | none =>
    cases tree with
    | createTable name definitions => exact absurd rfl (hno name definitions)
    | insert | updateTable | deleteTable | select => rfl
  | some n =>
    obtain ⟨r, hr⟩ := Store.exists_relation hfind
    simp only [hr]
    rw [Store.execAt_eq hr]
    cases r.exec tree <;> rfl

/-- What is known of the table that a statement rewrites. -/
theorem Store.effect_eq_some {e : ℕ × Relation} (h : st.effect tree = .ok (o, some e)) :
    ∃ r, st.find tree.table = some e.1 ∧ st[e.1]? = some r ∧ r.SameHead e.2 := by
  rw [Store.effect] at h
  cases hfind : st.find tree.table with
  | none =>
    rw [hfind] at h
    cases h
  | some n =>
    obtain ⟨r, hr⟩ := Store.exists_relation hfind
    simp only [hfind, hr] at h
    cases hexec : r.exec tree with
    | error f =>
      rw [hexec] at h
      cases h
    | ok x =>
      rw [hexec] at h
      cases h
      exact ⟨_, rfl, hr, Relation.sameHead_exec hexec⟩

/-- **A statement does the same** after a statement about another table. -/
theorem Store.effect_edit {tree' : AstNode} {e : Option (ℕ × Relation)}
    (h : st.effect tree = .ok (o, e)) (hne : lowercase tree.table ≠ lowercase tree'.table) :
    (st.edit e).effect tree' = st.effect tree' := by
  cases e with
  | none => rfl
  | some e =>
    obtain ⟨r, hfind, hr, hhead⟩ := Store.effect_eq_some h
    show Store.effect (st.set e.1 e.2) tree' = _
    rw [Store.effect, Store.effect, Store.find_set hr hhead.name]
    cases hfind' : st.find tree'.table with
    | none => rfl
    | some m =>
      have hm := Store.find_ne hfind hfind' hne
      simp only [List.getElem?_set_ne hm.symm]

/-- Statements about different tables rewrite different tables. -/
theorem Store.edit_comm {tree' : AstNode} {o' : Outcome} {e e' : Option (ℕ × Relation)}
    (h : st.effect tree = .ok (o, e)) (h' : st.effect tree' = .ok (o', e'))
    (hne : lowercase tree.table ≠ lowercase tree'.table) :
    (st.edit e).edit e' = (st.edit e').edit e := by
  cases e with
  | none => rfl
  | some e =>
    cases e' with
    | none => rfl
    | some e' =>
      obtain ⟨-, hfind, -⟩ := Store.effect_eq_some h
      obtain ⟨-, hfind', -⟩ := Store.effect_eq_some h'
      exact List.set_comm _ _ (Store.find_ne hfind hfind' hne).symm

/-- **In the store** statements about different tables commute. -/
theorem Store.exec_comm {tree' : AstNode} (st : Store)
    (hno : ∀ name definitions, tree ≠ .createTable name definitions)
    (hno' : ∀ name definitions, tree' ≠ .createTable name definitions)
    (hne : lowercase tree.table ≠ lowercase tree'.table) :
    Agree (· = ·) (Lockstep.runAll Store.exec st [tree, tree'])
      ((Lockstep.runAll Store.exec st [tree', tree]).map fun r => (r.1.reverse, r.2)) := by
  simp only [Lockstep.runAll, Store.exec_eq_effect _ hno, Store.exec_eq_effect _ hno']
  cases h : st.effect tree with
  | error f =>
    cases h' : st.effect tree' with
    | error f' => exact .fail f f'
    | ok x =>
      obtain ⟨o', e'⟩ := x
      have hsame := Store.effect_edit h' hne.symm
      simp only [Except.map, ok_bind, hsame, h]
      exact .fail f f
  | ok x =>
    obtain ⟨o, e⟩ := x
    have hsame := Store.effect_edit h hne
    cases h' : st.effect tree' with
    | error f' =>
      simp only [Except.map, ok_bind, hsame, h']
      exact .fail f' f'
    | ok x' =>
      obtain ⟨o', e'⟩ := x'
      have hsame' := Store.effect_edit h' hne.symm
      simp only [Except.map, ok_bind, hsame, h', hsame', h]
      exact .step (Store.edit_comm h h' hne)

/-- **Statements about different tables commute**: in either order they show the same, and the
stores that they leave behind are the same. -/
theorem statements_commute {tree' : AstNode} (h : Keeps s st)
    (hno : ∀ name definitions, tree ≠ .createTable name definitions)
    (hno' : ∀ name definitions, tree' ≠ .createTable name definitions)
    (hne : lowercase tree.table ≠ lowercase tree'.table)
    (hg : Guarded SessionEvent.run FeasibleAcross s [.statement tree, .statement tree'])
    (hg' : Guarded SessionEvent.run FeasibleAcross s [.statement tree', .statement tree]) :
    Indistinguishable (Lockstep.runAll SessionEvent.run s [.statement tree, .statement tree'])
      ((Lockstep.runAll SessionEvent.run s [.statement tree', .statement tree]).map
        fun r => (r.1.reverse, r.2)) := by
  have hstore := st.exec_comm hno hno' hne
  have htrees := st.runAll_trees [.statement tree, .statement tree']
  have htrees' := st.runAll_trees [.statement tree', .statement tree]
  have hpick : ∀ t t' : AstNode,
      [SessionEvent.statement t, .statement t'].filterMap SessionEvent.tree = [t, t'] :=
    fun _ _ => rfl
  rw [hpick] at htrees htrees'
  rw [← htrees, ← htrees'] at hstore
  rcases (h.runAll hg).cases with ⟨f, f₁, hrun, hrun₁⟩ | ⟨os, t, st₁, hrun, hrun₁, hkeeps⟩
  · rcases (h.runAll hg').cases with ⟨f', f₂, hrun', hrun₂⟩ | ⟨os', t', st₂, hrun', hrun₂, -⟩
    · rw [hrun, hrun']
      exact .fail f f'
    · rw [hrun₁, hrun₂] at hstore
      cases hstore
  · rcases (h.runAll hg').cases with ⟨f', f₂, hrun', hrun₂⟩ | ⟨os', t', st₂, hrun', hrun₂, hkeeps'⟩
    · rw [hrun₁, hrun₂] at hstore
      cases hstore
    · rw [hrun₁, hrun₂] at hstore
      obtain ⟨st, heq, hst⟩ := hstore.of_ok rfl
      obtain ⟨hos, rfl⟩ := Prod.mk.inj (Except.ok.inj heq)
      rw [hrun, hrun']
      refine .same ?_ hkeeps ?_
      · rw [List.filterMap_reverse]
        exact hos.symm
      · have hst' : st₁ = st₂ := hst
        rw [hst']
        exact hkeeps'

/-- A row of the one table, and the rows of the other. -/
theorem statements_commute_notes : ∃ s,
    Keeps s [Relation.empty notesName notes validNotes, Relation.empty tagsName notes validNotes] ∧
    Indistinguishable (Lockstep.runAll SessionEvent.run s
        [.statement (.insert notesName (notesRow 7)), .statement (.select tagsName true [] none)])
      ((Lockstep.runAll SessionEvent.run s [.statement (.select tagsName true [] none),
          .statement (.insert notesName (notesRow 7))]).map fun r => (r.1.reverse, r.2)) := by
  obtain ⟨s₀, hopen, -⟩ := database_empty
  obtain ⟨s₁, -, hkeeps₁, hnum, -⟩ := run_createNotes hopen
  have hok : Feasible s₁ (.createTable tagsName notes) :=
    feasible_create validNotes ⟨⟨by decide, by decide⟩, scanned_createNotes.2⟩ (by decide)
      (by decide) (by rw [hnum]; decide)
  obtain ⟨s, -, hkeeps⟩ := (execute_agree hkeeps₁ hok).ok_of rfl
  have hinsert : Feasible s (.insert notesName (notesRow 7)) :=
    hkeeps.feasible_insert rfl rfl rfl (areScanned_notesRow 7)
  have hselect : ∀ s : Pager, Feasible s (.select tagsName true [] none) := fun s =>
    feasible_select s tagsName true (fun _ he => absurd he List.not_mem_nil) none
  refine ⟨s, hkeeps, statements_commute hkeeps ?_ ?_ (by decide) ?_ ?_⟩
  · rintro _ _ ⟨⟩
  · rintro _ _ ⟨⟩
  · exact ⟨hinsert, fun _ s' _ => ⟨hselect s', fun _ _ _ => trivial⟩⟩
  · refine ⟨hselect s, fun o s' hrun => ⟨?_, fun _ _ _ => trivial⟩⟩
    have hagree : Agree Keeps (SessionEvent.run s (.statement (.select tagsName true [] none)))
        (Store.run _ (.statement (.select tagsName true [] none))) := run_agree hkeeps (hselect s)
    obtain ⟨st', hst', hkeeps'⟩ := hagree.of_ok hrun
    cases hst'
    exact hkeeps'.feasible_insert rfl rfl rfl (areScanned_notesRow 7)

end MiniDB
