import MiniDB.Sessions.Closing
import MiniDB.Sessions.Frames
import MiniDB.Sessions.Naming
import MiniDB.Sessions.Scanning
import MiniDB.Store.Represented

/-!
# A store in a database file

`Stores s ts st` says that the pages of `s` hold the store `st`, in the tables `ts`: the names in
the catalog are read back, the rows of every table are those of its relation, and nothing is lost
when the file is closed.

* `NamedAs`, `Implements`, `Stores`: the invariant.
* `Stores.find`: the table of a name.
* `Stores.replace`, `Stores.created`: the steps that keep it.
* `Stores.reopen`: **closing the file and opening it again keeps it**.
-/

namespace MiniDB

open BPlusTree Pager

/-- The names of the table and of its columns are read back. -/
structure NamedAs (p : Page) (n : ℕ) (r : Relation) : Prop where
  table : decodeName (catalogNodeName p n) = .ok r.name
  columns : NamesFrom p n 0 r.names

/-- The table holds the rows of the relation. -/
structure Implements (x : TableInfo) (r : Relation) : Prop where
  schema : x.schema = r.schema
  rows : x.tree.2.contents.map (viewCell r.schema) = r.rows

/-- **The pages hold the store.** -/
structure Stores (s : Pager) (ts : List TableInfo) (st : Store) : Prop where
  database : Database s ts
  tracked : Tracked s ts
  filled : AllFilled ts
  clear : ClearBehind (s.page 0)
  saved : Saved s pageSize 0
  length : ts.length = st.length
  named : ∀ (n : ℕ) (r : Relation), st[n]? = some r → NamedAs (s.page 0) n r
  implements : ∀ (n : ℕ) (x : TableInfo) (r : Relation), ts[n]? = some x → st[n]? = some r →
    Implements x r

variable {s s' : Pager} {ts ts' : List TableInfo} {st : Store} {n : ℕ} {x y : TableInfo}
  {r r' : Relation} {p q : Page} {name : List UInt8} {definitions : List ColumnDefinition}
  {tree : AstNode}

/-! ## Names -/

theorem SameEntry.catalogNodeName (h : SameEntry n p q) :
    MiniDB.catalogNodeName q n = MiniDB.catalogNodeName p n := by
  refine Mem.read_congr ?_
  intro k hk
  refine h _ ?_ ?_ <;> simp only [catalogNodeTable_eq, tableNameOffset] <;> omega

/-- The names of an entry are in its own bytes. -/
theorem NamedAs.congr (h : NamedAs p n r) (hq : SameEntry n p q) : NamedAs q n r where
  table := by
    rw [hq.catalogNodeName]
    exact h.table
  columns j hj := by
    have hbound : 0 + j < maxTableColumns := by
      have hcount := r.valid.bounded
      rw [Relation.names, List.length_map] at hj
      omega
    rw [hq.columnName hbound]
    exact h.columns j hj

/-- The search for a name among fields that are read back, from field `i` on. -/
theorem findFirst_decodeName {field : ℕ → List UInt8} (name : List UInt8) :
    {names : List (List UInt8)} → {i : ℕ} →
    (∀ j (h : j < names.length), decodeName (field (i + j)) = .ok names[j]) →
    findFirst (fun i => nameEquals name (field i)) (List.range' i names.length) =
      .ok ((resolveName names name).map (i + ·)) := by
  intro names
  induction names with
  | nil => exact fun _ => rfl
  | cons other names ih =>
    intro i h
    have htest : nameEquals name (field i) = .ok (lowercase name == lowercase other) :=
      nameEquals_of_decodeName (h 0 (Nat.succ_pos _))
    have hrest := ih (i := i + 1) fun j hj => by
      have hfield := h (j + 1) (Nat.succ_lt_succ hj)
      rwa [List.getElem_cons_succ, ← Nat.add_assoc, Nat.add_right_comm] at hfield
    rw [List.length_cons, List.range'_succ, findFirst, htest, ok_bind, resolveName_cons]
    split
    · rfl
    · rw [hrest, Option.map_map]
      refine congrArg Except.ok (Option.map_congr fun k _ => ?_)
      show i + 1 + k = i + (k + 1)
      omega

/-- **The table of a name.** -/
theorem Stores.find (h : Stores s ts st) (name : List UInt8) :
    catalogNodeFindTable (s.page 0) name = .ok (st.find name) := by
  have hlen : (st.map Relation.name).length = catalogNodeNumTables (s.page 0) := by
    rw [h.database.count, h.length, List.length_map]
  have hnames : ∀ j (hj : j < (st.map Relation.name).length),
      decodeName (catalogNodeName (s.page 0) (0 + j)) = .ok (st.map Relation.name)[j] := by
    intro j hj
    have hlt : j < st.length := by rwa [List.length_map] at hj
    rw [Nat.zero_add, List.getElem_map]
    exact (h.named j _ (List.getElem?_eq_getElem hlt)).table
  have hfind := findFirst_decodeName name hnames
  rw [catalogNodeFindTable, ← hlen, List.range_eq_range', hfind, Store.find]
  cases resolveName (st.map Relation.name) name with
  | none => rfl
  | some k => rw [Option.map_some, Nat.zero_add]

/-- The number of a table that is found. -/
theorem Store.find_lt (h : st.find name = some n) : n < st.length := by
  have hlt := (List.findIdx?_eq_some_iff_getElem.mp h).1
  rwa [List.length_map] at hlt

theorem Store.exists_relation (h : st.find name = some n) : ∃ r, st[n]? = some r :=
  ⟨_, List.getElem?_eq_getElem (Store.find_lt h)⟩

/-- **The table that a statement is about** presents its relation. -/
theorem Stores.presents (h : Stores s ts st) (hfind : st.find name = some n)
    (hr : st[n]? = some r) :
    ∃ x, ts[n]? = some x ∧ Implements x r ∧ x.tree.2.Filled ∧
      Presents s (openTable s n name) n x.tree r := by
  obtain ⟨x, hx, hholds⟩ := h.database.holds ((h.find name).trans (congrArg _ hfind))
  have himpl := h.implements n x r hx hr
  refine ⟨x, hx, himpl, h.filled x (List.mem_of_getElem? hx), ?_⟩
  exact ⟨himpl.schema ▸ hholds, (h.named n r hr).columns, himpl.rows⟩

/-! ## Steps -/

/-- Every change evolves the state. -/
theorem Change.evolves (h : Change s ts s' tree ts') : ∃ S M, Evolves s s' S M := by
  cases h with
  | same hev => exact ⟨_, _, hev⟩
  | refused _ _ hev _ => exact ⟨_, _, hev⟩
  | created _ hc => exact ⟨_, _, hc.evolves⟩
  | inserted _ _ _ _ _ _ _ hev => exact ⟨_, _, hev⟩
  | updated _ _ _ _ hev => exact ⟨_, _, hev⟩
  | deleted _ _ hev => exact ⟨_, _, hev⟩

/-- A statement that changes no page there is. -/
theorem Stores.same (h : Stores s ts st) (hev : Evolves s s' {q | s.numPages ≤ q} ∅) :
    Stores s' ts st := by
  have hdb' := h.database.outside hev
  have hzero : s'.page 0 = s.page 0 := hev.page 0 (not_le.mpr h.database.pos)
  refine ⟨hdb', ?_, h.filled, ?_, ?_, h.length, ?_, h.implements⟩
  · refine h.tracked.step h.database hdb' hev
      (h.tracked.catalog.evolves hev fun i _ => congrFun hzero i) ?_
    exact fun n x hx q hq => ⟨fun hqM => absurd hqM (Set.notMem_empty q), Or.inl ⟨n, x, hx, hq⟩⟩
  · rw [hzero]
    exact h.clear
  · exact h.saved.evolves hev fun i _ => congrFun hzero i
  · rw [hzero]
    exact h.named

/-- A statement that rewrites one table. -/
theorem Stores.replace (h : Stores s ts st) (hx : ts[n]? = some x) (hr : st[n]? = some r)
    (hdb' : Database s' (ts.set n y)) (hmoves : tree.MovesDirty s) (hkeeps : KeepsLeaves s tree)
    (hchange : Change s ts s' tree (ts.set n y)) (hzero : s'.page 0 = s.page 0)
    (himpl : Implements y r') (hname : r'.name = r.name)
    (hdefs : r'.definitions = r.definitions) : Stores s' (ts.set n y) (st.set n r') := by
  obtain ⟨S, M, hev⟩ := hchange.evolves
  have hn : n < st.length := (List.getElem?_eq_some_iff.mp hr).1
  refine ⟨hdb', h.tracked.change h.database hdb' hmoves hchange,
    hchange.filled h.database h.filled hkeeps, ?_, ?_, ?_, ?_, ?_⟩
  · rw [hzero]
    exact h.clear
  · exact h.saved.evolves hev fun i _ => congrFun hzero i
  · rw [List.length_set, List.length_set, h.length]
  · intro m z hz
    rw [hzero]
    by_cases hm : m = n
    · subst hm
      rw [List.getElem?_set_self hn, Option.some_inj] at hz
      have hold := h.named m r hr
      subst hz
      refine ⟨hname ▸ hold.table, ?_⟩
      rw [Relation.names, hdefs]
      exact hold.columns
    · rw [List.getElem?_set_ne (Ne.symm hm)] at hz
      exact h.named m z hz
  · intro m z w hz hw
    rcases getElem?_set_cases hx hz with ⟨rfl, rfl⟩ | ⟨hm, hz⟩
    · rw [List.getElem?_set_self hn, Option.some_inj] at hw
      exact hw ▸ himpl
    · rw [List.getElem?_set_ne (Ne.symm hm)] at hw
      exact h.implements m z w hz hw

/-- A `CREATE TABLE` whose names fit into their fields. -/
theorem Stores.created (h : Stores s ts st) {hv : ValidDefinitions definitions}
    (hc : Created s name definitions hv s')
    (hscan : (AstNode.createTable name definitions).Scanned) (hname : name.length < columnNameSize)
    (hnames : ∀ d ∈ definitions, d.name.length < columnNameSize) :
    Stores s' (ts ++ [⟨schemaOf definitions hv, ⟨0, .leaf s.numPages []⟩⟩])
      (st ++ [Relation.empty name definitions hv]) := by
  have hdb' := h.database.created hc
  have hchange : Change s ts s' (.createTable name definitions) _ := .created hv hc
  have hmoves : (AstNode.createTable name definitions).MovesDirty s := trivial
  have hcount : catalogNodeNumTables (s.page 0) = st.length := h.database.count.trans h.length
  have hname' : decodeName (catalogNodeName (s'.page 0) st.length) = .ok name := by
    rw [← hcount]
    refine (hc.decodeName_iff hscan.1.zero_notMem).mpr ⟨hname, h.clear _ (Nat.le_add_right ..) ?_⟩
    have hroom := hc.room
    rw [columnNameSize] at hname
    rw [maxCatalogTables] at hroom
    rw [catalogNodeTable_eq, pageSize]
    omega
  have hcolumns := hc.namesFrom (fun d hd => (hscan.2 d hd).zero_notMem) hnames
  rw [hcount] at hcolumns
  refine ⟨hdb', h.tracked.change h.database hdb' hmoves hchange,
    hchange.filled h.database h.filled ⟨trivial, fun _ _ heq => by cases heq⟩, ?_, ?_, ?_, ?_, ?_⟩
  · refine (hc.clearBehind hscan.1.zero_notMem h.clear).resolve_left ?_
    rintro ⟨i, hi, hterm⟩
    rw [hc.count, hcount] at hi
    rcases Nat.lt_succ_iff_lt_or_eq.mp hi with hi | rfl
    · rw [hc.name_eq (hcount ▸ hi)] at hterm
      have hold := (h.named i _ (List.getElem?_eq_getElem hi)).table
      rw [decodeName_of_notMem hterm] at hold
      cases hold
    · rw [decodeName_of_notMem hterm] at hname'
      cases hname'
  · exact Or.inl hc.dirty.1
  · rw [List.length_append, List.length_append, h.length]
    rfl
  · intro m z hz
    rcases lt_or_ge m st.length with hm | hm
    · rw [List.getElem?_append_left hm] at hz
      exact (h.named m z hz).congr ((hchange.entries h.database).1 m (h.length ▸ hm))
    · rw [List.getElem?_append_right hm] at hz
      obtain rfl := List.mem_singleton.mp (List.mem_of_getElem? hz)
      obtain rfl : m = st.length := by
        have hlt := (List.getElem?_eq_some_iff.mp hz).1
        rw [List.length_singleton] at hlt
        omega
      exact ⟨hname', hcolumns⟩
  · intro m z w hz hw
    rcases lt_or_ge m st.length with hm | hm
    · rw [List.getElem?_append_left hm] at hw
      rw [List.getElem?_append_left (h.length ▸ hm)] at hz
      exact h.implements m z w hz hw
    · rw [List.getElem?_append_right hm] at hw
      rw [List.getElem?_append_right (h.length ▸ hm)] at hz
      obtain rfl := List.mem_singleton.mp (List.mem_of_getElem? hz)
      obtain rfl := List.mem_singleton.mp (List.mem_of_getElem? hw)
      exact ⟨rfl, rfl⟩

/-! ## Opening -/

/-- A new database holds no table. -/
theorem stores_empty (hopen : openDatabase Disk.empty = some s) : Stores s [] [] := by
  obtain ⟨hdb, htracked⟩ := tracked_empty hopen
  obtain ⟨s₁, hopen₁, hs, -, hzero, hdisk⟩ := openDatabase_empty
  obtain rfl : s₁ = s := Option.some_inj.mp (hopen₁.symm.trans hopen)
  refine ⟨hdb, htracked, fun x hx => absurd hx List.not_mem_nil, fun k _ hk => hzero k hk,
    Or.inr fun i hi => ?_, rfl, ?_, ?_⟩
  · rw [hzero i hi, load_eq hs.length (hdisk ▸ Disk.whole_empty) hi, hdisk]
    rfl
  · intro n r hr
    cases hr
  · intro n x r hx
    cases hx

/-- **Closing the file and opening it again** gives the same store. -/
theorem Stores.reopen (h : Stores s ts st) :
    ∃ s', openDatabase (pagerClose s) = some s' ∧ Stores s' ts st := by
  obtain ⟨s', hopen, hdb', htracked', -⟩ := h.database.reopen h.tracked
  have hfile := h.tracked.file.pagerClose
  obtain ⟨s₁, hopen₁, hs', hdisk, -, -, hpage⟩ := openDatabase_whole hfile
  obtain rfl : s₁ = s' := Option.some_inj.mp (hopen₁.symm.trans hopen)
  have hagree : AgreeTo pageSize (s.page 0) (s₁.page 0) :=
    h.tracked.agree_closed h.database.sound (hpage 0) (by decide) h.saved le_rfl
  have hentries : AgreeTo (catalogNodeTable ts.length) (s.page 0) (s₁.page 0) := fun k hk =>
    hagree k (hk.trans_le h.database.catalog_le)
  refine ⟨s₁, hopen, hdb', htracked', h.filled, ?_, Or.inr fun i hi => ?_, h.length, ?_,
    h.implements⟩
  · intro k hk hlt
    rw [hagree k hlt]
    refine h.clear k ?_ hlt
    rwa [hdb'.count, ← h.database.count] at hk
  · rw [hpage 0 i hi, load_eq hs'.length (hdisk ▸ hfile) hi, hdisk]
  · intro n r hr
    have hn : n < ts.length := by
      rw [h.length]
      exact (List.getElem?_eq_some_iff.mp hr).1
    exact (h.named n r hr).congr (SameEntry.of_lt hentries hn)

end MiniDB
