import MiniDB.Statements.Schema
import MiniDB.Storage.Exhausted
import MiniDB.Storage.LeafWalk

/-!
# `INSERT` on a stored table

* `Holds`: a table whose entry and tree are in order.
* `insertCommand_mismatch`, `insertCommand_matches`: what `insert_command` does, by the values.
* `SplitsAt`, `HasRoom`: the `INSERT`s that split a leaf, and those for which there are pages
  enough.
* `insertCommand_spec`: the outcome when there is room.
* `insertCommand_exhausted`: the outcome when the pages run out half way.
-/

namespace MiniDB

open BPlusTree Pager

/-- The table at entry `n` of the catalog, whose tree is `t`. -/
structure Holds (s : Pager) (table : Table) (n : ℕ) (σ : Schema) (t : PageTreeAny) : Prop where
  sound : s.Sound
  find : findTable (s.page 0) table.tableName = .ok n
  describes : Describes (s.page 0) n σ
  represents : Represents s σ.rowSize t
  root : t.2.page = table.rootPageNum

variable {s : Pager} {table : Table} {n : ℕ} {σ : Schema} {t : PageTreeAny} {values : List Expr}
  {key : Int64}

/-- Fetching pages changes nothing about a table. -/
theorem Holds.fetched {s' : Pager} (h : Holds s table n σ t) (hf : Fetched s s') :
    Holds s' table n σ t where
  sound := hf.sound
  find := by rw [hf.page]; exact h.find
  describes := by rw [hf.page]; exact h.describes
  represents := h.represents.frame (fun q _ => by rw [hf.page]) hf.numPages.ge
  root := h.root

theorem Holds.reads (h : Holds s table n σ t) : Reads s table σ.types := h.describes.reads h.find

theorem Holds.root_lt (h : Holds s table n σ t) : table.rootPageNum < s.numPages :=
  h.root ▸ h.represents.good.page_lt

/-- The leaf for a key is on its page. -/
theorem Holds.leafPage (h : Holds s table n σ t) (key : Int64) :
    ∃ e, LeafPage σ.rowSize (s.page (t.2.leafFor key).page) (t.2.leafFor key).cells e :=
  h.represents.stored.leafFor

theorem Holds.sorted_leafFor (h : Holds s table n σ t) (key : Int64) :
    Tree.Sorted (t.2.leafFor key).cells := h.represents.good.ordered.leafFor

/-- The test that follows the descent says whether the key is there. -/
theorem Holds.foundAt (h : Holds s table n σ t) (key : Int64) :
    FoundAt (s.page (t.2.leafFor key).page) key σ.rowSize ↔
      ∃ a ∈ (t.2.leafFor key).cells, a.1 = key := by
  obtain ⟨e, hleaf⟩ := h.leafPage key
  have hsorted := h.sorted_leafFor key
  rw [← hleaf.cells] at hsorted ⊢
  exact foundAt_iff hsorted key

/-- The descent from the root. -/
theorem Holds.descent (h : Holds s table n σ t) (key : Int64) :
    ∃ s', leafNodeForKey key walkFuel s table.rootPageNum =
      .ok (some (t.2.leafFor key).page, s') ∧ Fetched s s' := by
  rw [← h.root]
  exact h.represents.descent h.sound key

/-! ## The checks of the values -/

/-- The values go with the columns, one by one. -/
def Matches (σ : Schema) (values : List Expr) : Prop :=
  List.Forall₂ (fun t e => typeMatches (ColumnType.toByte t) e = true) σ.types values

theorem any_typeMatches (types : List ColumnType) (values : List Expr)
    (hlen : types.length = values.length) :
    (List.zipWith typeMatches (types.map ColumnType.toByte) values).any (! ·) = false ↔
      List.Forall₂ (fun t e => typeMatches (ColumnType.toByte t) e = true) types values := by
  induction types generalizing values with
  | nil =>
    obtain rfl : values = [] := List.length_eq_zero_iff.mp hlen.symm
    simp
  | cons t ts ih =>
    obtain ⟨e, es, rfl⟩ := List.exists_cons_of_length_eq_add_one hlen.symm
    simp only [List.map_cons, List.zipWith_cons_cons, List.any_cons, Bool.or_eq_false_iff,
      List.forall₂_cons]
    rw [ih es (by simpa using hlen)]
    simp

theorem typeMatches_integer {e : Expr}
    (h : typeMatches ColumnType.columnInteger.toByte e = true) : ∃ key, e = .literalInt key := by
  cases e with
  | literalInt key => exact ⟨key, rfl⟩
  | _ => simp [typeMatches, ColumnType.toByte] at h

/-- The primary key among matching values. -/
theorem Matches.exists_key (h : Matches σ values) :
    ∃ key, values[σ.primaryKey]? = some (.literalInt key) := by
  have hlen := h.length_eq
  have hlt : σ.primaryKey < values.length := hlen ▸ σ.primaryKey_lt
  have hmatch := h.get σ.primaryKey_lt hlt
  have hint := σ.integer
  rw [List.getElem?_eq_getElem σ.primaryKey_lt, Option.some_inj] at hint
  simp only [List.get_eq_getElem, hint] at hmatch
  rw [List.getElem?_eq_getElem hlt]
  obtain ⟨key, hv⟩ := typeMatches_integer hmatch
  exact ⟨key, congrArg some hv⟩

/-- The stored row has the types of the table. -/
theorem Matches.columnTypes (h : Matches σ values) :
    (insertedRow values).values.map Value.columnType = σ.types := by
  rw [insertedRow, List.map_map]
  unfold Matches at h
  generalize σ.types = types at h
  induction h with
  | nil => rfl
  | cons hhead _ ih =>
    rw [List.map_cons, ih]
    exact congrArg (· :: _) (columnType_literalValue hhead)

theorem Matches.length_rowBytes (h : Matches σ values) :
    (rowBytes (insertedRow values).values).length = rowWidth σ.types := by
  rw [MiniDB.length_rowBytes, h.columnTypes]

/-- What is said about values that do not go with the columns. -/
def valuesMismatch (types : List ColumnType) (values : List Expr) : List UInt8 :=
  if types.length ≠ values.length then countMismatch else typeMismatch

/-- Values that do not go with the columns are refused at once. -/
theorem insertCommand_mismatch (h : Holds s table n σ t) (hno : ¬ Matches σ values) :
    insertCommand s table table.tableName values =
      .ok (⟨.failure, [valuesMismatch σ.types values]⟩, s) := by
  simp only [insertCommand, h.find, bind, Except.bind, h.describes.columnCount, h.describes.types,
    valuesMismatch]
  by_cases hlen : σ.types.length ≠ values.length
  · rw [if_pos hlen, if_pos hlen]
    rfl
  · have hany : (List.zipWith typeMatches (σ.types.map ColumnType.toByte) values).any (! ·) =
        true := by
      by_contra hfalse
      exact hno ((any_typeMatches _ _ (not_not.mp hlen)).mp (eq_false_of_ne_true hfalse))
    rw [if_neg hlen, if_pos hany, if_neg hlen]
    rfl

/-- What a command does is done before it prints its line. -/
theorem ok_of_orPrint {run : Exec (CommandResult × Pager)} {line : List UInt8} {o : Outcome}
    (h : run.map (orPrint line) = .ok (o, s')) : ∃ r, run = .ok (r, s') := by
  cases run with
  | error f => cases h
  | ok p =>
    cases h
    exact ⟨p.1, rfl⟩

/-- What `insert_command` does once it has found the leaf. -/
theorem insertCommand_descended (h : Holds s table n σ t) (hm : Matches σ values)
    (hkey : values[σ.primaryKey]? = some (.literalInt key)) {s₀ s₁ : Pager} {leaf : ℕ}
    (hget : pagerGetPage s table.rootPageNum = some s₀)
    (hdescent : leafNodeForKey key walkFuel s₀ table.rootPageNum = .ok (some leaf, s₁)) :
    insertCommand s table table.tableName values =
      if FoundAt (s₁.page leaf) key σ.rowSize then
        .ok (⟨.idDuplicateError, [idDuplicated key]⟩, s₁)
      else match rowValues values with
        | .error f => .error f
        | .ok none => .ok (⟨.failure, [textTooLong]⟩, s₁)
        | .ok (some vs) =>
          (insertRow s₁ table leaf key ⟨vs⟩ σ.rowSize).map (orPrint cannotInsert) := by
  have hlen : ¬ σ.types.length ≠ values.length := not_not.mpr hm.length_eq
  have hany : ¬ (List.zipWith typeMatches (σ.types.map ColumnType.toByte) values).any (! ·) =
      true := by
    rw [(any_typeMatches _ _ hm.length_eq).mpr hm]
    decide
  simp only [insertCommand, h.find, bind, Except.bind, h.describes.columnCount,
    h.describes.types, if_neg hlen, if_neg hany, h.describes.primaryKey, hkey, Expr.asLiteralInt,
    hget, hdescent, h.describes.rowSize]
  by_cases hf : FoundAt (s₁.page leaf) key σ.rowSize
  · rw [if_pos hf]
    exact if_pos hf
  · rw [if_neg hf]
    refine (if_neg hf).trans ?_
    cases rowValues values with
    | error f => rfl
    | ok r =>
      cases r with
      | none => rfl
      | some vs => rfl

/-- **What `insert_command` does with values that go with the columns.** -/
theorem insertCommand_matches (h : Holds s table n σ t) (hm : Matches σ values)
    (hkey : values[σ.primaryKey]? = some (.literalInt key)) :
    ∃ s₁, Fetched s s₁ ∧
      ((∃ a ∈ (t.2.leafFor key).cells, a.1 = key) →
        insertCommand s table table.tableName values =
          .ok (⟨.idDuplicateError, [idDuplicated key]⟩, s₁)) ∧
      ((∀ a ∈ (t.2.leafFor key).cells, a.1 ≠ key) → ¬ TextsFit values →
        insertCommand s table table.tableName values = .ok (⟨.failure, [textTooLong]⟩, s₁)) ∧
      ((∀ a ∈ (t.2.leafFor key).cells, a.1 ≠ key) → TextsFit values →
        insertCommand s table table.tableName values =
          (insertRow s₁ table (t.2.leafFor key).page key (insertedRow values) σ.rowSize).map
            (orPrint cannotInsert)) := by
  obtain ⟨s₀, hget, hf₀⟩ := pagerGetPage_of_lt h.sound h.root_lt
  have h₀ := h.fetched hf₀
  obtain ⟨s₁, hdescent, hf₁⟩ := h₀.descent key
  have h₁ := h₀.fetched hf₁
  have hfound := h₁.foundAt key
  refine ⟨s₁, hf₀.trans hf₁, ?_⟩
  have hrun₀ := insertCommand_descended h hm hkey hget hdescent
  rw [hrun₀]
  refine ⟨fun hdup => ?_, fun hnew hlong => ?_, fun hnew hfit => ?_⟩
  · rw [if_pos (hfound.mpr hdup)]
  · rw [if_neg (fun hf => (hfound.mp hf).elim fun a ha => hnew a ha.1 ha.2)]
    rcases rowValues_eq values with ⟨hfit, -⟩ | ⟨-, heq⟩
    · exact absurd hfit hlong
    · rw [heq]
  · rw [if_neg (fun hf => (hfound.mp hf).elim fun a ha => hnew a ha.1 ha.2)]
    rcases rowValues_eq values with ⟨-, heq⟩ | ⟨hno, -⟩
    · rw [heq]
      rfl
    · exact absurd hfit hno

/-! ## Pages -/

/-- The `INSERT` gets as far as splitting a leaf: its values go with the columns and fit into a row,
its key is new, and the leaf for the key is full. -/
structure SplitsAt (s : Pager) (table : Table) (n : ℕ) (values : List Expr) (leaf : ℕ) : Prop where
  count : catalogNodeColumnCount (s.page 0) n = values.length
  types : (List.zipWith typeMatches (storedTypes (s.page 0) n) values).any (! ·) = false
  texts : TextsFit values
  descent : ∃ key s', values[catalogNodePrimaryKeyColumn (s.page 0) n]? = some (.literalInt key) ∧
    leafNodeForKey key walkFuel s table.rootPageNum = .ok (some leaf, s') ∧
    ¬ FoundAt (s.page leaf) key (catalogNodeRowSize (s.page 0) n)
  full : leafNodeMaxCells (catalogNodeRowSize (s.page 0) n) ≤ numCells (s.page leaf)

/-- There are as many pages left as the `INSERT` takes. -/
def HasRoom (s : Pager) (table : Table) (n : ℕ) (values : List Expr) : Prop :=
  ∀ leaf, SplitsAt s table n values leaf →
    s.numPages + pagesNeeded s leaf (catalogNodeRowSize (s.page 0) n) ≤ tablesMaxPages

/-- The `INSERT` does not run out of pages after it has split a leaf: there are pages enough, or
none at all, or the leaf is the root, which is not touched before both of its halves have a page. -/
def CanFinish (s : Pager) (table : Table) (n : ℕ) (values : List Expr) : Prop :=
  ∀ leaf, SplitsAt s table n values leaf →
    isRoot (s.page leaf) = 1 ∨ s.numPages = tablesMaxPages ∨
      s.numPages + pagesNeeded s leaf (catalogNodeRowSize (s.page 0) n) ≤ tablesMaxPages

theorem HasRoom.canFinish (h : HasRoom s table n values) : CanFinish s table n values :=
  fun leaf hleaf => Or.inr (Or.inr (h leaf hleaf))

/-- The leaf that is split is the one for the key. -/
theorem Holds.splitsAt (h : Holds s table n σ t) (hm : Matches σ values)
    (hkey : values[σ.primaryKey]? = some (.literalInt key))
    (hnew : ∀ a ∈ (t.2.leafFor key).cells, a.1 ≠ key) (hfit : TextsFit values)
    (hfull : leafNodeMaxCells σ.rowSize ≤ (t.2.leafFor key).cells.length) :
    SplitsAt s table n values (t.2.leafFor key).page := by
  obtain ⟨e, hleaf⟩ := h.leafPage key
  obtain ⟨s', hdescent, -⟩ := h.descent key
  refine ⟨by rw [h.describes.columnCount, hm.length_eq], ?_, hfit, ⟨key, s', ?_, hdescent, ?_⟩, ?_⟩
  · rw [h.describes.types]
    exact (any_typeMatches _ _ hm.length_eq).mpr hm
  · rw [h.describes.primaryKey]
    exact hkey
  · rw [h.describes.rowSize, h.foundAt]
    rintro ⟨a, ha, heq⟩
    exact hnew a ha heq
  · rw [h.describes.rowSize, hleaf.length_cells]
    exact hfull

/-! ## The outcome -/

/-- How an `INSERT` can end. -/
inductive InsertOutcome (s : Pager) (table : Table) (n : ℕ) (σ : Schema) (t : PageTreeAny)
    (values : List Expr) : Outcome → Pager → Prop
  /-- the values do not go with the columns -/
  | mismatch : ¬ Matches σ values →
      InsertOutcome s table n σ t values ⟨.failure, [valuesMismatch σ.types values]⟩ s
  /-- the key is there -/
  | duplicate {key : Int64} {s' : Pager} : Matches σ values →
      values[σ.primaryKey]? = some (.literalInt key) →
      (∃ a ∈ (t.2.leafFor key).cells, a.1 = key) → Fetched s s' →
      InsertOutcome s table n σ t values ⟨.idDuplicateError, [idDuplicated key]⟩ s'
  /-- a text does not fit -/
  | tooLong {s' : Pager} : ¬ TextsFit values → Fetched s s' →
      InsertOutcome s table n σ t values ⟨.failure, [textTooLong]⟩ s'
  /-- no page could be had for the leaf -/
  | noPage {leaf : ℕ} {s' : Pager} : SplitsAt s table n values leaf →
      tablesMaxPages < s.numPages + pagesNeeded s leaf σ.rowSize →
      Evolves s s' {q | s.numPages ≤ q} ∅ →
      InsertOutcome s table n σ t values ⟨.failure, [cannotInsert]⟩ s'
  /-- the row is in the tree -/
  | inserted {key : Int64} {s' : Pager} : Matches σ values → TextsFit values →
      values[σ.primaryKey]? = some (.literalInt key) →
      (∀ a ∈ (t.2.leafFor key).cells, a.1 ≠ key) →
      s'.numPages = (treeInserted s σ.types key (insertedRow values) t).2 →
      Evolves s s' {q | q ∈ t.2.labels ∨ s.numPages ≤ q}
        (movedPages s (splitPath s (t.2.leafFor key).page σ.rowSize)) →
      Represents s' σ.rowSize (treeInserted s σ.types key (insertedRow values) t).1 →
      InsertOutcome s table n σ t values ⟨.commandSuccess, []⟩ s'

/-- Fetching pages changes nothing about the splits to come. -/
theorem splitPath_fetched {s₁ : Pager} (hf : Fetched s s₁) (leaf rowSize : ℕ) :
    splitPath s₁ leaf rowSize = splitPath s leaf rowSize ∧
      pagesNeeded s₁ leaf rowSize = pagesNeeded s leaf rowSize := by
  have hanc : ∀ fuel child, fullAncestors fuel s₁ child = fullAncestors fuel s child := by
    intro fuel
    induction fuel with
    | zero => exact fun _ => rfl
    | succ fuel ih =>
      intro child
      simp only [fullAncestors, hf.page, ih]
  simp only [pagesNeeded, splitPath, pagesForSplit, hf.page, hanc, and_self]

/-- **An `INSERT` that can finish ends in one of the five ways.** -/
theorem insertCommand_spec (h : Holds s table n σ t) (hcan : CanFinish s table n values) :
    ∃ o s', insertCommand s table table.tableName values = .ok (o, s') ∧
      InsertOutcome s table n σ t values o s' := by
  by_cases hm : Matches σ values
  swap
  · exact ⟨_, _, insertCommand_mismatch h hm, .mismatch hm⟩
  obtain ⟨key, hkey⟩ := hm.exists_key
  obtain ⟨s₁, hf, hdup, hlong, hrun⟩ := insertCommand_matches h hm hkey
  by_cases hnew : ∃ a ∈ (t.2.leafFor key).cells, a.1 = key
  · exact ⟨_, _, hdup hnew, .duplicate hm hkey hnew hf⟩
  have hnew' : ∀ a ∈ (t.2.leafFor key).cells, a.1 ≠ key := fun a ha heq => hnew ⟨a, ha, heq⟩
  by_cases hfit : TextsFit values
  swap
  · exact ⟨_, _, hlong hnew' hfit, .tooLong hfit hf⟩
  have h₁ := h.fetched hf
  obtain ⟨e, hleaf⟩ := h₁.leafPage key
  have hneed := h₁.represents.pagesNeeded_eq key (insertedRow values) h₁.sound
  rw [hrun hnew' hfit]
  by_cases hroom : (treeInserted s₁ σ.types key (insertedRow values) t).2 ≤ tablesMaxPages
  · obtain ⟨s', hin⟩ := insertRow_represents h₁.reads h₁.sound σ.one_le_maxCells
      hm.length_rowBytes h₁.represents hnew' hroom
    have hev := hin.evolves
    have hpath := h₁.represents.splitPath_eq key h₁.sound
    refine ⟨_, s', congrArg (Except.map (orPrint cannotInsert)) hin.run,
      .inserted hm hfit hkey hnew' ?_ ?_ ?_⟩
    · rw [hin.numPages, treeInserted, hf.numPages]
    · have hmoved : ∀ cuts, movedPages s₁ cuts = movedPages s cuts := fun cuts => by
        simp only [movedPages, hf.page]
      rw [rowCuts, ← hpath, hmoved, (splitPath_fetched hf _ _).1, hf.numPages] at hev
      exact hf.evolves.trans hev
    · have hrep := hin.represents
      rw [treeInserted, hf.numPages] at hrep
      exact hrep
  · -- the leaf has to be split, and there is no page
    rw [← hneed] at hroom
    have hbounded := h₁.sound.bounded
    have hfull : leafNodeMaxCells σ.rowSize ≤ (t.2.leafFor key).cells.length := by
      by_contra hlt
      rw [pagesNeeded, hleaf.length_cells, if_pos (not_le.mp hlt)] at hroom
      exact hroom hbounded
    rw [(splitPath_fetched hf _ _).2, hf.numPages] at hroom
    have hat := h.splitsAt hm hkey hnew' hfit hfull
    have hsplits := hcan _ hat
    rw [h.describes.rowSize] at hsplits
    have hsplit := insertRow_full table key (insertedRow values) hleaf hfull
    by_cases hmax : s₁.numPages = tablesMaxPages
    · exact ⟨_, s₁, congrArg (Except.map (orPrint cannotInsert))
          (hsplit.trans (splitLeafNode_full h₁.reads hmax)),
        .noPage hat (not_le.mp hroom) hf.evolves⟩
    · rw [← hf.numPages] at hsplits hroom
      have hroot : isRoot (s.page (t.2.leafFor key).page) = 1 :=
        hsplits.resolve_right (not_or_intro hmax hroom)
      have hneed2 : pagesNeeded s (t.2.leafFor key).page σ.rowSize = 2 := by
        have hnum := hleaf.length_cells
        rw [hf.page] at hnum
        rw [pagesNeeded, splitPath, hnum, if_neg (not_lt.mpr hfull), if_neg (not_lt.mpr hfull),
          if_pos hroot, pagesForSplit, if_pos hroot]
        rfl
      rw [hneed2] at hroom
      obtain ⟨s', hfail, -, hev⟩ := splitLeafNode_root_full
        h₁.sound h₁.reads (by rw [hf.page]; exact hroot) (by omega)
      refine ⟨_, s', congrArg (Except.map (orPrint cannotInsert)) (hsplit.trans hfail),
        .noPage hat ?_ ?_⟩
      · rw [hneed2, ← hf.numPages]
        exact not_le.mp hroom
      refine hf.evolves.trans (hev.mono ?_ (Set.empty_subset _))
      rintro q rfl
      exact hf.numPages.ge

/-- What is known of an `INSERT` that splits a leaf. -/
theorem SplitsAt.matches {leaf : ℕ} (h : Holds s table n σ t)
    (hat : SplitsAt s table n values leaf) :
    ∃ key, Matches σ values ∧ values[σ.primaryKey]? = some (.literalInt key) ∧
      (∀ a ∈ (t.2.leafFor key).cells, a.1 ≠ key) ∧ leaf = (t.2.leafFor key).page := by
  obtain ⟨key, s', hkey, hdescent, hnew⟩ := hat.descent
  obtain ⟨s'', hdescent', -⟩ := h.descent key
  have heq := hdescent.symm.trans hdescent'
  cases heq
  have hcount := hat.count
  have htypes := hat.types
  rw [h.describes.columnCount] at hcount
  rw [h.describes.types] at htypes
  rw [h.describes.primaryKey] at hkey
  rw [h.describes.rowSize, h.foundAt] at hnew
  exact ⟨key, (any_typeMatches _ _ hcount).mp htypes, hkey,
    fun a ha heq => hnew ⟨a, ha, heq⟩, rfl⟩

/-- **An `INSERT` that cannot finish** fails, and leaves no tree. -/
theorem insertCommand_exhausted (h : Holds s table n σ t)
    (hno : ¬ CanFinish s table n values) :
    ∃ s', insertCommand s table table.tableName values =
        .ok (⟨.failure, [cannotInsert]⟩, s') ∧
      ¬ ∃ t', Represents s' σ.rowSize t' ∧ t'.2.page = table.rootPageNum := by
  unfold CanFinish at hno
  push Not at hno
  obtain ⟨leaf, hat, hroot, hsome, hroom⟩ := hno
  obtain ⟨key, hm, hkey, hnew, rfl⟩ := hat.matches h
  obtain ⟨s₁, hf, -, -, hrun⟩ := insertCommand_matches h hm hkey
  have h₁ := h.fetched hf
  have hneed := h₁.represents.pagesNeeded_eq key (insertedRow values) h₁.sound
  rw [h.describes.rowSize, ← (splitPath_fetched hf _ _).2, ← hf.numPages, hneed] at hroom
  have hbounded := h.sound.bounded
  obtain ⟨s', hfail, hlost⟩ := insertRow_exhausted h₁.reads h₁.sound σ.one_le_maxCells
    hm.length_rowBytes (by rw [hf.numPages]; omega) h₁.represents hnew
      (by rw [hf.page]; exact hroot)
    hroom
  refine ⟨s', (hrun hnew hat.texts).trans (congrArg (Except.map (orPrint cannotInsert)) hfail), ?_⟩
  rw [← h.root]
  exact hlost

/-- There is room when the tree with the row fits into the pages. -/
theorem Holds.hasRoom (h : Holds s table n σ t)
    (hkey : values[σ.primaryKey]? = some (.literalInt key))
    (hroom : (treeInserted s σ.types key (insertedRow values) t).2 ≤ tablesMaxPages) :
    HasRoom s table n values := by
  intro leaf hat
  obtain ⟨key', s', hkey', hdescent', -⟩ := hat.descent
  rw [h.describes.primaryKey, hkey] at hkey'
  cases hkey'
  obtain ⟨s'', hdescent, -⟩ := h.descent key
  have heq := hdescent.symm.trans hdescent'
  cases heq
  rw [h.describes.rowSize, h.represents.pagesNeeded_eq key (insertedRow values) h.sound]
  exact hroom

/-- **A new row that goes with the columns is inserted**, when there is room for it. -/
theorem insertCommand_hasRoom (h : Holds s table n σ t) (hm : Matches σ values)
    (hfit : TextsFit values) (hkey : values[σ.primaryKey]? = some (.literalInt key))
    (hnew : ∀ a ∈ (t.2.leafFor key).cells, a.1 ≠ key) (hhas : HasRoom s table n values) :
    ∃ s', insertCommand s table table.tableName values = .ok (⟨.commandSuccess, []⟩, s') ∧
      s'.numPages = (treeInserted s σ.types key (insertedRow values) t).2 ∧
      Evolves s s' {q | q ∈ t.2.labels ∨ s.numPages ≤ q}
        (movedPages s (splitPath s (t.2.leafFor key).page σ.rowSize)) ∧
      Represents s' σ.rowSize (treeInserted s σ.types key (insertedRow values) t).1 := by
  obtain ⟨r, s', hrun, hout⟩ := insertCommand_spec h hhas.canFinish
  cases hout with
  | mismatch hno => exact absurd hm hno
  | duplicate _ hkey' hdup =>
    rw [hkey] at hkey'
    cases hkey'
    obtain ⟨a, ha, heq⟩ := hdup
    exact absurd heq (hnew a ha)
  | tooLong hlong => exact absurd hfit hlong
  | noPage hat hneed =>
    have hle := hhas _ hat
    rw [h.describes.rowSize] at hle
    exact absurd hle (not_le.mpr hneed)
  | inserted _ _ hkey' _ hnum hev hrep =>
    rw [hkey] at hkey'
    cases hkey'
    exact ⟨s', hrun, hnum, hev, hrep⟩

/-- The same when the tree with the row fits into the pages. -/
theorem insertCommand_inserted (h : Holds s table n σ t) (hm : Matches σ values)
    (hfit : TextsFit values) (hkey : values[σ.primaryKey]? = some (.literalInt key))
    (hnew : ∀ a ∈ (t.2.leafFor key).cells, a.1 ≠ key)
    (hroom : (treeInserted s σ.types key (insertedRow values) t).2 ≤ tablesMaxPages) :
    ∃ s', insertCommand s table table.tableName values = .ok (⟨.commandSuccess, []⟩, s') ∧
      s'.numPages = (treeInserted s σ.types key (insertedRow values) t).2 ∧
      Evolves s s' {q | q ∈ t.2.labels ∨ s.numPages ≤ q}
        (movedPages s (splitPath s (t.2.leafFor key).page σ.rowSize)) ∧
      Represents s' σ.rowSize (treeInserted s σ.types key (insertedRow values) t).1 :=
  insertCommand_hasRoom h hm hfit hkey hnew (h.hasRoom hkey hroom)

end MiniDB
