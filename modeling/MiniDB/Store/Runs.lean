import MiniDB.Store.Statements
import MiniDB.Sessions.Ascending

/-!
# Runs of a database against the store

Statements are carried out one after the other, and in between the program may end and be started
again.  All that can be seen of such a run is what the store says, for which a restart is nothing.

* `SessionEvent.run`, `Store.run`: one event, of the program and of the store.
* `runs_agree`: **every run shows what the store shows**.
* `runs_indistinguishable`: **two files that hold one store cannot be told apart**, whatever their
  pages are like and wherever the program is started again.
-/

namespace MiniDB

open BPlusTree Pager Lockstep

/-- A statement, or a restart; a program that cannot have the catalog page goes on with a pager that
was freed. -/
def SessionEvent.run (s : Pager) : SessionEvent → Exec (Option Outcome × Pager)
  | .statement tree => (execute s tree).map fun r => (some r.1, r.2)
  | .reopen =>
    match openDatabase (pagerClose s) with
    | some s => .ok (none, s)
    | none => .error .nullPointer

/-- A statement about the store; a restart is nothing. -/
def Store.run (st : Store) : SessionEvent → Exec (Option Outcome × Store)
  | .statement tree => (st.exec tree).map fun r => (some r.1, r.2)
  | .reopen => .ok (none, st)

/-- The statement of an event. -/
def SessionEvent.tree : SessionEvent → Option AstNode
  | .statement tree => some tree
  | .reopen => none

/-- Every statement is feasible; the program can be started again at any time. -/
def FeasibleAcross (s : Pager) : SessionEvent → Prop
  | .statement tree => Feasible s tree
  | .reopen => True

variable {s s' : Pager} {st : Store} {event : SessionEvent} {events events' : List SessionEvent}

/-- One event. -/
theorem run_agree (h : Keeps s st) (hok : FeasibleAcross s event) :
    Agree Keeps (event.run s) (st.run event) := by
  cases event with
  | statement tree => exact (execute_agree h hok).map (fun _ _ _ => rfl) fun _ _ _ h => h
  | reopen =>
    obtain ⟨ts, h⟩ := h
    obtain ⟨s', hopen, h'⟩ := h.reopen
    simp only [SessionEvent.run, hopen]
    exact .step ⟨ts, h'⟩

/-- **Every run shows what the store shows**, from a file that holds the store on. -/
theorem Keeps.runAll (h : Keeps s st) (hg : Guarded SessionEvent.run FeasibleAcross s events) :
    Agree Keeps (Lockstep.runAll SessionEvent.run s events) (Lockstep.runAll Store.run st events) :=
  runAll_agree h hg fun _ _ _ => run_agree

/-- **The runs of a new database** show what the empty store shows. -/
theorem runs_agree (hopen : openDatabase Disk.empty = some s)
    (hg : Guarded SessionEvent.run FeasibleAcross s events) :
    Agree Keeps (Lockstep.runAll SessionEvent.run s events) (Lockstep.runAll Store.run [] events) :=
  Keeps.runAll ⟨[], stores_empty hopen⟩ hg

/-- A `SELECT` is always feasible. -/
theorem feasible_select (s : Pager) (name : List UInt8) (isStar : Bool) {columns : List Expr}
    (hcolumns : AreColumns columns) (where_ : Option Expr) :
    Feasible s (.select name isStar columns where_) where
  parsed := hcolumns
  scanned := trivial
  room := trivial
  moves := trivial
  leaves := ⟨trivial, by rintro _ _ ⟨⟩⟩

/-- A `CREATE TABLE` whose names fit is feasible as long as there is a page. -/
theorem feasible_create {name : List UInt8} {definitions : List ColumnDefinition}
    (hv : ValidDefinitions definitions) (hscan : (AstNode.createTable name definitions).Scanned)
    (hname : name.length < columnNameSize)
    (hnames : ∀ d ∈ definitions, d.name.length < columnNameSize)
    (hpages : s.numPages < tablesMaxPages) : Feasible s (.createTable name definitions) where
  parsed := hv
  scanned := hscan
  room _ := ⟨hpages, hname, hnames⟩
  moves := trivial
  leaves := ⟨trivial, by rintro _ _ ⟨⟩⟩

/-- An `INSERT` into leaves that are not full splits none. -/
theorem Holds.not_splitsAt {table : Table} {n leaf : ℕ} {σ : Schema} {t : PageTreeAny}
    {values : List Expr} (h : Holds s table n σ t)
    (hlt : ∀ key, (t.2.leafFor key).cells.length < leafNodeMaxCells σ.rowSize) :
    ¬ SplitsAt s table n values leaf := by
  intro hsplits
  obtain ⟨key, -, -, -, rfl⟩ := hsplits.matches h
  obtain ⟨e, hleaf⟩ := h.leafPage key
  have hfull := hsplits.full
  rw [h.describes.rowSize, hleaf.length_cells] at hfull
  exact absurd (hlt key) (not_lt.mpr hfull)

/-- The first row of a table. -/
theorem Keeps.feasible_insert {name : List UInt8} {n : ℕ} {r : Relation} {values : List Expr}
    (h : Keeps s st) (hfind : st.find name = some n) (hr : st[n]? = some r) (hrows : r.rows = [])
    (hscan : AreScanned values) : Feasible s (.insert name values) := by
  obtain ⟨ts, h⟩ := h
  obtain ⟨x, -, -, -, hp⟩ := h.presents hfind hr
  have hempty : x.tree.2.contents = [] := by
    rw [← List.map_eq_nil_iff, hp.rows, hrows]
  have hlt : ∀ key, (x.tree.2.leafFor key).cells.length < leafNodeMaxCells r.schema.rowSize := by
    intro key
    have hcells : (x.tree.2.leafFor key).cells = [] :=
      List.eq_nil_iff_forall_not_mem.mpr fun c hc => by
      have hmem := mem_contents.mpr ⟨_, Tree.leafFor_mem_leaves key x.tree.2, hc⟩
      rw [hempty] at hmem
      exact List.not_mem_nil hmem
    rw [hcells]
    exact Schema.one_le_maxCells _
  have hnone : ∀ m, catalogNodeFindTable (s.page 0) name = .ok (some m) → ∀ leaf,
      ¬ SplitsAt s (openTable s m name) m values leaf := by
    intro m hm leaf
    rw [h.find, hfind] at hm
    cases hm
    exact hp.holds.not_splitsAt hlt
  refine ⟨trivial, hscan, fun m hm leaf hat => ?_, fun m hm leaf hat => ?_,
    fun m hm leaf hat => ?_, by rintro _ _ ⟨⟩⟩
  all_goals exact absurd hat (hnone m hm leaf)

/-- A table, a row, a restart, and a look at the table. -/
def notesRun (key : Int64) : List SessionEvent :=
  [.statement (.createTable notesName notes), .statement (.insert notesName (notesRow key)),
    .reopen, .statement (.select notesName true [] none)]

/-- The look at the table is feasible. -/
theorem guarded_select (s : Pager) : Guarded SessionEvent.run FeasibleAcross s
    [.statement (.select notesName true [] none)] :=
  ⟨feasible_select s notesName true (fun _ he => absurd he List.not_mem_nil) none,
    fun _ _ _ => trivial⟩

theorem scanned_createNotes : (AstNode.createTable notesName notes).Scanned := by
  refine ⟨⟨by decide, by decide⟩, ?_⟩
  intro d hd
  exact ⟨by revert d; decide, by revert d; decide⟩

/-- The table of the notes in a new database. -/
theorem feasible_createNotes (hopen : openDatabase Disk.empty = some s) :
    Feasible s (.createTable notesName notes) := by
  obtain ⟨s₁, hopen₁, -, hnum, -⟩ := openDatabase_empty
  obtain rfl : s₁ = s := Option.some_inj.mp (hopen₁.symm.trans hopen)
  refine feasible_create validNotes scanned_createNotes (by decide) (by decide) ?_
  rw [hnum]
  decide

/-- The new table, as an event. -/
theorem run_createNotes (hopen : openDatabase Disk.empty = some s) :
    ∃ s', SessionEvent.run s (.statement (.createTable notesName notes)) =
        .ok (some ⟨.commandSuccess, []⟩, s') ∧
      Keeps s' [Relation.empty notesName notes validNotes] ∧ s'.numPages = 2 ∧
      OneTable s' notesName notes validNotes ⟨0, .leaf 1 []⟩ := by
  obtain ⟨s₀, s', hopen₀, hexec, hone, hnum, -⟩ :=
    execute_create storable_notesName validNotes (by decide)
  obtain rfl : s₀ = s := Option.some_inj.mp (hopen₀.symm.trans hopen)
  have hrun : SessionEvent.run s₀ (.statement (.createTable notesName notes)) =
      .ok (some ⟨.commandSuccess, []⟩, s') := by
    rw [SessionEvent.run, hexec]
    rfl
  have hagree : Agree Keeps (SessionEvent.run s₀ (.statement (.createTable notesName notes)))
      (Store.run [] (.statement (.createTable notesName notes))) :=
    run_agree ⟨[], stores_empty hopen⟩ (feasible_createNotes hopen)
  obtain ⟨st, hst, hkeeps⟩ := hagree.of_ok hrun
  cases hst
  exact ⟨s', hrun, hkeeps, hnum, hone⟩

theorem guarded_notesRun (hopen : openDatabase Disk.empty = some s) (key : Int64) :
    Guarded SessionEvent.run FeasibleAcross s (notesRun key) := by
  obtain ⟨s', hrun, h, -⟩ := run_createNotes hopen
  refine ⟨feasible_createNotes hopen, fun o s₁ hrun₁ => ⟨?_, fun o s₂ _ => ⟨trivial, fun o s₃ _ =>
    guarded_select s₃⟩⟩⟩
  rw [hrun] at hrun₁
  cases hrun₁
  exact h.feasible_insert rfl rfl rfl (areScanned_notesRow key)

/-- The row is shown after the restart. -/
theorem runs_agree_notes : ∃ s, openDatabase Disk.empty = some s ∧
    Agree Keeps (Lockstep.runAll SessionEvent.run s (notesRun 7))
      (Lockstep.runAll Store.run [] (notesRun 7)) := by
  obtain ⟨s, hopen, -⟩ := database_empty
  exact ⟨s, hopen, runs_agree hopen (guarded_notesRun hopen 7)⟩

example : (Lockstep.runAll Store.run [] (notesRun 7)).map
      (fun r => r.1.map (Option.map Outcome.output)) =
    .ok [some [], some [], none, some [ascii "7        "]] := rfl

/-- The restarts of a run of the store can be left out. -/
theorem Store.runAll_trees (st : Store) (events : List SessionEvent) :
    (Lockstep.runAll Store.run st events).map (fun r => (r.1.filterMap id, r.2)) =
      Lockstep.runAll Store.exec st (events.filterMap SessionEvent.tree) := by
  refine runAll_idle ?_ ?_ st events
  · intro st event hpick
    cases event with
    | statement tree => cases hpick
    | reopen => rfl
  · intro st event tree hpick
    cases event with
    | statement tree' =>
      cases hpick
      rfl
    | reopen => cases hpick

/-- Both runs fail, or they show the same and end with the same store. -/
inductive Indistinguishable : Exec (List (Option Outcome) × Pager) →
    Exec (List (Option Outcome) × Pager) → Prop
  | fail (f f' : Fault) : Indistinguishable (.error f) (.error f')
  | same {os os' : List (Option Outcome)} {s s' : Pager} {st : Store} :
      os.filterMap id = os'.filterMap id → Keeps s st → Keeps s' st →
      Indistinguishable (.ok (os, s)) (.ok (os', s'))

/-- **Two databases that hold one store cannot be told apart** by statements, wherever the program
is started again in between. -/
theorem runs_indistinguishable (h : Keeps s st) (h' : Keeps s' st)
    (hg : Guarded SessionEvent.run FeasibleAcross s events)
    (hg' : Guarded SessionEvent.run FeasibleAcross s' events')
    (hsame : events.filterMap SessionEvent.tree = events'.filterMap SessionEvent.tree) :
    Indistinguishable (Lockstep.runAll SessionEvent.run s events)
      (Lockstep.runAll SessionEvent.run s' events') := by
  have hstore := st.runAll_trees events
  rw [hsame, ← st.runAll_trees events'] at hstore
  rcases (h.runAll hg).cases with ⟨f, f₁, hrun, hrun₁⟩ | ⟨os, t, st₁, hrun, hrun₁, hkeeps⟩
  · rcases (h'.runAll hg').cases with ⟨f', f₂, hrun', hrun₂⟩ | ⟨os', t', st₂, hrun', hrun₂, -⟩
    · rw [hrun, hrun']
      exact .fail f f'
    · rw [hrun₁, hrun₂] at hstore
      cases hstore
  · rcases (h'.runAll hg').cases with ⟨f', f₂, hrun', hrun₂⟩ | ⟨os', t', st₂, hrun', hrun₂, hkeeps'⟩
    · rw [hrun₁, hrun₂] at hstore
      cases hstore
    · rw [hrun₁, hrun₂] at hstore
      obtain ⟨hos, rfl⟩ := Prod.mk.inj (Except.ok.inj hstore)
      rw [hrun, hrun']
      exact .same hos hkeeps hkeeps'

/-! ## One store in two files -/

/-- **One more row of the notes**, in the pages and in the store. -/
theorem OneTable.insert_keeps {t t' : PageTreeAny} {r : Relation} {pages : ℕ}
    (h : OneTable s notesName notes validNotes t) (hkeeps : Keeps s [r])
    (hname : r.name = notesName) (key : Int64)
    (hnew : ∀ a ∈ (t.2.leafFor key).cells, a.1 ≠ key)
    (hcuts : t.2.cuts (leafNodeMaxCells (schemaOf notes validNotes).rowSize) internalNodeMaxKeys
      key = [])
    (hins : afterInsert notes s.numPages key (notesRow key) t = (t', pages))
    (hroom : pages ≤ tablesMaxPages) :
    ∃ s', OneTable s' notesName notes validNotes t' ∧ s'.numPages = pages ∧
      Keeps s' [(r.insert (notesRow key)).2] := by
  have hkey : (notesRow key)[(schemaOf notes validNotes).primaryKey]? = some (.literalInt key) :=
    rfl
  have hroom' : (afterInsert notes s.numPages key (notesRow key) t).2 ≤ tablesMaxPages := by
    rw [hins]
    exact hroom
  have hhas := h.holds.hasRoom hkey hroom'
  obtain ⟨hcan, s', hrun, h', hnum⟩ :=
    h.insert (matches_notesRow key) (textsFit_notesRow key) hkey hnew hroom'
  have hok : Feasible s (.insert notesName (notesRow key)) := by
    refine ⟨trivial, areScanned_notesRow key, fun n hn => ?_, fun n hn => ?_,
      ⟨hcan, by rintro _ _ ⟨⟩⟩⟩
    · rw [h.find] at hn
      cases hn
      exact hhas
    · rw [h.find] at hn
      cases hn
      exact h.holds.movesDirty hkey hcuts
  have hexec : Store.exec [r] (.insert notesName (notesRow key)) =
      .ok ((r.insert (notesRow key)).1, [(r.insert (notesRow key)).2]) := by
    have hfind : Store.find [r] notesName = some 0 := by
      rw [Store.find, resolveName, List.map_singleton, hname, List.findIdx?_cons,
        if_pos (beq_self_eq_true _)]
    rw [Store.exec_at hfind rfl]
    rfl
  obtain ⟨st, hst, hkeeps'⟩ := (execute_agree hkeeps hok).of_ok hrun
  rw [hexec] at hst
  obtain ⟨-, rfl⟩ := Prod.mk.inj (Except.ok.inj hst)
  rw [hins] at h' hnum
  exact ⟨s', h', hnum, hkeeps'⟩

/-- The table with rows of these keys. -/
def notesOf (keys : List Int64) : Relation :=
  keys.foldl (fun r key => (r.insert (notesRow key)).2) (Relation.empty notesName notes validNotes)

/-- Rows in ascending order, as one leaf after the other is split. -/
theorem exists_rising : ∃ s, OneTable s notesName notes validNotes (ascending 1) ∧
    Keeps s [notesOf [rowKey 1, rowKey 2, rowKey 3, rowKey 4]] := by
  obtain ⟨s, hopen, -⟩ := database_empty
  obtain ⟨s₀, -, hkeeps₀, hnum₀, h₀⟩ := run_createNotes hopen
  obtain ⟨s₁, h₁, hnum₁, hkeeps₁⟩ := h₀.insert_keeps hkeeps₀ rfl (rowKey 1)
    (fun a ha => absurd ha List.not_mem_nil) rfl (by rw [hnum₀]; rfl)
    (by decide : 2 ≤ tablesMaxPages)
  obtain ⟨s₂, h₂, hnum₂, hkeeps₂⟩ := h₁.insert_keeps hkeeps₁ rfl (rowKey 2) (by decide) rfl
    (by rw [hnum₁]; rfl) (by decide : 2 ≤ tablesMaxPages)
  obtain ⟨s₃, h₃, hnum₃, hkeeps₃⟩ := h₂.insert_keeps hkeeps₂ rfl (rowKey 3) (by decide) rfl
    (by rw [hnum₂]; rfl) (by decide : 4 ≤ tablesMaxPages)
  have hnext : afterInsert notes s₃.numPages (rowKey 4) (notesRow (rowKey 4)) (ascending 0) =
      (ascending 1, 5) := by
    rw [hnum₃]
    exact afterInsert_ascending (m := 0) (by decide)
  obtain ⟨s₄, h₄, -, hkeeps₄⟩ := h₃.insert_keeps hkeeps₃ rfl (rowKey 4)
    (key_ne_ascending (m := 0) (by decide)) (by decide) hnext (by decide)
  exact ⟨s₄, h₄, hkeeps₄⟩

/-- The tree of the same rows when the first one comes last. -/
def refilled : PageTreeAny :=
  ⟨1, .node 1 (.cons (.leaf 3 [notesCell (rowKey 1), notesCell (rowKey 2)]) (rowKey 3)
    (.one (.leaf 2 [notesCell (rowKey 3), notesCell (rowKey 4)])))⟩

theorem exists_refilled : ∃ s, OneTable s notesName notes validNotes refilled ∧
    Keeps s [notesOf [rowKey 2, rowKey 3, rowKey 4, rowKey 1]] := by
  obtain ⟨s, hopen, -⟩ := database_empty
  obtain ⟨s₀, -, hkeeps₀, hnum₀, h₀⟩ := run_createNotes hopen
  obtain ⟨s₁, h₁, hnum₁, hkeeps₁⟩ := h₀.insert_keeps hkeeps₀ rfl (rowKey 2)
    (fun a ha => absurd ha List.not_mem_nil) rfl (by rw [hnum₀]; rfl)
    (by decide : 2 ≤ tablesMaxPages)
  obtain ⟨s₂, h₂, hnum₂, hkeeps₂⟩ := h₁.insert_keeps hkeeps₁ rfl (rowKey 3) (by decide) rfl
    (by rw [hnum₁]; rfl) (by decide : 2 ≤ tablesMaxPages)
  obtain ⟨s₃, h₃, hnum₃, hkeeps₃⟩ := h₂.insert_keeps hkeeps₂ rfl (rowKey 4) (by decide) rfl
    (by rw [hnum₂]; rfl) (by decide : 4 ≤ tablesMaxPages)
  obtain ⟨s₄, h₄, -, hkeeps₄⟩ := h₃.insert_keeps hkeeps₃ rfl (rowKey 1) (by decide) (by decide)
    (show _ = (refilled, 4) by rw [hnum₃]; rfl) (by decide)
  exact ⟨s₄, h₄, hkeeps₄⟩

/-- The same four rows in three leaves and in two: it does not matter in which of the files they are
looked at, nor that the program is started again. -/
theorem runs_indistinguishable_notes : ∃ s s' r,
    OneTable s notesName notes validNotes (ascending 1) ∧ Keeps s [r] ∧
    OneTable s' notesName notes validNotes refilled ∧ Keeps s' [r] ∧
    Indistinguishable
      (Lockstep.runAll SessionEvent.run s [.statement (.select notesName true [] none)])
      (Lockstep.runAll SessionEvent.run s' [.reopen,
        .statement (.select notesName true [] none)]) := by
  obtain ⟨s, h, hkeeps⟩ := exists_rising
  obtain ⟨s', h', hkeeps'⟩ := exists_refilled
  have hsame : notesOf [rowKey 2, rowKey 3, rowKey 4, rowKey 1] =
      notesOf [rowKey 1, rowKey 2, rowKey 3, rowKey 4] := rfl
  rw [hsame] at hkeeps'
  have hreopened : Guarded SessionEvent.run FeasibleAcross s' [.reopen,
      .statement (.select notesName true [] none)] := ⟨trivial, fun _ s₁ _ => guarded_select s₁⟩
  exact ⟨s, s', _, h, hkeeps, h', hkeeps', runs_indistinguishable hkeeps hkeeps'
    (guarded_select s) hreopened rfl⟩

example : (Lockstep.runAll Store.run [notesOf [rowKey 1, rowKey 2, rowKey 3, rowKey 4]]
      [.statement (.select notesName true [] none)]).map
        (fun r => r.1.map (Option.map Outcome.output)) =
    .ok [some [ascii "1        ", ascii "2        ", ascii "3        ", ascii "4        "]] := rfl

end MiniDB
