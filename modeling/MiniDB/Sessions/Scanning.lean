import MiniDB.Cursors.Scan
import MiniDB.Sessions.Ascending

/-!
# Scans of reachable databases

A `DELETE` may leave leaves behind that hold no cell, and a scan that hops to such a leaf reads a
row from it all the same.

* `KeepsLeaves`: no `DELETE` empties a leaf but the first.
* `Change.filled`, `Reachable.filled`: **then no leaf but the first is empty**.
* `reachable_scansExactly`: **when a scan gives exactly the rows in the table**.
-/

namespace MiniDB

open BPlusTree Pager

variable {s s' : Pager} {ts ts' : List TableInfo} {tree : AstNode} {name : List UInt8} {n : ℕ}
  {ok : Pager → AstNode → Prop}

/-- An `INSERT` does not run out of pages half way, and a `DELETE` leaves a row in every leaf of its
table but the first. -/
def KeepsLeaves (s : Pager) (tree : AstNode) : Prop :=
  tree.CanFinish s ∧ ∀ name where_, tree = .deleteTable name where_ →
    ∀ n, catalogNodeFindTable (s.page 0) name = .ok (some n) →
      ∀ σ t, Holds s (openTable s n name) n σ t → ∀ l ∈ t.2.leaves.tail,
        ∃ c ∈ l.cells, selected σ (s.page 0) n where_ c = false

/-- The trees of all tables are filled. -/
def AllFilled (ts : List TableInfo) : Prop := ∀ x ∈ ts, x.tree.2.Filled

theorem AllFilled.set {x : TableInfo} (h : AllFilled ts) (hx : x.tree.2.Filled) (n : ℕ) :
    AllFilled (ts.set n x) := by
  intro y hy
  rcases List.mem_or_eq_of_mem_set hy with hy | rfl
  · exact h y hy
  · exact hx

/-- **A statement that empties no leaf keeps the trees filled.** -/
theorem Change.filled (h : Change s ts s' tree ts') (hdb : Database s ts) (hall : AllFilled ts)
    (hkeeps : KeepsLeaves s tree) : AllFilled ts' := by
  cases h with
  | same _ => exact hall
  | refused _ _ _ _ => exact hall
  | created hv _ =>
    intro y hy
    rcases List.mem_append.mp hy with hy | hy
    · exact hall y hy
    · rw [List.mem_singleton.mp hy]
      exact fun l hl => absurd hl List.not_mem_nil
  | @inserted _ values n x key hx _ _ _ _ _ _ _ =>
    have hold := hall x (List.mem_of_getElem? hx)
    exact hall.set (filled_insertRoot x.schema.one_le_maxCells _ hold) n
  | @updated _ columns values where_ n x as hx _ _ _ _ =>
    have hold := hall x (List.mem_of_getElem? hx)
    refine hall.set (Tree.filled_mapCells fun l hl => ?_) n
    exact fun hnil => hold l hl (List.map_eq_nil_iff.mp hnil)
  | @deleted name where_ n x hx hfind _ =>
    obtain ⟨y, hy, hholds⟩ := hdb.holds hfind
    obtain rfl : y = x := Option.some_inj.mp (hy.symm.trans hx)
    refine hall.set (Tree.filled_mapCells fun l hl => ?_) n
    obtain ⟨c, hc, hsel⟩ := hkeeps.2 name where_ rfl n hfind _ _ hholds l hl
    have hmem : c ∈ unselected y.schema (s.page 0) n where_ l.cells :=
      List.mem_filter.mpr ⟨hc, by rw [hsel]; rfl⟩
    exact List.ne_nil_of_mem hmem

/-- **No leaf but the first is empty** in the runs that empty none. -/
theorem Reachable.filled (h : Reachable ok s) (hok : ∀ s tree, ok s tree → KeepsLeaves s tree) :
    ∃ ts, Database s ts ∧ AllFilled ts := by
  refine h.invariant (P := fun _ ts => AllFilled ts) (fun s tree h => (hok s tree h).1) ?_ ?_
  · exact fun _ _ x hx => absurd hx List.not_mem_nil
  · intro s tree s' ts ts' hdb _ hall hmeets _ hchange
    exact hchange.filled hdb hall (hok s tree hmeets)

/-- **A scan gives exactly the rows in the table** just when every leaf but the first has a cell;
and it does in every state of a run no `DELETE` of which empties such a leaf. -/
theorem reachable_scansExactly (h : Reachable Finishes s)
    (hfind : catalogNodeFindTable (s.page 0) name = .ok (some n)) :
    (ScansExactly s (openTable s n name) (catalogNodeRowSize (s.page 0) n) ↔
        LeavesFilled s (openTable s n name).rootPageNum) ∧
      (Reachable KeepsLeaves s →
        ScansExactly s (openTable s n name) (catalogNodeRowSize (s.page 0) n)) := by
  have hiff : ∀ ts, Database s ts → ∃ x ∈ ts, Holds s (openTable s n name) n x.schema x.tree ∧
      (ScansExactly s (openTable s n name) (catalogNodeRowSize (s.page 0) n) ↔
        LeavesFilled s (openTable s n name).rootPageNum) := by
    intro ts hdb
    obtain ⟨x, hx, hholds⟩ := hdb.holds hfind
    refine ⟨x, List.mem_of_getElem? hx, hholds, ?_⟩
    rw [hholds.describes.rowSize]
    exact hholds.scansExactly_iff
  constructor
  · obtain ⟨ts, hdb⟩ := h.database
    obtain ⟨-, -, -, hscan⟩ := hiff ts hdb
    exact hscan
  · intro hkeeps
    obtain ⟨ts, hdb, hall⟩ := hkeeps.filled fun _ _ h => h
    obtain ⟨x, hx, hholds, hscan⟩ := hiff ts hdb
    exact hscan.mpr (hholds.leavesFilled_iff.mpr (hall x hx))

/-- Three rows on two leaves. -/
theorem reachable_scansExactly_notes : ∃ s, Reachable Finishes s ∧
    ScansExactly s (openTable s 0 notesName) (catalogNodeRowSize (s.page 0) 0) := by
  obtain ⟨s, hreach, h, -⟩ := exists_three
  refine ⟨s, hreach, (reachable_scansExactly hreach h.find).1.mpr ?_⟩
  refine h.holds.leavesFilled_iff.mpr ?_
  intro l hl
  have hleaf : l = ⟨2, [notesCell (rowKey 2), notesCell (rowKey 3)]⟩ := List.mem_singleton.mp hl
  rw [hleaf]
  exact List.cons_ne_nil _ _

/-- The three rows are deleted, and a scan still delivers one. -/
theorem not_scansExactly_emptied : ∃ s, Reachable Finishes s ∧
    catalogNodeFindTable (s.page 0) notesName = .ok (some 0) ∧
      tableRows s (openTable s 0 notesName) (catalogNodeRowSize (s.page 0) 0) = .ok [] ∧
      ∃ row s', drain (openTable s 0 notesName) scanFuel (.tableScan
        (openTable s 0 notesName).rootPageNum 0 (catalogNodeRowSize (s.page 0) 0) false) s =
          .ok ([row], s') := by
  obtain ⟨s₀, hreach₀, h₀, -⟩ := exists_three
  obtain ⟨s, hrun, h, -⟩ := h₀.delete none fun f c _ hbad => by cases hbad
  have hstep : CarriesOut s₀ (.deleteTable notesName none) s := ⟨trivial, _, hrun⟩
  have hok : Finishes s₀ (.deleteTable notesName none) := trivial
  have hreach : Reachable Finishes s := hreach₀.tail hok hstep
  have hholds := h.holds
  have hrows := hholds.tableRows
  obtain ⟨s', hdrain, -⟩ := hholds.drain_scan
  refine ⟨s, hreach, h.find, ?_⟩
  rw [hholds.describes.rowSize]
  exact ⟨hrows, _, s', hdrain⟩

end MiniDB
