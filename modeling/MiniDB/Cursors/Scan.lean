import MiniDB.BPlusTree.Filled
import MiniDB.Cursors.Delivering
import MiniDB.Statements.Lookup

/-!
# What a scan delivers

A scan starts with the cells of the first leaf.  When it hops to the next leaf, it reads the first
slot there without asking whether the leaf has a cell; an empty leaf thus gives a row that is no
more in the table, or never was.

* `hopRows`: the rows that a scan finds on a leaf it has hopped to.
* `Holds.delivers_scan`, `Holds.drain_scan`: **the rows of a whole scan**.
* `tableRows`, `Holds.tableRows`: the rows that are in the table.
* `ScansExactly`, `LeavesFilled`, `Holds.scansExactly_iff`: **when they are the same**.
-/

namespace MiniDB

open BPlusTree Pager

variable {s s' : Pager} {table : Table} {n k q : ℕ} {σ : Schema} {t : PageTreeAny}
  {l l' : Leaf Int64 (List UInt8)} {ls : List (Leaf Int64 (List UInt8))}

/-- The row of a cell. -/
def rowOf (σ : Schema) (c : Cell) : Row := ⟨decodeValues σ.types c.2⟩

/-- The row that is read from the first slot of a page, whether there is a cell or not. -/
def firstSlot (σ : Schema) (p : Page) : Row :=
  ⟨decodeValues σ.types (p.read (leafNodeValue 0 σ.rowSize) σ.rowSize)⟩

/-- The rows that a scan finds on a leaf it has hopped to. -/
def hopRows (σ : Schema) (m : ℕ → Page) (l : Leaf Int64 (List UInt8)) : List Row :=
  firstSlot σ (m l.page) :: (l.cells.drop 1).map (rowOf σ)

/-- On a leaf with a cell these are its rows. -/
theorem LeafPage.hopRows {m : ℕ → Page} {e : ℕ} (h : LeafPage σ.rowSize (m l.page) l.cells e)
    (hne : l.cells ≠ []) : MiniDB.hopRows σ m l = l.cells.map (rowOf σ) := by
  obtain ⟨c, cs, hcells⟩ := List.exists_cons_of_ne_nil hne
  have hpos : 0 < (leafCells σ.rowSize (m l.page)).length := by
    rw [h.cells, hcells]
    exact Nat.succ_pos _
  have hfirst := getElem_leafCells hpos
  simp only [h.cells, hcells, List.getElem_cons_zero] at hfirst
  rw [MiniDB.hopRows, hcells, hfirst]
  rfl

/-! ## One call -/

/-- Where a scan may stand: on a leaf, or on the root before its first call. -/
def StandsOn (table : Table) (t : PageTreeAny) (q k : ℕ) (l : Leaf Int64 (List UInt8)) : Prop :=
  q = l.page ∨ (q = table.rootPageNum ∧ k = 0 ∧ l.page = t.2.entry)

/-- The leaf that a call finds. -/
theorem Holds.standsOn (h : Holds s table n σ t) (hl : l ∈ t.2.leaves)
    (hq : StandsOn table t q k l) :
    ∃ s₁ s₂, pagerGetPage s q = some s₁ ∧
      (if nodeType (s₁.page q) = nodeInternal then 0 else k) = k ∧
      MiniDB.firstLeaf walkFuel s₁ q = .ok (some l.page, s₂) ∧ Fetched s s₂ := by
  rcases hq with rfl | ⟨rfl, rfl, hentry⟩
  · obtain ⟨s₁, hget, hf⟩ := pagerGetPage_of_lt h.sound (h.leaf_lt (List.mem_map_of_mem hl))
    obtain ⟨e, hleaf⟩ := (h.fetched hf).represents.stored.leafPage_of_mem hl
    have htype : nodeType (s₁.page l.page) ≠ nodeInternal := by
      rw [hleaf.type]
      decide
    exact ⟨s₁, s₁, hget, if_neg htype, by rw [walkFuel, MiniDB.firstLeaf, if_neg htype], hf⟩
  · obtain ⟨s₁, s₂, hget, hfirst, hf⟩ := h.firstLeaf
    exact ⟨s₁, s₂, hget, ite_self 0, by rw [hfirst, hentry], hf⟩

/-- A cell that was not delivered yet. -/
theorem Holds.tableScanNext_cell (h : Holds s table n σ t) (hl : l ∈ t.2.leaves)
    (hq : StandsOn table t q k l) (hk : k < l.cells.length) :
    ∃ s', tableScanNext s table q k σ.rowSize false =
        .ok (some (rowOf σ l.cells[k]), .tableScan l.page (k + 1) σ.rowSize false, s') ∧
      Fetched s s' := by
  obtain ⟨s₁, s₂, hget, hcell, hfirst, hf⟩ := h.standsOn hl hq
  obtain ⟨e, hleaf⟩ := (h.fetched hf).represents.stored.leafPage_of_mem hl
  have hrow := (h.fetched hf).reads.deserializeCell hleaf.cells hk
  refine ⟨s₂, ?_, hf⟩
  unfold tableScanNext
  simp only [Bool.false_eq_true, if_false, hget, hcell, hfirst, bind, Except.bind]
  rw [if_neg (by rw [hleaf.length_cells]; omega), hrow]
  rfl

/-- The last leaf is used up. -/
theorem Holds.tableScanNext_end (h : Holds s table n σ t) (hl : l ∈ t.2.leaves)
    (hleaf : LeafPage σ.rowSize (s.page l.page) l.cells 0) (hq : StandsOn table t q k l)
    (hk : l.cells.length ≤ k) :
    ∃ cursor s', tableScanNext s table q k σ.rowSize false = .ok (none, cursor, s') ∧
      Fetched s s' := by
  obtain ⟨s₁, s₂, hget, hcell, hfirst, hf⟩ := h.standsOn hl hq
  rw [← hf.page] at hleaf
  refine ⟨.tableScan q k σ.rowSize true, s₂, ?_, hf⟩
  unfold tableScanNext
  simp only [Bool.false_eq_true, if_false, hget, hcell, hfirst, bind, Except.bind]
  rw [if_pos (by rw [hleaf.length_cells]; omega), if_pos hleaf.next]
  rfl

/-- A leaf is used up, and another one follows. -/
theorem Holds.tableScanNext_hop (h : Holds s table n σ t) (hl : l ∈ t.2.leaves)
    (hl' : l' ∈ t.2.leaves) (hleaf : LeafPage σ.rowSize (s.page l.page) l.cells l'.page)
    (hq : StandsOn table t q k l) (hk : l.cells.length ≤ k) :
    ∃ s', tableScanNext s table q k σ.rowSize false =
        .ok (some (firstSlot σ (s.page l'.page)), .tableScan l'.page 1 σ.rowSize false, s') ∧
      Fetched s s' := by
  obtain ⟨s₁, s₂, hget, hcell, hfirst, hf⟩ := h.standsOn hl hq
  have h₂ := h.fetched hf
  rw [← hf.page] at hleaf ⊢
  have hne : l'.page ≠ 0 := fun h0 =>
    h.represents.zero (h0 ▸ Tree.leaf_page_mem_labels hl')
  obtain ⟨s₃, hget', hf'⟩ := pagerGetPage_of_lt h₂.sound (h₂.leaf_lt (List.mem_map_of_mem hl'))
  refine ⟨s₃, ?_, hf.trans hf'⟩
  unfold tableScanNext
  simp only [Bool.false_eq_true, if_false, hget, hcell, hfirst, bind, Except.bind]
  rw [if_pos (by rw [hleaf.length_cells]; omega), hleaf.next, if_neg hne]
  simp only [hget']
  rw [(h₂.fetched hf').reads.deserializeRow, hf'.page]
  rfl

/-! ## A whole scan -/

theorem cursorNext_tableScan {fuel : ℕ} (hfuel : 1 ≤ fuel) (q k rowSize : ℕ) (done : Bool) :
    cursorNext table fuel (.tableScan q k rowSize done) s =
      tableScanNext s table q k rowSize done := by
  obtain ⟨fuel, rfl⟩ : ∃ f, fuel = f + 1 := ⟨fuel - 1, by omega⟩
  rfl

/-- The cells of one leaf, and what comes when they are used up. -/
theorem Holds.delivers_cells (h : Holds s table n σ t) (hl : l ∈ t.2.leaves)
    (hq : StandsOn table t q k l) {rest : List Row}
    (hend : ∀ q k s', Fetched s s' → StandsOn table t q k l → l.cells.length ≤ k →
      Delivers table 1 (.tableScan q k σ.rowSize false) s' rest) :
    Delivers table 1 (.tableScan q k σ.rowSize false) s
      ((l.cells.drop k).map (rowOf σ) ++ rest) := by
  -- by induction on the cells that are left
  obtain ⟨m, hm⟩ : ∃ m, m = l.cells.length - k := ⟨_, rfl⟩
  induction m generalizing q k s with
  | zero =>
    rw [List.drop_of_length_le (by omega)]
    exact hend q k s (Fetched.refl h.sound) hq (by omega)
  | succ m ih =>
    have hk : k < l.cells.length := by omega
    obtain ⟨s', hnext, hf⟩ := h.tableScanNext_cell hl hq hk
    have hrest := ih (h.fetched hf) (k := k + 1) (Or.inl rfl)
      (fun q k s'' hf' hq' hk' => hend q k s'' (hf.trans hf') hq' hk') (by omega)
    rw [List.drop_eq_getElem_cons hk]
    exact .next (fun fuel hfuel => (cursorNext_tableScan hfuel ..).trans hnext) hf hrest

/-- **A scan that stands on a leaf** delivers the rest of its cells, and then what it finds on the
leaves behind it. -/
theorem Holds.delivers_scan (h : Holds s table n σ t) (hmem : ∀ d ∈ l :: ls, d ∈ t.2.leaves)
    (hchain : Chain s.page σ.rowSize (l :: ls) 0) (hq : StandsOn table t q k l) :
    Delivers table 1 (.tableScan q k σ.rowSize false) s
      ((l.cells.drop k).map (rowOf σ) ++ ls.flatMap (hopRows σ s.page)) := by
  have hl := hmem l List.mem_cons_self
  induction ls generalizing l q k s with
  | nil =>
    refine h.delivers_cells hl hq ?_
    intro q k s' hf hq' hk
    obtain ⟨cursor, s'', hnext, hf'⟩ := (h.fetched hf).tableScanNext_end hl
      (by rw [hf.page]; exact hchain) hq' hk
    exact .done (fun fuel hfuel => (cursorNext_tableScan hfuel ..).trans hnext) hf'
  | cons l' ls ih =>
    have hl' := hmem l' (List.mem_cons_of_mem _ List.mem_cons_self)
    refine h.delivers_cells hl hq ?_
    intro q k s' hf hq' hk
    obtain ⟨s'', hnext, hf'⟩ := (h.fetched hf).tableScanNext_hop hl hl'
      (by rw [hf.page]; exact hchain.1) hq' hk
    have hf'' := hf.trans hf'
    have hrest := ih (h.fetched hf'') (k := 1) (fun d hd => hmem d (List.mem_cons_of_mem _ hd))
      (by rw [hf''.page]; exact hchain.2) (Or.inl rfl) hl'
    rw [hf''.page] at hrest
    rw [hf.page] at hnext
    exact .next (fun fuel hfuel => (cursorNext_tableScan hfuel ..).trans hnext) hf' hrest

/-- The rows of a whole scan. -/
def scanRows (σ : Schema) (m : ℕ → Page) : List (Leaf Int64 (List UInt8)) → List Row
  | [] => []
  | l :: ls => l.cells.map (rowOf σ) ++ ls.flatMap (hopRows σ m)

/-- A leaf gives no more rows than it has room for. -/
theorem length_hopRows (m : ℕ → Page) (h : l.cells.length ≤ leafNodeMaxCells σ.rowSize) :
    (hopRows σ m l).length ≤ 511 := by
  have hmax := leafNodeMaxCells_le σ.rowSize
  rw [hopRows, List.length_cons, List.length_map, List.length_drop]
  omega

theorem length_flatMap_le {α β : Type} {f : α → List β} {b : ℕ} {xs : List α}
    (h : ∀ x ∈ xs, (f x).length ≤ b) : (xs.flatMap f).length ≤ xs.length * b := by
  induction xs with
  | nil => exact Nat.zero_le _
  | cons x xs ih =>
    have hx := h x List.mem_cons_self
    have hxs := ih fun y hy => h y (List.mem_cons_of_mem _ hy)
    rw [List.flatMap_cons, List.length_append, List.length_cons, Nat.succ_mul]
    omega

/-- **What a scan from the root delivers.** -/
theorem Holds.delivers_root (h : Holds s table n σ t) :
    Delivers table 1 (.tableScan table.rootPageNum 0 σ.rowSize false) s
        (scanRows σ s.page t.2.leaves) ∧
      (scanRows σ s.page t.2.leaves).length + 2 < scanFuel := by
  obtain ⟨l, ls, hleaves, hentry, hchain, -, -, hlen⟩ := h.represents.leaf_cons h.sound
  have hmem : ∀ d ∈ l :: ls, d ∈ t.2.leaves := fun d hd => hleaves ▸ hd
  refine ⟨?_, ?_⟩
  · rw [hleaves]
    exact h.delivers_scan hmem hchain (Or.inr ⟨rfl, rfl, hentry⟩)
  · have hsize : ∀ d ∈ l :: ls, d.cells.length ≤ leafNodeMaxCells σ.rowSize := fun d hd =>
      h.represents.good.sized.of_mem_leaves (hmem d hd)
    have hmax := leafNodeMaxCells_le σ.rowSize
    have hfirst := hsize l List.mem_cons_self
    have hrest : (ls.flatMap (hopRows σ s.page)).length ≤ ls.length * 511 :=
      length_flatMap_le fun d hd => length_hopRows s.page (hsize d (List.mem_cons_of_mem _ hd))
    rw [hleaves, scanRows, List.length_append, List.length_map, scanFuel, pageSize]
    omega

/-! ## The rows in the table -/

/-- The rows in the cells of a leaf, as `deserialize_row` reads them. -/
def leafRows (s : Pager) (table : Table) (rowSize leaf : ℕ) : Exec (List Row) :=
  (List.range (numCells (s.page leaf))).mapM fun i =>
    deserializeRow s table (s.page leaf) (leafNodeValue i rowSize)

/-- The rows in the cells of all leaves, from left to right. -/
def tableRows (s : Pager) (table : Table) (rowSize : ℕ) : Exec (List Row) := do
  let leaves ← tableLeaves s table.rootPageNum
  return (← leaves.mapM (leafRows s table rowSize)).flatten

theorem mapM_eq_ok {α β : Type} {f : α → Exec β} {g : α → β} {xs : List α}
    (h : ∀ x ∈ xs, f x = .ok (g x)) : xs.mapM f = .ok (xs.map g) := by
  induction xs with
  | nil => rfl
  | cons x xs ih =>
    rw [List.mapM_cons, h x List.mem_cons_self, ih fun y hy => h y (List.mem_cons_of_mem _ hy)]
    rfl

theorem Reads.leafRows {e : ℕ} (h : Reads s table σ.types)
    (hleaf : LeafPage σ.rowSize (s.page l.page) l.cells e) :
    MiniDB.leafRows s table σ.rowSize l.page = .ok (l.cells.map (rowOf σ)) := by
  have hread : ∀ i ∈ List.range (numCells (s.page l.page)),
      MiniDB.deserializeRow s table (s.page l.page) (leafNodeValue i σ.rowSize) =
        .ok ⟨MiniDB.decodeValues σ.types
          ((s.page l.page).read (leafNodeValue i σ.rowSize) σ.rowSize)⟩ :=
    fun i _ => h.deserializeRow _ _
  rw [MiniDB.leafRows, mapM_eq_ok hread, ← hleaf.cells]
  refine congrArg Except.ok (List.ext_getElem ?_ ?_)
  · rw [List.length_map, List.length_range, List.length_map, length_leafCells]
  · intro i hi hi'
    rw [List.length_map] at hi'
    rw [List.getElem_map, List.getElem_map, List.getElem_range, getElem_leafCells hi']
    rfl

/-- **The rows in the table** are those of its contents. -/
theorem Holds.tableRows (h : Holds s table n σ t) :
    MiniDB.tableRows s table σ.rowSize = .ok (t.2.contents.map (rowOf σ)) := by
  have hleaves := h.represents.tableLeaves h.sound
  rw [h.root] at hleaves
  have hrows : ∀ l ∈ t.2.leaves, leafRows s table σ.rowSize l.page =
      .ok (l.cells.map (rowOf σ)) := by
    intro l hl
    obtain ⟨e, hleaf⟩ := h.represents.stored.leafPage_of_mem hl
    exact h.reads.leafRows hleaf
  have hall : (t.2.leaves.map Leaf.page).mapM (leafRows s table σ.rowSize) =
      .ok (t.2.leaves.map fun l => l.cells.map (rowOf σ)) := by
    rw [List.mapM_map]
    exact mapM_eq_ok hrows
  unfold MiniDB.tableRows
  rw [hleaves]
  show ((t.2.leaves.map Leaf.page).mapM (leafRows s table σ.rowSize) >>= _) = _
  rw [hall]
  show Except.ok _ = _
  rw [Tree.contents, List.map_flatMap, List.flatten_eq_flatMap, List.flatMap_map]
  rfl

/-! ## When a scan is exact -/

/-- Draining a scan of the table comes to an end and gives exactly the rows in the table. -/
def ScansExactly (s : Pager) (table : Table) (rowSize : ℕ) : Prop :=
  ∃ rows s', tableRows s table rowSize = .ok rows ∧
    drain table scanFuel (.tableScan table.rootPageNum 0 rowSize false) s = .ok (rows, s')

/-- Every leaf of the table but the first has a cell. -/
def LeavesFilled (s : Pager) (rootPageNum : ℕ) : Prop :=
  ∃ leaf leaves, tableLeaves s rootPageNum = .ok (leaf :: leaves) ∧
    ∀ q ∈ leaves, numCells (s.page q) ≠ 0

theorem Holds.leavesFilled_iff (h : Holds s table n σ t) :
    LeavesFilled s table.rootPageNum ↔ t.2.Filled := by
  obtain ⟨l, ls, hleaves, -⟩ := h.represents.leaf_cons h.sound
  have hpages := h.represents.tableLeaves h.sound
  rw [h.root, hleaves, List.map_cons] at hpages
  have hcells : ∀ d ∈ ls, numCells (s.page d.page) ≠ 0 ↔ d.cells ≠ [] := by
    intro d hd
    obtain ⟨e, hleaf⟩ := h.represents.stored.leafPage_of_mem
      (hleaves ▸ List.mem_cons_of_mem l hd : d ∈ t.2.leaves)
    rw [hleaf.length_cells, ne_eq, List.length_eq_zero_iff]
  rw [Tree.Filled, hleaves, List.tail_cons]
  constructor
  · rintro ⟨leaf, leaves, hrun, hall⟩ d hd
    rw [hpages] at hrun
    cases hrun
    exact (hcells d hd).mp (hall d.page (List.mem_map_of_mem hd))
  · intro hall
    refine ⟨_, _, hpages, ?_⟩
    intro q hq
    obtain ⟨d, hd, rfl⟩ := List.mem_map.mp hq
    exact (hcells d hd).mpr (hall d hd)

/-- A scan delivers one row too many for each empty leaf it hops to. -/
theorem length_hopRows_flatMap (m : ℕ → Page) (ls : List (Leaf Int64 (List UInt8))) :
    (ls.flatMap (hopRows σ m)).length =
      (ls.flatMap Leaf.cells).length + (ls.filter fun l => l.cells.isEmpty).length := by
  induction ls with
  | nil => rfl
  | cons l ls ih =>
    rw [List.flatMap_cons, List.length_append, List.flatMap_cons, List.length_append, ih, hopRows,
      List.length_cons, List.length_map, List.length_drop, List.filter_cons]
    cases hcells : l.cells with
    | nil =>
      rw [List.isEmpty_nil, if_pos rfl, List.length_cons, List.length_nil]
      omega
    | cons c cs =>
      rw [List.isEmpty_cons, if_neg (by decide), List.length_cons]
      omega

/-- **A scan delivers the rows in the table** just when no leaf but the first is empty. -/
theorem Holds.scanRows_iff (h : Holds s table n σ t) :
    scanRows σ s.page t.2.leaves = t.2.contents.map (rowOf σ) ↔ t.2.Filled := by
  obtain ⟨l, ls, hleaves, -⟩ := h.represents.leaf_cons h.sound
  rw [Tree.Filled, Tree.contents, hleaves, scanRows, List.flatMap_cons, List.map_append,
    List.append_cancel_left_eq, List.tail_cons]
  constructor
  · intro heq d hd hnil
    have hlen := congrArg List.length heq
    rw [length_hopRows_flatMap, List.length_map] at hlen
    have hmem : d ∈ ls.filter fun l => l.cells.isEmpty :=
      List.mem_filter.mpr ⟨hd, by rw [hnil]; rfl⟩
    have hpos := List.length_pos_of_mem hmem
    omega
  · intro hall
    rw [List.map_flatMap]
    refine List.flatMap_congr fun d hd => ?_
    obtain ⟨e, hleaf⟩ := h.represents.stored.leafPage_of_mem
      (hleaves ▸ List.mem_cons_of_mem l hd : d ∈ t.2.leaves)
    exact hleaf.hopRows (hall d hd)

/-- What draining a scan gives. -/
theorem Holds.drain_scan (h : Holds s table n σ t) :
    ∃ s', drain table scanFuel (.tableScan table.rootPageNum 0 σ.rowSize false) s =
      .ok (scanRows σ s.page t.2.leaves, s') ∧ Fetched s s' := by
  obtain ⟨hrows, hlen⟩ := h.delivers_root
  exact hrows.drain (by omega) (by omega)

/-- **A scan is exact** just when no leaf but the first is empty. -/
theorem Holds.scansExactly_iff (h : Holds s table n σ t) :
    ScansExactly s table σ.rowSize ↔ LeavesFilled s table.rootPageNum := by
  obtain ⟨s', hdrain, -⟩ := h.drain_scan
  rw [h.leavesFilled_iff, ← h.scanRows_iff]
  constructor
  · rintro ⟨rows, s'', hrows, hrun⟩
    rw [h.tableRows] at hrows
    cases hrows
    rw [hdrain] at hrun
    exact (Prod.mk.inj (Except.ok.inj hrun)).1
  · intro heq
    exact ⟨_, s', h.tableRows, by rw [hdrain, heq]⟩

end MiniDB
