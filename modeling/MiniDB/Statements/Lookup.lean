import MiniDB.Statements.Insert

/-!
# Reading a table back

What a table holds can be seen in two ways: by looking a key up, and by following the leaf links.

* `findRow`: what `leaf_node_for_key` and `leaf_node_find` find for a key.
* `tableLeaves`, `tableCells`: the leaves along the links, and their cells.
* `Represents.findRow`, `Represents.tableLeaves`, `Represents.tableCells`: both agree with the tree.
* `Represents.findRow_inserted`: what is found after a row was inserted.
-/

namespace MiniDB

open BPlusTree Pager

/-- What `leaf_node_for_key` and `leaf_node_find` find for a key: the bytes of its row. -/
def findRow (s : Pager) (rootPageNum rowSize : ℕ) (key : Int64) : Exec (Option (List UInt8)) := do
  match ← leafNodeForKey key walkFuel s rootPageNum with
  | (none, _) => throw .nullPointer
  | (some leaf, s) =>
    let cellNum := leafNodeFind (s.page leaf) key rowSize
    if cellNum < numCells (s.page leaf) ∧ leafNodeKey (s.page leaf) cellNum rowSize = key then
      return some ((s.page leaf).read (leafNodeValue cellNum rowSize) rowSize)
    else return none

/-- The leaves from one leaf on, along the links. -/
def leafChain (s : Pager) : ℕ → ℕ → Exec (List ℕ)
  | 0, _ => .error .endless
  | fuel + 1, leaf =>
    if nextLeaf (s.page leaf) = 0 then .ok [leaf]
    else do return leaf :: (← leafChain s fuel (nextLeaf (s.page leaf)))

/-- The leaves of a table, from left to right. -/
def tableLeaves (s : Pager) (rootPageNum : ℕ) : Exec (List ℕ) := do
  match ← firstLeaf walkFuel s rootPageNum with
  | (none, _) => throw .nullPointer
  | (some leaf, s) => leafChain s walkFuel leaf

/-- The cells of a table, from left to right. -/
def tableCells (s : Pager) (rootPageNum rowSize : ℕ) : Exec (List Cell) := do
  return (← tableLeaves s rootPageNum).flatMap fun leaf => leafCells rowSize (s.page leaf)

variable {s : Pager} {t : PageTreeAny} {rowSize : ℕ} {key : Int64}

/-- **Looking a key up on the pages is looking it up in the tree.** -/
theorem Represents.findRow (ht : Represents s rowSize t) (hs : s.Sound) (key : Int64) :
    MiniDB.findRow s t.2.page rowSize key = .ok (t.2.lookup key) := by
  obtain ⟨s', hdescent, hf⟩ := ht.descent hs key
  obtain ⟨e, hleaf⟩ : ∃ e, LeafPage rowSize (s.page (t.2.leafFor key).page)
      (t.2.leafFor key).cells e := ht.stored.leafFor
  have hsorted : Tree.Sorted (t.2.leafFor key).cells := ht.good.ordered.leafFor
  rw [← hleaf.cells] at hsorted
  have hlookup := lookup_leafCells hsorted key
  rw [hleaf.cells] at hlookup
  unfold MiniDB.findRow Tree.lookup
  rw [hdescent, hlookup]
  simp only [bind, Except.bind, hf.page]
  split <;> rfl

theorem leafChain_eq {ls : List (Leaf Int64 (List UInt8))} {l : Leaf Int64 (List UInt8)} {fuel : ℕ}
    (hchain : Chain s.page rowSize (l :: ls) 0) (hpages : ∀ d ∈ l :: ls, d.page ≠ 0)
    (hfuel : ls.length < fuel) : leafChain s fuel l.page = .ok ((l :: ls).map Leaf.page) := by
  induction ls generalizing l fuel with
  | nil =>
    obtain ⟨fuel, rfl⟩ : ∃ f, fuel = f + 1 := ⟨fuel - 1, by omega⟩
    rw [leafChain, if_pos (LeafPage.next hchain)]
    rfl
  | cons l' ls ih =>
    obtain ⟨fuel, rfl⟩ : ∃ f, fuel = f + 1 := ⟨fuel - 1, by omega⟩
    have hne : nextLeaf (s.page l.page) ≠ 0 := by
      rw [hchain.1.next]
      exact hpages l' (List.mem_cons_of_mem _ List.mem_cons_self)
    have hrest := ih hchain.2 (fun d hd => hpages d (List.mem_cons_of_mem _ hd))
      (Nat.lt_of_succ_lt_succ hfuel)
    rw [leafChain, if_neg hne, hchain.1.next, hrest]
    rfl

/-- **The links run through the leaves of the tree.** -/
theorem Represents.tableLeaves (ht : Represents s rowSize t) (hs : s.Sound) :
    MiniDB.tableLeaves s t.2.page = .ok (t.2.leaves.map Leaf.page) := by
  obtain ⟨s', hfirst, hf⟩ := ht.firstLeaf hs
  obtain ⟨l, ls, hleaves, hentry, hchain, -, hpages, hlen⟩ := ht.leaf_cons hs
  unfold MiniDB.tableLeaves
  rw [hfirst, hleaves, ← hentry]
  exact leafChain_eq (hchain.congr fun d _ => by rw [hf.page]) (fun d hd => (hpages d hd).2) hlen

theorem Chain.flatMap_leafCells {m : ℕ → Page} {ls : List (Leaf Int64 (List UInt8))} {next : ℕ}
    (h : Chain m rowSize ls next) :
    (ls.map Leaf.page).flatMap (fun leaf => leafCells rowSize (m leaf)) =
      ls.flatMap Leaf.cells := by
  induction ls with
  | nil => rfl
  | cons l ls ih =>
    cases ls with
    | nil =>
      simp only [List.map_cons, List.map_nil, List.flatMap_cons, List.flatMap_nil]
      rw [LeafPage.cells h]
    | cons l' ls =>
      rw [List.map_cons, List.flatMap_cons, List.flatMap_cons, ih h.2, h.1.cells]

/-- **The cells along the links are the contents of the tree.** -/
theorem Represents.tableCells (ht : Represents s rowSize t) (hs : s.Sound) :
    MiniDB.tableCells s t.2.page rowSize = .ok t.2.contents := by
  unfold MiniDB.tableCells
  rw [ht.tableLeaves hs]
  exact congrArg Except.ok ht.stored.chain.flatMap_leafCells

variable (key) in
/-- A key is in the leaf for it, or nowhere. -/
theorem exists_leafFor_iff (ht : t.2.Ordered ⊥ ⊤) :
    (∃ a ∈ (t.2.leafFor key).cells, a.1 = key) ↔ ∃ a ∈ t.2.contents, a.1 = key := by
  have hiff : ∀ cells : List Cell, (∃ a ∈ cells, a.1 = key) ↔ cells.lookup key ≠ none := by
    intro cells
    rw [ne_eq, List.lookup_eq_none_iff]
    push Not
    constructor
    · rintro ⟨a, ha, rfl⟩
      exact ⟨a, ha, by simp⟩
    · rintro ⟨a, ha, heq⟩
      exact ⟨a, ha, (bne_eq_false_iff_eq.mp (eq_false_of_ne_true heq)).symm⟩
  rw [hiff, hiff, ← Tree.lookup_eq_contents ht]
  rfl

/-- **What is found after a row was inserted.** -/
theorem Represents.findRow_inserted {s' : Pager} {types : List ColumnType} {row : Row}
    (ht : Represents s (rowWidth types) t) (hnew : ∀ a ∈ t.2.contents, a.1 ≠ key)
    (ht' : Represents s' (rowWidth types) (treeInserted s types key row t).1) (hs' : s'.Sound)
    (k : Int64) :
    MiniDB.findRow s' t.2.page (rowWidth types) k =
      .ok (if k = key then some (rowBytes row.values) else t.2.lookup k) := by
  have hroot : (treeInserted s types key row t).1.2.page = t.2.page := page_insertRoot _ _
  rw [← hroot, ht'.findRow hs', Tree.lookup_eq_contents ht'.good.ordered,
    contents_insertRoot _ ht.good.ordered, lookup_insertCell hnew,
    Tree.lookup_eq_contents ht.good.ordered]

end MiniDB
