import MiniDB.Model.Debugging
import MiniDB.Sessions.OneTable

/-!
# What `.btree` goes through

The walk starts on the catalog page, whose first byte, the number of tables, passes for the type of
a node.  With one table the catalog is an internal page, whose first child is read out of the name
of the table; with more it is a leaf, whose cells and link are.

* `ListsTree`: the walk ends, stays on the pages of a tree, and prints the keys of its leaves.
* `debugDescend_endless`: a short name leads back to the catalog, for ever.
* `btreeCommand_never`: **the walk of `.btree` lists the tree of the first table in no database**.
-/

namespace MiniDB

open BPlusTree Pager

variable {s s' : Pager} {t : PageTreeAny} {rounds page leaf rowSize : ℕ} {above : List ℕ}
  {leaves : List LeafListing} {walk : BtreeWalk} {r : CommandResult} {ts : List TableInfo}
  {x : TableInfo}

/-- `.btree` comes to its end; the pages that it visits are pages of the tree; and the keys that it
prints are those of the leaves, from left to right. -/
def ListsTree (rounds : ℕ) (s : Pager) (t : PageTreeAny) : Prop :=
  ∃ walk s', btreeCommand rounds s = .ok (.debugBtreeSuccess, some walk, s') ∧
    (∀ q ∈ walk.pages, q ∈ t.2.labels) ∧ walk.keys = t.2.contents.map Prod.fst

/-! ## The start of the walk -/

theorem debugDescend_leaf (htype : nodeType (s.page page) ≠ nodeInternal) (rounds : ℕ) :
    debugDescend (rounds + 1) s page = .ok ([], page, s) := by
  rw [debugDescend, if_neg htype]
  rfl

theorem debugDescend_internal (htype : nodeType (s.page page) = nodeInternal) (rounds : ℕ) :
    debugDescend (rounds + 1) s page =
      match pagerGetPage s (internalNodeValue (s.page page) 0) with
      | none => .error .nullPointer
      | some s₁ => (debugDescend rounds s₁ (internalNodeValue (s.page page) 0)).map fun r =>
          (page :: r.1, r.2) := by
  rw [debugDescend, if_pos htype]
  dsimp only
  cases pagerGetPage s (internalNodeValue (s.page page) 0) with
  | none => rfl
  | some s₁ =>
    dsimp only
    cases debugDescend rounds s₁ (internalNodeValue (s.page page) 0) <;> rfl

/-- The leaf that was found is listed first. -/
theorem debugLeaves_starts (h : debugLeaves rowSize rounds s leaf = .ok (leaves, s')) :
    ∃ keys rest, leaves = ⟨leaf, numCells (s.page leaf), keys⟩ :: rest := by
  cases rounds with
  | zero => cases h
  | succ rounds =>
    rw [debugLeaves] at h
    obtain ⟨keys, -, h⟩ := bind_eq_ok h
    dsimp only at h
    split at h
    · cases h
      exact ⟨keys, [], rfl⟩
    · split at h
      · cases h
        exact ⟨keys, [], rfl⟩
      · obtain ⟨⟨rest, s₁⟩, -, h⟩ := bind_eq_ok h
        cases h
        exact ⟨keys, rest, rfl⟩

/-- A page that is not taken for an internal one is listed. -/
theorem debugLeafNode_lists (h : debugLeafNode rounds s page rowSize = .ok (walk, s'))
    (htype : nodeType (s.page page) ≠ nodeInternal) :
    ∃ keys rest, walk.leaves = ⟨page, numCells (s.page page), keys⟩ :: rest := by
  unfold debugLeafNode at h
  obtain ⟨⟨above, leaf, s₁⟩, hdescend, h⟩ := bind_eq_ok h
  obtain ⟨⟨leaves, s₂⟩, hleaves, h⟩ := bind_eq_ok h
  cases h
  cases rounds with
  | zero => cases hdescend
  | succ rounds =>
    rw [debugDescend_leaf htype] at hdescend
    cases hdescend
    exact debugLeaves_starts hleaves

/-- **The page that is passed is visited.** -/
theorem debugLeafNode_visits (h : debugLeafNode rounds s page rowSize = .ok (walk, s')) :
    page ∈ walk.pages := by
  by_cases htype : nodeType (s.page page) = nodeInternal
  · unfold debugLeafNode at h
    obtain ⟨⟨above, leaf, s₁⟩, hdescend, h⟩ := bind_eq_ok h
    obtain ⟨⟨leaves, s₂⟩, -, h⟩ := bind_eq_ok h
    cases h
    refine List.mem_append_left _ ?_
    cases rounds with
    | zero => cases hdescend
    | succ rounds =>
      rw [debugDescend_internal htype] at hdescend
      split at hdescend
      · cases hdescend
      · next s₃ _ =>
        cases hrest : debugDescend rounds s₃ (internalNodeValue (s.page page) 0) with
        | error f =>
          rw [hrest] at hdescend
          cases hdescend
        | ok r =>
          obtain ⟨above', leaf', s₄⟩ := r
          rw [hrest] at hdescend
          cases hdescend
          exact List.mem_cons_self
  · obtain ⟨keys, rest, hleaves⟩ := debugLeafNode_lists h htype
    refine List.mem_append_right _ ?_
    rw [hleaves]
    exact List.mem_cons_self

/-- What `.btree` does when the catalog page is there. -/
theorem btreeCommand_eq {s₁ : Pager} (hget : pagerGetPage s 0 = some s₁)
    (hpos : 0 < catalogNodeNumTables (s₁.page 0)) (rounds : ℕ) :
    btreeCommand rounds s = (debugLeafNode rounds s₁ 0 (catalogNodeRowSize (s₁.page 0) 0)).map
      fun r => (.debugBtreeSuccess, some r.1, r.2) := by
  unfold btreeCommand
  rw [hget]
  dsimp only
  rw [if_pos hpos]
  cases debugLeafNode rounds s₁ 0 (catalogNodeRowSize (s₁.page 0) 0) <;> rfl

/-- **A run of the command is a walk from the catalog page**, whatever the state is. -/
theorem btreeCommand_walks (hrun : btreeCommand rounds s = .ok (r, some walk, s')) :
    ∃ s₁ rowSize, pagerGetPage s 0 = some s₁ ∧
      debugLeafNode rounds s₁ 0 rowSize = .ok (walk, s') := by
  unfold btreeCommand at hrun
  split at hrun
  · cases hrun
  · next s₁ hget =>
    obtain ⟨⟨walk', s₂⟩, hwalk, hrun⟩ := bind_eq_ok hrun
    cases hrun
    exact ⟨s₁, _, hget, hwalk⟩

/-- A tree that the catalog page is no part of is not listed. -/
theorem not_listsTree (hzero : 0 ∉ t.2.labels) (rounds : ℕ) : ¬ ListsTree rounds s t := by
  rintro ⟨walk, s', hrun, hpages, -⟩
  obtain ⟨s₁, rowSize, -, hwalk⟩ := btreeCommand_walks hrun
  exact hzero (hpages 0 (debugLeafNode_visits hwalk))

/-! ## A walk that does not end -/

/-- **A catalog page that names itself as its first child** is never left. -/
theorem debugDescend_endless (hs : s.Sound) (hpos : 0 < s.numPages)
    (htype : nodeType (s.page 0) = nodeInternal) (hchild : internalNodeValue (s.page 0) 0 = 0)
    (rounds : ℕ) : debugDescend rounds s 0 = .error .endless := by
  induction rounds generalizing s with
  | zero => rfl
  | succ rounds ih =>
    obtain ⟨s₁, hget, hf⟩ := pagerGetPage_of_lt hs hpos
    rw [← hf.numPages] at hpos
    rw [debugDescend_internal htype, hchild, hget]
    rw [← hf.page] at htype hchild
    dsimp only
    rw [ih hf.sound hpos htype hchild]
    rfl

/-! ## Every database -/

/-- The type of the catalog page is the number of tables. -/
theorem toNat_nodeType {p : Page} (h : catalogNodeNumTables p < 256) :
    (nodeType p).toNat = catalogNodeNumTables p := by
  have hread : p.read tableCountOffset 4 = nodeType p :: p.read 1 3 := by
    rw [show (4 : ℕ) = 1 + 3 from rfl, Mem.read_append]
    rfl
  have hcount : catalogNodeNumTables p = (nodeType p).toNat + 256 * ofLE (p.read 1 3) := by
    rw [catalogNodeNumTables, Mem.readNat, hread, ofLE]
  omega

/-- The first byte of the catalog of a database. -/
theorem Database.nodeType (h : Database s ts) : (MiniDB.nodeType (s.page 0)).toNat = ts.length := by
  have hbounded := h.bounded
  rw [maxCatalogTables] at hbounded
  rw [toNat_nodeType (by rw [h.count]; omega), h.count]

/-- The catalog of a database is passed to `debug_leaf_node`. -/
theorem Database.btreeCommand (h : Database s ts) (hne : 0 < ts.length) :
    ∃ s₁, Fetched s s₁ ∧ ∀ rounds, MiniDB.btreeCommand rounds s =
      (debugLeafNode rounds s₁ 0 (catalogNodeRowSize (s.page 0) 0)).map fun r =>
        (.debugBtreeSuccess, some r.1, r.2) := by
  obtain ⟨s₁, hget, hf⟩ := pagerGetPage_of_lt h.sound h.pos
  refine ⟨s₁, hf, fun rounds => ?_⟩
  rw [btreeCommand_eq hget (by rwa [hf.page, h.count]), hf.page]

/-- **One table with a short name**: the command never comes to an end. -/
theorem Database.btreeCommand_endless (h : Database s [x])
    (hchild : internalNodeValue (s.page 0) 0 = 0) (rounds : ℕ) :
    MiniDB.btreeCommand rounds s = .error .endless := by
  obtain ⟨s₁, hf, hcommand⟩ := h.btreeCommand Nat.one_pos
  have htype : MiniDB.nodeType (s₁.page 0) = nodeInternal := by
    rw [hf.page]
    exact UInt8.toNat_inj.mp h.nodeType
  rw [← hf.page] at hchild
  have hpos : 0 < s₁.numPages := by
    rw [hf.numPages]
    exact h.pos
  rw [hcommand, debugLeafNode, debugDescend_endless hf.sound hpos htype hchild]
  rfl

/-- **The walk of `.btree` lists the tree of the first table in no database**: in any state it
visits the catalog page, which belongs to no tree.  With one table whose name says that the first
child is page 0 it does not end; with several tables it lists the catalog page as a leaf. -/
theorem btreeCommand_never (rounds : ℕ) :
    (∀ s (t : PageTreeAny), 0 ∉ t.2.labels → ¬ ListsTree rounds s t) ∧
    ∀ s, Reachable Finishes s → 0 < catalogNodeNumTables (s.page 0) →
      (∃ ts x, Database s ts ∧ ts[0]? = some x) ∧
      (∀ ts x, Database s ts → ts[0]? = some x → ¬ ListsTree rounds s x.tree) ∧
      (catalogNodeNumTables (s.page 0) = 1 → internalNodeValue (s.page 0) 0 = 0 →
        btreeCommand rounds s = .error .endless) ∧
      (catalogNodeNumTables (s.page 0) ≠ 1 → ∀ r walk s',
        btreeCommand rounds s = .ok (r, some walk, s') →
          ∃ keys rest, walk.leaves = ⟨0, numCells (s.page 0), keys⟩ :: rest) := by
  refine ⟨fun s t hzero => not_listsTree hzero rounds, fun s h hpos => ?_⟩
  obtain ⟨ts, hdb⟩ := h.database
  rw [hdb.count] at hpos ⊢
  refine ⟨⟨ts, ts[0], hdb, List.getElem?_eq_getElem hpos⟩, ?_, ?_, ?_⟩
  · intro ts' x hdb' hx
    exact not_listsTree (hdb'.represents 0 x hx).zero rounds
  · intro hone hchild
    obtain ⟨x, rfl⟩ := List.length_eq_one_iff.mp hone
    exact hdb.btreeCommand_endless hchild rounds
  · intro hother r walk s' hrun
    obtain ⟨s₁, rowSize, hget, hwalk⟩ := btreeCommand_walks hrun
    obtain ⟨s₂, hget', hf⟩ := pagerGetPage_of_lt hdb.sound hdb.pos
    cases hget.symm.trans hget'
    have htype : nodeType (s₁.page 0) ≠ nodeInternal := by
      intro heq
      have hbyte := hdb.nodeType
      rw [← hf.page, heq] at hbyte
      exact hother hbyte.symm
    obtain ⟨keys, rest, hleaves⟩ := debugLeafNode_lists hwalk htype
    rw [hf.page] at hleaves
    exact ⟨keys, rest, hleaves⟩

/-- The table of the notes. -/
theorem btreeCommand_never_notes : ∃ s x, Reachable Finishes s ∧
    Database s [x] ∧ ∀ rounds, ¬ ListsTree rounds s x.tree := by
  obtain ⟨s, hreach, h, -⟩ := exists_notes
  have hpos : 0 < catalogNodeNumTables (s.page 0) := by
    rw [h.database.count]
    exact Nat.one_pos
  exact ⟨s, _, hreach, h.database, fun rounds =>
    ((btreeCommand_never rounds).2 s hreach hpos).2.1 _ _ h.database rfl⟩

/-- The name of the notes is short: `.btree` follows the catalog page to itself for ever. -/
theorem not_listsTree_notes : ∃ s x, Reachable Finishes s ∧ Database s [x] ∧
    (∀ rounds, btreeCommand rounds s = .error .endless) ∧
      ∀ rounds, ¬ ListsTree rounds s x.tree := by
  obtain ⟨s₀, s, hopen, hrun, h, -, -, hname⟩ := execute_create storable_notesName validNotes
    (by decide)
  have hreach : Reachable Finishes s := ⟨s₀, hopen,
    (Runs.Reached.refl s₀).tail (l := .createTable notesName notes) trivial ⟨validNotes, _, hrun⟩⟩
  have hread : (s.page 0).read 22 4 = ((catalogNodeName (s.page 0) 0).drop 18).take 4 := by
    show _ = (((s.page 0).read 4 32).drop 18).take 4
    rw [Mem.drop_read (by decide), Mem.take_read (by decide)]
  have hchild : internalNodeValue (s.page 0) 0 = 0 := by
    show ofLE ((s.page 0).read 22 4) = 0
    rw [hread, hname]
    decide
  have hendless := h.database.btreeCommand_endless hchild
  refine ⟨s, _, hreach, h.database, hendless, ?_⟩
  rintro rounds ⟨walk, s', hok, -⟩
  rw [hendless] at hok
  cases hok

end MiniDB
