import MiniDB.Statements.Insert

/-!
# Conditions, and the walk of a statement along the leaves of its table

`UPDATE` and `DELETE` test their condition on the row of every cell, from the first leaf to the
last.

* `testRow`, `selected`, `Faulty`: the condition on the bytes of a row.
* `CellsDone`: what a loop over the cells of a leaf may come to, and its rounds.
* `Holds.firstLeaf`, `Holds.walk`, `Holds.walk_reads`: the walk from the root of a table.
-/

namespace MiniDB

open BPlusTree Pager

/-! ## Conditions -/

/-- The test of a condition on the bytes of a row. -/
def testRow (σ : Schema) (catalog : Page) (n : ℕ) (where_ : Option Expr) (bs : List UInt8) :
    Exec Bool :=
  rowMatchesWhere where_ ⟨decodeValues σ.types bs⟩ catalog n

/-- The condition holds of the row. -/
def selected (σ : Schema) (catalog : Page) (n : ℕ) (where_ : Option Expr) (c : Cell) : Bool :=
  match testRow σ catalog n where_ c.2 with
  | .ok b => b
  | .error _ => false

/-- Testing the condition on the row does something undefined. -/
def Faulty (σ : Schema) (catalog : Page) (n : ℕ) (where_ : Option Expr) (f : Fault) (c : Cell) :
    Prop :=
  testRow σ catalog n where_ c.2 = .error f

variable {s : Pager} {table : Table} {n : ℕ} {σ : Schema} {t : PageTreeAny} {catalog : Page}
  {where_ : Option Expr}

/-- What a test can stumble over: a node of the wrong type, or a string without an end. -/
def TestFault (f : Fault) : Prop := f = .unionMember ∨ f = .unterminated

theorem strlen_fault {field : List UInt8} {f : Fault} (h : strlen field = .error f) :
    f = .unterminated := by
  unfold strlen at h
  split at h
  · cases h
  · cases h
    rfl

theorem nameEquals_fault {name field : List UInt8} {f : Fault}
    (h : nameEquals name field = .error f) : f = .unterminated := by
  unfold nameEquals at h
  rcases bind_eq_error h with h | ⟨n, -, h⟩
  · exact strlen_fault h
  · cases h

theorem columnNameIs_fault {column : Expr} {field : List UInt8} {f : Fault}
    (h : columnNameIs column field = .error f) : TestFault f := by
  unfold columnNameIs at h
  rcases bind_eq_error h with h | ⟨name, -, h⟩
  · cases column <;> cases h <;> exact Or.inl rfl
  · exact Or.inr (nameEquals_fault h)

theorem valueMatches_fault {value : Expr} {v : Value} {f : Fault}
    (h : valueMatches value v = .error f) : TestFault f := by
  cases v with
  | integer n =>
    rcases bind_eq_error h with h | ⟨a, -, h⟩
    · cases value <;> cases h <;> exact Or.inl rfl
    · cases h
  | text field n =>
    rcases bind_eq_error h with h | ⟨a, -, h⟩
    · cases value <;> cases h <;> exact Or.inl rfl
    · rcases bind_eq_error h with h | ⟨b, -, h⟩
      · exact Or.inr (strlen_fault h)
      · cases h
  | boolean b =>
    rcases bind_eq_error h with h | ⟨a, -, h⟩
    · cases value <;> cases h <;> exact Or.inl rfl
    · cases h

/-- **A test that goes wrong stumbles over its condition or over a string.** -/
theorem Faulty.testFault {f : Fault} {c : Cell} (h : Faulty σ catalog n where_ f c) :
    TestFault f := by
  unfold Faulty testRow rowMatchesWhere at h
  cases where_ with
  | none => cases h
  | some condition =>
    rcases bind_eq_error h with h | ⟨⟨column, value⟩, -, h⟩
    · cases condition <;> cases h <;> exact Or.inl rfl
    · have hloop : ∀ (vs : List Value) (i : ℕ),
          rowMatchesFrom column value catalog n i vs = .error f → TestFault f := by
        intro vs
        induction vs with
        | nil =>
          intro i h
          cases h
        | cons v vs ih =>
          intro i h
          rcases bind_eq_error h with h | ⟨b, -, h⟩
          · exact columnNameIs_fault h
          · cases b with
            | true => exact valueMatches_fault h
            | false => exact ih _ h
      exact hloop _ _ h

/-- A row can be tested, or not. -/
theorem testRow_cases (σ : Schema) (catalog : Page) (n : ℕ) (where_ : Option Expr) (c : Cell) :
    (∃ f, Faulty σ catalog n where_ f c) ∨ ((∀ f, ¬ Faulty σ catalog n where_ f c) ∧
      testRow σ catalog n where_ c.2 = .ok (selected σ catalog n where_ c)) := by
  simp only [Faulty, selected]
  cases htest : testRow σ catalog n where_ c.2 with
  | error f => exact Or.inl ⟨f, rfl⟩
  | ok b =>
    refine Or.inr ⟨?_, rfl⟩
    intro f hf
    cases hf

/-- Reading a row of a leaf. -/
theorem Reads.deserializeCell {leaf i : ℕ} {cells : List Cell} {types : List ColumnType}
    (h : Reads s table types)
    (hcells : leafCells (rowWidth types) (s.page leaf) = cells) (hi : i < cells.length) :
    MiniDB.deserializeRow s table (s.page leaf) (leafNodeValue i (rowWidth types)) =
      .ok ⟨decodeValues types cells[i].2⟩ := by
  subst hcells
  rw [h.deserializeRow, getElem_leafCells]

/-! ## The cells of a leaf -/

/-- What a loop over the cells `rest` of a leaf, which stand behind the cells `kept`, may come to:
it stumbles over a row, or the leaf ends up with `kept ++ out`.  What it returns then is `finish` of
the flag whether the page was written and of the state. -/
def CellsDone {γ : Type} (σ : Schema) (catalog : Page) (n : ℕ) (where_ : Option Expr) (leaf : ℕ)
    (finish : Bool → Pager → γ) (kept rest out : List Cell) (dirty : Bool) (s : Pager)
    (run : Exec γ) : Prop :=
  (∃ f, (∃ c ∈ rest, Faulty σ catalog n where_ f c) ∧ run = .error f) ∨
    ((∀ f, ∀ c ∈ rest, ¬ Faulty σ catalog n where_ f c) ∧ ∃ dirty' s',
      run = .ok (finish dirty' s') ∧ s'.numPages = s.numPages ∧ Evolves s s' {leaf} {leaf} ∧
      (dirty' = true ∨ s' = s) ∧ (dirty = true → dirty' = true) ∧
      leafCells σ.rowSize (s'.page leaf) = kept ++ out ∧ SameFrame (s.page leaf) (s'.page leaf))

namespace CellsDone

variable {γ : Type} {leaf : ℕ} {finish : Bool → Pager → γ} {kept kept' rest out out' : List Cell}
  {c : Cell} {dirty : Bool} {s₁ : Pager} {run : Exec γ}

/-- No cell is left. -/
theorem nil (hs : s.Sound) (hcells : leafCells σ.rowSize (s.page leaf) = kept ++ []) :
    CellsDone σ catalog n where_ leaf finish kept [] [] dirty s (.ok (finish dirty s)) :=
  Or.inr ⟨fun _ _ hc => absurd hc List.not_mem_nil, dirty, s, rfl, rfl, Evolves.refl hs,
    Or.inr rfl, fun h => h, hcells, SameFrame.refl _⟩

/-- The loop stumbles over the first row. -/
theorem fault {f : Fault} (hf : Faulty σ catalog n where_ f c) :
    CellsDone σ catalog n where_ leaf finish kept (c :: rest) out dirty s (.error f) :=
  Or.inl ⟨f, ⟨c, List.mem_cons_self, hf⟩, rfl⟩

/-- The first cell is passed over. -/
theorem pass (hgood : ∀ f, ¬ Faulty σ catalog n where_ f c)
    (h : CellsDone σ catalog n where_ leaf finish kept' rest out' dirty s run)
    (hout : kept' ++ out' = kept ++ out) :
    CellsDone σ catalog n where_ leaf finish kept (c :: rest) out dirty s run := by
  rcases h with ⟨f, ⟨d, hd, hbad⟩, herr⟩ | ⟨hgood', hrest⟩
  · exact Or.inl ⟨f, ⟨d, List.mem_cons_of_mem _ hd, hbad⟩, herr⟩
  · rw [hout] at hrest
    exact Or.inr ⟨fun f => List.forall_mem_cons.mpr ⟨hgood f, hgood' f⟩, hrest⟩

/-- The page was written at the first cell. -/
theorem write (hgood : ∀ f, ¬ Faulty σ catalog n where_ f c) (hnum : s₁.numPages = s.numPages)
    (hev : Evolves s s₁ {leaf} {leaf}) (hframe : SameFrame (s.page leaf) (s₁.page leaf))
    (h : CellsDone σ catalog n where_ leaf finish kept' rest out' true s₁ run)
    (hout : kept' ++ out' = kept ++ out) :
    CellsDone σ catalog n where_ leaf finish kept (c :: rest) out dirty s run := by
  rcases h with ⟨f, ⟨d, hd, hbad⟩, herr⟩ |
    ⟨hgood', dirty', s', hrun, hnum', hev', -, hdirty, hres, hframe'⟩
  · exact Or.inl ⟨f, ⟨d, List.mem_cons_of_mem _ hd, hbad⟩, herr⟩
  · rw [hout] at hres
    exact Or.inr ⟨fun f => List.forall_mem_cons.mpr ⟨hgood f, hgood' f⟩, dirty', s', hrun,
      hnum'.trans hnum, hev.trans hev', Or.inl (hdirty rfl), fun _ => hdirty rfl, hres,
      hframe.trans hframe'⟩

end CellsDone

/-! ## The walk -/

/-- A cell of the table is a cell of one of its leaves. -/
theorem mem_contents {c : Cell} : c ∈ t.2.contents ↔ ∃ d ∈ t.2.leaves, c ∈ d.cells := by
  rw [Tree.contents, List.mem_flatMap]

/-- The descent to the first leaf. -/
theorem Holds.firstLeaf (h : Holds s table n σ t) :
    ∃ s₁ s₂, pagerGetPage s table.rootPageNum = some s₁ ∧
      MiniDB.firstLeaf walkFuel s₁ table.rootPageNum = .ok (some t.2.entry, s₂) ∧ Fetched s s₂ := by
  obtain ⟨s₁, hget, hf₁⟩ := pagerGetPage_of_lt h.sound h.root_lt
  have h₁ := h.fetched hf₁
  obtain ⟨s₂, hfirst, hf₂⟩ := h₁.represents.firstLeaf h₁.sound
  rw [h.root] at hfirst
  exact ⟨s₁, s₂, hget, hfirst, hf₁.trans hf₂⟩

variable {op : Pager → ℕ → Exec (Bool × Bool × Pager)} {φ : List Cell → List Cell}
  {Bad : Fault → Cell → Prop}

/-- **A walk that rewrites leaves rewrites the table.** -/
theorem Holds.walk (h : Holds s table n σ t) (hop : LeafOp op (s.page 0) σ.rowSize φ Bad)
    (hkeys : ∀ cells, ((φ cells).map Prod.fst).Sublist (cells.map Prod.fst)) :
    (∃ f, (∃ c ∈ t.2.contents, Bad f c) ∧ walkLeaves op walkFuel s t.2.entry = .error f) ∨
      ((∀ f, ∀ c ∈ t.2.contents, ¬ Bad f c) ∧ ∃ s',
        walkLeaves op walkFuel s t.2.entry = .ok (.commandSuccess, s') ∧
        s'.numPages = s.numPages ∧ Evolves s s' {q | q ∈ t.2.labels} ∅ ∧
        EditedLeaves σ.rowSize φ s s' t ∧
        Represents s' σ.rowSize ⟨t.1, t.2.mapCells φ⟩) := by
  obtain ⟨l, ls, hleaves, hentry, hchain, hnd, hpages, hlen⟩ := h.represents.leaf_cons h.sound
  rw [← hentry]
  rcases walkLeaves_eq hop h.sound rfl hchain hnd hpages hlen with
    ⟨f, ⟨d, hd, c, hc, hbad⟩, herr⟩ | ⟨hgood, s', hrun, hnum, hev, hedit⟩
  · exact Or.inl ⟨f, ⟨c, mem_contents.mpr ⟨d, hleaves ▸ hd, hc⟩, hbad⟩, herr⟩
  · have hedited : EditedLeaves σ.rowSize φ s s' t := by
      refine ⟨fun d hd => hedit d (hleaves ▸ hd), ?_⟩
      intro q hq
      exact hev.page q (by rw [← hleaves]; exact hq)
    refine Or.inr ⟨?_, s', hrun, hnum, ?_, hedited, h.represents.edited hedited hnum hkeys⟩
    · intro f c hc
      obtain ⟨d, hd, hcd⟩ := mem_contents.mp hc
      exact hgood f d (hleaves ▸ hd) c hcd
    · refine hev.mono ?_ fun q hq => hq
      intro q hq
      obtain ⟨d, hd, rfl⟩ := List.mem_map.mp hq
      exact Tree.leaf_page_mem_labels (hleaves ▸ hd)

/-- A walk that only reads. -/
theorem Holds.walk_reads {Stops : Cell → Prop} (h : Holds s table n σ t)
    (hop : LeafRead op (s.page 0) σ.rowSize Bad Stops) :
    (∃ f, (∃ c ∈ t.2.contents, Bad f c) ∧ walkLeaves op walkFuel s t.2.entry = .error f) ∨
      ∃ s', Fetched s s' ∧
        ((∃ c ∈ t.2.contents, Stops c) ∧
            walkLeaves op walkFuel s t.2.entry = .ok (.failure, s') ∨
          (∀ c ∈ t.2.contents, ¬ Stops c) ∧
            walkLeaves op walkFuel s t.2.entry = .ok (.commandSuccess, s')) := by
  obtain ⟨l, ls, hleaves, hentry, hchain, -, hpages, hlen⟩ := h.represents.leaf_cons h.sound
  rw [← hentry]
  rcases walkLeaves_reads hop h.sound rfl hchain hpages hlen with
    ⟨f, ⟨d, hd, c, hc, hbad⟩, herr⟩ | ⟨s', hf, ⟨⟨d, hd, c, hc, hstop⟩, hrun⟩ | ⟨hgo, hrun⟩⟩
  · exact Or.inl ⟨f, ⟨c, mem_contents.mpr ⟨d, hleaves ▸ hd, hc⟩, hbad⟩, herr⟩
  · exact Or.inr ⟨s', hf, Or.inl ⟨⟨c, mem_contents.mpr ⟨d, hleaves ▸ hd, hc⟩, hstop⟩, hrun⟩⟩
  · refine Or.inr ⟨s', hf, Or.inr ⟨fun c hc => ?_, hrun⟩⟩
    obtain ⟨d, hd, hcd⟩ := mem_contents.mp hc
    exact hgo d (hleaves ▸ hd) c hcd

end MiniDB
