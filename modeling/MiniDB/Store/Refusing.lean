import MiniDB.Statements.Update

/-!
# An `UPDATE` with a text that is too long

Such an `UPDATE` fails at the first row that it selects, and is a success when there is none; the
rows behind that row are not tested.  So it is a search.

* `anyCell`: the search, along a list of cells.
* `walkLeaves_search`: a walk along the leaves whose body searches.
* `Holds.updateCommand_search`: **the `UPDATE` is a search through the whole table**.
-/

namespace MiniDB

open BPlusTree Pager

/-- Whether some cell passes the test; the cells behind it are not tested. -/
def anyCell (test : Cell → Exec Bool) : List Cell → Exec Bool
  | [] => .ok false
  | c :: cells => do
    if ← test c then return true
    anyCell test cells

variable {s s' : Pager} {table : Table} {n rowSize : ℕ} {σ : Schema} {t : PageTreeAny}
  {where_ : Option Expr} {as : List (ℕ × Expr)} {test : Cell → Exec Bool} {catalog : Page}
  {op : Pager → ℕ → Exec (Bool × Bool × Pager)}

/-- Searching one list and then another. -/
theorem anyCell_append (test : Cell → Exec Bool) (xs ys : List Cell) :
    anyCell test (xs ++ ys) =
      (anyCell test xs).bind fun found => if found then .ok true else anyCell test ys := by
  induction xs with
  | nil => rfl
  | cons c xs ih =>
    rw [List.cons_append, anyCell, anyCell, ih]
    cases test c with
    | error f => rfl
    | ok b => cases b <;> rfl

/-- What a search comes to: a fault, a cell, or none. -/
theorem anyCell_cases (test : Cell → Exec Bool) (cells : List Cell) :
    (∃ f, anyCell test cells = .error f) ∨ anyCell test cells = .ok true ∨
      anyCell test cells = .ok false := by
  cases anyCell test cells with
  | error f => exact Or.inl ⟨f, rfl⟩
  | ok b => cases b with
    | true => exact Or.inr (Or.inl rfl)
    | false => exact Or.inr (Or.inr rfl)

/-- The body searches a leaf, and does not get through when it has found something. -/
structure LeafSearch (op : Pager → ℕ → Exec (Bool × Bool × Pager)) (catalog : Page) (rowSize : ℕ)
    (test : Cell → Exec Bool) : Prop where
  run : ∀ {s : Pager} {leaf next : ℕ} {cells : List Cell}, s.page 0 = catalog →
    LeafPage rowSize (s.page leaf) cells next →
    op s leaf = (anyCell test cells).map fun found => (! found, found, s)

/-- What the walk returns. -/
def searchResult (found : Bool) : CommandResult := if found then .failure else .commandSuccess

/-- **A walk whose body searches** searches all leaves, one behind the other. -/
theorem walkLeaves_search (hop : LeafSearch op catalog rowSize test) :
    {ls : List (Leaf Int64 (List UInt8))} → {l : Leaf Int64 (List UInt8)} → {s : Pager} →
    {fuel : ℕ} → s.Sound → s.page 0 = catalog → Chain s.page rowSize (l :: ls) 0 →
    (∀ d ∈ l :: ls, d.page < s.numPages ∧ d.page ≠ 0) → ls.length < fuel →
    ∃ s', Fetched s s' ∧ walkLeaves op fuel s l.page =
      (anyCell test ((l :: ls).flatMap Leaf.cells)).map fun found => (searchResult found, s') := by
  intro ls
  induction ls with
  | nil =>
    intro l s fuel hs hcat hchain _ hfuel
    obtain ⟨fuel, rfl⟩ : ∃ f, fuel = f + 1 := ⟨fuel - 1, by omega⟩
    have hrun := hop.run hcat hchain
    refine ⟨s, Fetched.refl hs, ?_⟩
    rw [List.flatMap_singleton]
    rcases anyCell_cases test l.cells with ⟨f, hany⟩ | hany | hany
    · rw [hany] at hrun ⊢
      exact walkLeaves_error fuel hrun
    · rw [hany] at hrun ⊢
      exact walkLeaves_stop fuel hrun
    · rw [hany] at hrun ⊢
      exact walkLeaves_last fuel hrun rfl (LeafPage.next hchain)
  | cons l' ls ih =>
    intro l s fuel hs hcat hchain hpages hfuel
    obtain ⟨fuel, rfl⟩ : ∃ f, fuel = f + 1 := ⟨fuel - 1, by omega⟩
    obtain ⟨hlt', hne'⟩ := hpages l' (List.mem_cons_of_mem _ List.mem_cons_self)
    have hrun := hop.run hcat hchain.1
    rw [List.flatMap_cons, anyCell_append]
    rcases anyCell_cases test l.cells with ⟨f, hany⟩ | hany | hany
    · rw [hany] at hrun ⊢
      exact ⟨s, Fetched.refl hs, walkLeaves_error fuel hrun⟩
    · rw [hany] at hrun ⊢
      exact ⟨s, Fetched.refl hs, walkLeaves_stop fuel hrun⟩
    · -- nothing on this leaf: the walk goes on
      rw [hany] at hrun ⊢
      obtain ⟨s₂, hget, hfetch⟩ := pagerGetPage_of_lt hs hlt'
      rw [walkLeaves_next fuel hrun rfl hchain.1.next hne' hget]
      obtain ⟨s', hf', hwalk⟩ := ih hfetch.sound (by rw [hfetch.page, hcat])
        (hchain.2.congr fun d _ => by rw [hfetch.page]) (fun d hd => by
          rw [hfetch.numPages]
          exact hpages d (List.mem_cons_of_mem _ hd))
        (Nat.lt_of_succ_lt_succ hfuel)
      exact ⟨s', hfetch.trans hf', hwalk⟩

/-- The loop over one leaf, when a text is too long. -/
theorem updateCells_search (hfind : findTable (s.page 0) table.tableName = .ok n)
    (hdesc : Describes (s.page 0) n σ) (ha : Assignable σ.types as)
    (hlong : ¬ TextsFit (as.map Prod.snd)) {leaf : ℕ} : {rest : List Cell} → (kept : List Cell) →
    leafCells σ.rowSize (s.page leaf) = kept ++ rest →
    updateCells table n σ.rowSize where_ as leaf (List.range' kept.length rest.length) false s =
      (anyCell (fun c => testRow σ (s.page 0) n where_ c.2) rest).map
        fun found => (! found, found, s) := by
  intro rest
  induction rest with
  | nil => exact fun _ _ => rfl
  | cons c rest ih =>
    intro kept hcells
    have hstep := updateCells_cons where_ as hfind hdesc hcells
      (List.range' (kept.length + 1) rest.length) false
    rw [List.length_cons, List.range'_succ, hstep, anyCell]
    cases testRow σ (s.page 0) n where_ c.2 with
    | error f => rfl
    | ok b =>
      cases b with
      | true =>
        have hassign := (assignValues_eq ha (map_columnType_decodeValues σ.types c.2)).resolve_left
          fun h => hlong h.1
        simp only [ok_bind, if_true, hassign.2]
        rfl
      | false =>
        have hcells' : leafCells σ.rowSize (s.page leaf) = (kept ++ [c]) ++ rest := by
          rw [hcells, List.append_assoc, List.singleton_append]
        have hlen : kept.length + 1 = (kept ++ [c]).length := by simp
        rw [hlen, ok_bind, ok_bind, if_neg Bool.false_ne_true, if_neg Bool.false_ne_true]
        exact ih (kept ++ [c]) hcells'

/-- The body of the loop along the leaves, when a text is too long. -/
theorem leafSearch_update (hfind : findTable catalog table.tableName = .ok n)
    (hdesc : Describes catalog n σ) (ha : Assignable σ.types as)
    (hlong : ¬ TextsFit (as.map Prod.snd)) :
    LeafSearch (updateLeaf table n σ.rowSize where_ as) catalog σ.rowSize
      (fun c => testRow σ catalog n where_ c.2) where
  run {s leaf next cells} hcat hleaf := by
    subst hcat
    unfold updateLeaf
    rw [hleaf.length_cells, List.range_eq_range']
    exact updateCells_search hfind hdesc ha hlong [] hleaf.cells

/-- The assigned columns cannot be resolved. -/
theorem Holds.updateCommand_unresolved (h : Holds s table n σ t) {columns values : List Expr}
    (hlen : columns.length = values.length) {f : Fault}
    (hres : resolveAssignments (s.page 0) n (columns.zip values) = .error f)
    (where_ : Option Expr) :
    updateCommand s table table.tableName columns values where_ = .error f := by
  simp only [updateCommand, h.find, bind, Except.bind, hlen, ne_eq, not_true, if_false, hres]

/-- The assignments do not go with the columns. -/
theorem Holds.updateCommand_refused (h : Holds s table n σ t) {columns values : List Expr}
    {line : List UInt8} (hlen : columns.length = values.length)
    (hres : resolveAssignments (s.page 0) n (columns.zip values) = .ok (.error line))
    (where_ : Option Expr) :
    updateCommand s table table.tableName columns values where_ =
      .ok (⟨.failure, [line]⟩, s) := by
  simp only [updateCommand, h.find, bind, Except.bind, hlen, ne_eq, not_true, if_false, hres]
  rfl

/-- What an `UPDATE` with a text that is too long answers. -/
def searchOutcome (found : Bool) : Outcome :=
  if found then ⟨.failure, [textTooLong]⟩ else ⟨.commandSuccess, []⟩

/-- **An `UPDATE` with a text that is too long** searches the table for a row that it selects. -/
theorem Holds.updateCommand_search (h : Holds s table n σ t) {columns values : List Expr}
    (hlen : columns.length = values.length)
    (hres : resolveAssignments (s.page 0) n (columns.zip values) = .ok (.ok as))
    (hlong : ¬ TextsFit (as.map Prod.snd)) (where_ : Option Expr) :
    ∃ s', Fetched s s' ∧ updateCommand s table table.tableName columns values where_ =
      (anyCell (fun c => testRow σ (s.page 0) n where_ c.2) t.2.contents).map
        fun found => (searchOutcome found, s') := by
  obtain ⟨s₁, s₂, hget, hfirst, hf⟩ := h.firstLeaf
  have h₂ := h.fetched hf
  have hcat : s₂.page 0 = s.page 0 := by rw [hf.page]
  have ha := (resolveAssignments_checked hres).assignable h.describes
  obtain ⟨l, ls, hleaves, hentry, hchain, -, hpages, hfuel⟩ := h₂.represents.leaf_cons h₂.sound
  obtain ⟨s', hf', hwalk⟩ := walkLeaves_search
    (leafSearch_update (hcat ▸ h.find) (hcat ▸ h.describes) ha hlong) h₂.sound
    rfl hchain hpages hfuel
  refine ⟨s', hf.trans hf', ?_⟩
  rw [updateCommand_descended h hlen hres where_ hget hfirst, ← hentry, hwalk, hcat, ← hleaves]
  show ((anyCell _ t.2.contents).map _).map _ = _
  cases anyCell (fun c => testRow σ (s.page 0) n where_ c.2) t.2.contents with
  | error f => rfl
  | ok found => cases found <;> rfl

end MiniDB
