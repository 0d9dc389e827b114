import MiniDB.Statements.Walk

/-!
# `UPDATE` on a stored table

* `assigned`, `assignValues_eq`: the values that the assignments make of a row.
* `updateCells_eq`, `updateCells_stops`: one leaf, when every text fits and when one does not.
* `updateCommand_spec`: the outcome.
-/

namespace MiniDB

open BPlusTree Pager

/-! ## Assignments -/

/-- A literal put in the place of a value of its own type. -/
def assignedValue : Expr → Value → Value
  | .literalInt n, .integer _ => .integer n
  | .literalString text, .text field _ => .text (field.overwrite text) text.length
  | .literalBoolean b, .boolean _ => .boolean (boolByte b)
  | _, v => v

/-- The values of a row after some assignments, the first one first. -/
def assigned : List (ℕ × Expr) → List Value → List Value
  | [], vs => vs
  | (i, e) :: as, vs => assigned as (vs.modify i (assignedValue e))

/-- The assignments go with the columns. -/
def Assignable (types : List ColumnType) (as : List (ℕ × Expr)) : Prop :=
  ∀ a ∈ as, ∃ t, types[a.1]? = some t ∧ typeMatches t.toByte a.2 = true

@[simp] theorem columnType_assignedValue (e : Expr) (v : Value) :
    (assignedValue e v).columnType = v.columnType := by
  cases e <;> cases v <;> rfl

theorem map_columnType_modify (i : ℕ) (e : Expr) (vs : List Value) :
    (vs.modify i (assignedValue e)).map Value.columnType = vs.map Value.columnType := by
  apply List.ext_getElem
  · simp
  · intro j h1 h2
    simp only [List.getElem_map, List.getElem_modify]
    split
    · exact columnType_assignedValue e _
    · rfl

/-- Assignments keep the types of a row. -/
theorem map_columnType_assigned (as : List (ℕ × Expr)) (vs : List Value) :
    (assigned as vs).map Value.columnType = vs.map Value.columnType := by
  induction as generalizing vs with
  | nil => rfl
  | cons a as ih => rw [assigned, ih, map_columnType_modify]

/-- The literal is not a text that is too long. -/
def TextFits (e : Expr) : Prop := ∀ text, e = .literalString text → text.length ≤ valueTextMaxLen

/-- One assignment of a literal to a value of its type. -/
theorem assignValue_eq {e : Expr} {v : Value} (h : typeMatches v.columnType.toByte e = true) :
    (TextFits e ∧ assignValue e v = .ok (some (assignedValue e v))) ∨
      (¬ TextFits e ∧ assignValue e v = .ok none) := by
  cases v with
  | integer m =>
    obtain ⟨k, rfl⟩ := typeMatches_integer h
    exact Or.inl ⟨by rintro _ ⟨⟩, rfl⟩
  | text field length =>
    cases e with
    | literalString text =>
      simp only [assignValue, Expr.asLiteralString, bind, Except.bind]
      by_cases hlen : valueTextMaxLen < text.length
      · rw [if_pos hlen]
        exact Or.inr ⟨fun hfits => absurd (hfits text rfl) (not_le.mpr hlen), rfl⟩
      · rw [if_neg hlen]
        refine Or.inl ⟨?_, rfl⟩
        rintro _ ⟨⟩
        exact not_lt.mp hlen
    | _ => simp [typeMatches, Value.columnType, ColumnType.toByte] at h
  | boolean b =>
    cases e with
    | literalBoolean c => exact Or.inl ⟨by rintro _ ⟨⟩, rfl⟩
    | _ => simp [typeMatches, Value.columnType, ColumnType.toByte] at h

/-- **The assignments to one row**, unless a text is too long. -/
theorem assignValues_eq {types : List ColumnType} {as : List (ℕ × Expr)} {vs : List Value}
    (ha : Assignable types as) (hvs : vs.map Value.columnType = types) :
    (TextsFit (as.map Prod.snd) ∧ assignValues as vs = .ok (some (assigned as vs))) ∨
      (¬ TextsFit (as.map Prod.snd) ∧ assignValues as vs = .ok none) := by
  induction as generalizing vs with
  | nil => exact Or.inl ⟨fun _ h => absurd h List.not_mem_nil, rfl⟩
  | cons a as ih =>
    obtain ⟨i, e⟩ := a
    obtain ⟨t, ht, hmatch⟩ := ha (i, e) List.mem_cons_self
    have hrest : Assignable types as := fun a h => ha a (List.mem_cons_of_mem _ h)
    subst hvs
    rw [List.getElem?_map] at ht
    obtain ⟨v, hv, rfl⟩ := Option.map_eq_some_iff.mp ht
    have hset : vs.modify i (assignedValue e) = vs.set i (assignedValue e v) := by
      rw [List.modify_eq_set_getElem?, hv]
      rfl
    rw [List.map_cons, textsFit_cons]
    simp only [assignValues, assigned, hv, bind, Except.bind, hset]
    rcases assignValue_eq hmatch with ⟨hfit, hone⟩ | ⟨hlong, hone⟩
    · rw [hone]
      have htypes := map_columnType_modify i e vs
      rw [hset] at htypes
      rcases ih hrest htypes with ⟨hfits, heq⟩ | ⟨hno, heq⟩
      · exact Or.inl ⟨⟨hfit, hfits⟩, heq⟩
      · exact Or.inr ⟨fun h => hno h.2, heq⟩
    · rw [hone]
      exact Or.inr ⟨fun h => hlong h.1, rfl⟩

/-! ## One leaf -/

variable {s : Pager} {table : Table} {n : ℕ} {σ : Schema} {t : PageTreeAny} {catalog : Page}
  {where_ : Option Expr} {as : List (ℕ × Expr)}

/-- What the assignments make of a cell: its key is not touched. -/
def updatedCell (σ : Schema) (catalog : Page) (n : ℕ) (where_ : Option Expr)
    (as : List (ℕ × Expr)) (c : Cell) : Cell :=
  if selected σ catalog n where_ c then (c.1, rowBytes (assigned as (decodeValues σ.types c.2)))
  else c

theorem fst_updatedCell (c : Cell) : (updatedCell σ catalog n where_ as c).1 = c.1 := by
  unfold updatedCell
  split <;> rfl

theorem updated_keys (cells : List Cell) :
    ((cells.map (updatedCell σ catalog n where_ as)).map Prod.fst).Sublist
      (cells.map Prod.fst) := by
  rw [List.map_map]
  exact (List.map_congr_left fun c _ => fst_updatedCell c) ▸ List.Sublist.refl _

theorem length_assignedBytes (as : List (ℕ × Expr)) (bs : List UInt8) :
    (rowBytes (assigned as (decodeValues σ.types bs))).length = σ.rowSize := by
  rw [length_rowBytes, map_columnType_assigned, map_columnType_decodeValues]

variable (where_ as) in
/-- One round of the loop. -/
theorem updateCells_cons (hfind : findTable (s.page 0) table.tableName = .ok n)
    (hdesc : Describes (s.page 0) n σ) {leaf : ℕ} {kept rest : List Cell} {c : Cell}
    (hcells : leafCells σ.rowSize (s.page leaf) = kept ++ c :: rest) (is : List ℕ) (dirty : Bool) :
    updateCells table n σ.rowSize where_ as leaf (kept.length :: is) dirty s = (do
      if ← testRow σ (s.page 0) n where_ c.2 then
        let some vs ← assignValues as (decodeValues σ.types c.2) | return (false, true, s)
        updateCells table n σ.rowSize where_ as leaf is true
          (s.setPage leaf ((s.page leaf).write (leafNodeValue kept.length σ.rowSize)
            (rowBytes vs)))
      else updateCells table n σ.rowSize where_ as leaf is dirty s) := by
  have hi : kept.length < (kept ++ c :: rest).length := by simp
  have hrow := (hdesc.reads hfind).deserializeCell hcells hi
  have hget : (kept ++ c :: rest)[kept.length] = c := by simp
  rw [hget] at hrow
  simp only [updateCells, hrow, bind, Except.bind, serializeRow_eq]
  rfl

/-- **The loop over one leaf when every text fits**, or no row is selected, from the cells behind
those it has seen. -/
theorem updateCells_eq (hfind : findTable catalog table.tableName = .ok n)
    (hdesc : Describes catalog n σ) (ha : Assignable σ.types as)
    (hfit : ∀ c, selected σ catalog n where_ c = true → TextsFit (as.map Prod.snd)) {leaf : ℕ}
    (hleaf : leaf ≠ 0) :
    {rest : List Cell} → (kept : List Cell) → (dirty : Bool) → {s : Pager} → s.Sound →
    s.page 0 = catalog → leaf < s.numPages → leafCells σ.rowSize (s.page leaf) = kept ++ rest →
    CellsDone σ catalog n where_ leaf (fun dirty s => (true, dirty, s)) kept rest
      (rest.map (updatedCell σ catalog n where_ as)) dirty s
      (updateCells table n σ.rowSize where_ as leaf (List.range' kept.length rest.length) dirty
        s) := by
  intro rest
  induction rest with
  | nil =>
    intro kept dirty s hs _ _ hcells
    exact .nil hs hcells
  | cons c rest ih =>
    intro kept dirty s hs hcat hlt hcells
    subst hcat
    have hstep := updateCells_cons where_ as hfind hdesc hcells
      (List.range' (kept.length + 1) rest.length) dirty
    rw [List.length_cons, List.range'_succ, hstep]
    rcases testRow_cases σ (s.page 0) n where_ c with ⟨f, hf⟩ | ⟨hgood, htest⟩
    · rw [hf]
      exact .fault hf
    rw [htest]
    have hi : kept.length < (leafCells σ.rowSize (s.page leaf)).length := by
      rw [hcells]
      simp
    cases hsel : selected σ (s.page 0) n where_ c with
    | true =>
      -- the row is overwritten
      have hassign := (assignValues_eq ha (map_columnType_decodeValues σ.types c.2)).resolve_right
        fun h => h.1 (hfit c hsel)
      obtain ⟨hwrite, hframe, -⟩ := leafCells_writeValue hi (length_assignedBytes as c.2)
      obtain ⟨p, hp⟩ : ∃ p, p = (s.page leaf).write (leafNodeValue kept.length σ.rowSize)
        (rowBytes (assigned as (decodeValues σ.types c.2))) := ⟨_, rfl⟩
      rw [← hp] at hwrite hframe
      have hpage : (s.setPage leaf p).page leaf = p := by rw [page_setPage, Function.update_self]
      have hev : Evolves s (s.setPage leaf p) {leaf} {leaf} :=
        (Evolves.refl hs).setPage hlt rfl rfl
      have hnew : updatedCell σ (s.page 0) n where_ as c =
          (c.1, rowBytes (assigned as (decodeValues σ.types c.2))) := if_pos hsel
      have hcells' : leafCells σ.rowSize ((s.setPage leaf p).page leaf) =
          (kept ++ [updatedCell σ (s.page 0) n where_ as c]) ++ rest := by
        rw [hpage, hwrite, hnew]
        simp only [hcells, List.getElem_append_right le_rfl, Nat.sub_self, List.getElem_cons_zero,
          List.append_assoc, List.singleton_append]
        rw [List.set_append_right _ _ le_rfl, Nat.sub_self, List.set_cons_zero]
      have hcat' : (s.setPage leaf p).page 0 = s.page 0 := by
        rw [page_setPage, Function.update_of_ne hleaf.symm]
      have hlen : kept.length + 1 = (kept ++ [updatedCell σ (s.page 0) n where_ as c]).length := by
        simp
      have hrest := ih (kept ++ [updatedCell σ (s.page 0) n where_ as c]) true hev.sound hcat' hlt
        hcells'
      rw [← hlen] at hrest
      rw [← hpage] at hframe
      simp only [bind, Except.bind, if_true, hassign.2, ← hp]
      exact .write hgood (numPages_setPage s leaf p) hev hframe hrest (by simp)
    | false =>
      -- the row stays
      have hold : updatedCell σ (s.page 0) n where_ as c = c := if_neg (by rw [hsel]; decide)
      have hcells' : leafCells σ.rowSize (s.page leaf) = (kept ++ [c]) ++ rest := by
        rw [hcells, List.append_assoc, List.singleton_append]
      have hlen : kept.length + 1 = (kept ++ [c]).length := by simp
      have hrest := ih (kept ++ [c]) dirty hs rfl hlt hcells'
      rw [← hlen] at hrest
      exact .pass hgood hrest (by simp [hold])

/-- The loop over one leaf when a text is too long: it stops at the first row that is selected, and
has written nothing. -/
theorem updateCells_stops (hfind : findTable (s.page 0) table.tableName = .ok n)
    (hdesc : Describes (s.page 0) n σ) (ha : Assignable σ.types as)
    (hlong : ¬ TextsFit (as.map Prod.snd)) {leaf : ℕ} : {rest : List Cell} → (kept : List Cell) →
    leafCells σ.rowSize (s.page leaf) = kept ++ rest →
    (∃ f, (∃ c ∈ rest, Faulty σ (s.page 0) n where_ f c) ∧
        updateCells table n σ.rowSize where_ as leaf (List.range' kept.length rest.length) false
          s = .error f) ∨
      ((∃ c ∈ rest, selected σ (s.page 0) n where_ c = true) ∧
        updateCells table n σ.rowSize where_ as leaf (List.range' kept.length rest.length) false
          s = .ok (false, true, s)) ∨
      ((∀ c ∈ rest, ¬ selected σ (s.page 0) n where_ c = true) ∧
        updateCells table n σ.rowSize where_ as leaf (List.range' kept.length rest.length) false
          s = .ok (true, false, s)) := by
  intro rest
  induction rest with
  | nil => exact fun _ _ => Or.inr (Or.inr ⟨fun _ hc => absurd hc List.not_mem_nil, rfl⟩)
  | cons c rest ih =>
    intro kept hcells
    have hstep := updateCells_cons where_ as hfind hdesc hcells
      (List.range' (kept.length + 1) rest.length) false
    rw [List.length_cons, List.range'_succ, hstep]
    rcases testRow_cases σ (s.page 0) n where_ c with ⟨f, hf⟩ | ⟨-, htest⟩
    · exact Or.inl ⟨f, ⟨c, List.mem_cons_self, hf⟩, by rw [hf]; rfl⟩
    rw [htest]
    cases hsel : selected σ (s.page 0) n where_ c with
    | true =>
      have hassign := (assignValues_eq ha (map_columnType_decodeValues σ.types c.2)).resolve_left
        fun h => hlong h.1
      refine Or.inr (Or.inl ⟨⟨c, List.mem_cons_self, hsel⟩, ?_⟩)
      simp only [bind, Except.bind, if_true, hassign.2]
      rfl
    | false =>
      have hcells' : leafCells σ.rowSize (s.page leaf) = (kept ++ [c]) ++ rest := by
        rw [hcells, List.append_assoc, List.singleton_append]
      have hlen : kept.length + 1 = (kept ++ [c]).length := by simp
      rw [hlen]
      rcases ih (kept ++ [c]) hcells' with
        ⟨f, ⟨d, hd, hbad⟩, herr⟩ | ⟨⟨d, hd, hstop⟩, hrun⟩ | ⟨hgo, hrun⟩
      · exact Or.inl ⟨f, ⟨d, List.mem_cons_of_mem _ hd, hbad⟩, herr⟩
      · exact Or.inr (Or.inl ⟨⟨d, List.mem_cons_of_mem _ hd, hstop⟩, hrun⟩)
      · refine Or.inr (Or.inr ⟨List.forall_mem_cons.mpr ⟨?_, hgo⟩, hrun⟩)
        rw [hsel]
        decide

/-! ## All leaves -/

/-- The body of the loop along the leaves. -/
def updateLeaf (table : Table) (n rowSize : ℕ) (where_ : Option Expr) (as : List (ℕ × Expr))
    (s : Pager) (leaf : ℕ) : Exec (Bool × Bool × Pager) :=
  updateCells table n rowSize where_ as leaf (List.range (numCells (s.page leaf))) false s

/-- `updateLeaves` is the walk along the leaves, which says so when a text is too long. -/
theorem updateLeaves_eq (rowSize fuel : ℕ) (s : Pager) (leaf : ℕ) :
    updateLeaves table n rowSize where_ as fuel s leaf =
      (walkLeaves (updateLeaf table n rowSize where_ as) fuel s leaf).map
        (orPrint textTooLong) := by
  induction fuel generalizing s leaf with
  | zero => rfl
  | succ fuel ih =>
    unfold updateLeaves walkLeaves
    simp only [updateLeaf]
    cases updateCells table n rowSize where_ as leaf (List.range (numCells (s.page leaf))) false s
    with
    | error f => rfl
    | ok r =>
      obtain ⟨through, dirty, s₁⟩ := r
      cases through with
      | false => rfl
      | true =>
        by_cases hnext : nextLeaf ((if dirty then pagerMarkDirty s₁ leaf else s₁).page leaf) = 0
        · simp only [bind, Except.bind, Bool.not_true, Bool.false_eq_true, if_false, if_pos hnext]
          rfl
        · simp only [bind, Except.bind, Bool.not_true, Bool.false_eq_true, if_false, if_neg hnext]
          cases pagerGetPage (if dirty then pagerMarkDirty s₁ leaf else s₁)
            (nextLeaf ((if dirty then pagerMarkDirty s₁ leaf else s₁).page leaf)) with
          | none => rfl
          | some s₂ => exact ih s₂ _

/-- The body of the loop rewrites the selected rows of a leaf. -/
theorem leafOp_update (hfind : findTable catalog table.tableName = .ok n)
    (hdesc : Describes catalog n σ) (ha : Assignable σ.types as)
    (hfit : ∀ c, selected σ catalog n where_ c = true → TextsFit (as.map Prod.snd)) :
    LeafOp (updateLeaf table n σ.rowSize where_ as) catalog σ.rowSize
      (List.map (updatedCell σ catalog n where_ as)) (Faulty σ catalog n where_) where
  run {s leaf next cells} hs hcat hleaf hlt hne := by
    unfold updateLeaf
    rw [hleaf.length_cells, List.range_eq_range']
    rcases updateCells_eq hfind hdesc ha hfit hne [] false hs hcat hlt
      hleaf.cells with ⟨f, hbad, herr⟩ |
      ⟨hgood, dirty, s', hrun, hnum', hev, hdirty, -, hcells, hframe⟩
    · exact Or.inl ⟨f, hbad, herr⟩
    · refine Or.inr ⟨hgood, dirty, s', if dirty then pagerMarkDirty s' leaf else s', hrun, rfl,
        ?_, ?_, ?_⟩
      · cases dirty <;> exact hnum'
      · cases dirty with
        | true =>
          exact hev.settle
        | false =>
          obtain rfl : s' = s := hdirty.resolve_left (by decide)
          exact Evolves.refl hs
      · have hpage : (if dirty then pagerMarkDirty s' leaf else s').page leaf = s'.page leaf := by
          cases dirty <;> rfl
        rw [hpage]
        constructor
        · rw [hcells, hleaf.cells]
          rfl
        · exact hframe

/-- The body of the loop only reads when a text is too long, and stops at a selected row. -/
theorem leafRead_update (hfind : findTable catalog table.tableName = .ok n)
    (hdesc : Describes catalog n σ) (ha : Assignable σ.types as)
    (hlong : ¬ TextsFit (as.map Prod.snd)) :
    LeafRead (updateLeaf table n σ.rowSize where_ as) catalog σ.rowSize
      (Faulty σ catalog n where_) (fun c => selected σ catalog n where_ c = true) where
  run {s leaf next cells} hcat hleaf := by
    subst hcat
    unfold updateLeaf
    rw [hleaf.length_cells, List.range_eq_range']
    exact updateCells_stops hfind hdesc ha hlong [] hleaf.cells

/-! ## The command -/

/-- The assignments go with the columns as they are stored. -/
def Checked (catalog : Page) (n : ℕ) (as : List (ℕ × Expr)) : Prop :=
  ∀ a ∈ as, a.1 < catalogNodeColumnCount catalog n ∧
    typeMatches (storedType catalog n a.1) a.2 = true

/-- What the check of the assigned columns lets through. -/
theorem resolveAssignments_checked {pairs : List (Expr × Expr)}
    (h : resolveAssignments catalog n pairs = .ok (.ok as)) : Checked catalog n as := by
  induction pairs generalizing as with
  | nil =>
    cases h
    exact fun _ ha => absurd ha List.not_mem_nil
  | cons p pairs ih =>
    obtain ⟨column, value⟩ := p
    rw [resolveAssignments] at h
    obtain ⟨name, -, h⟩ := bind_eq_ok h
    obtain ⟨r, hfind, h⟩ := bind_eq_ok h
    cases r with
    | none => cases h
    | some i =>
      simp only at h
      split at h
      next hmatch =>
        obtain ⟨r, hrest, h⟩ := bind_eq_ok h
        cases r with
        | error line => cases h
        | ok as' =>
          cases h
          intro a ha
          rcases List.mem_cons.mp ha with rfl | ha
          · exact ⟨findColumn_lt hfind, hmatch⟩
          · exact ih hrest a ha
      · cases h

/-- The check keeps the literals. -/
theorem resolveAssignments_values {pairs : List (Expr × Expr)}
    (h : resolveAssignments catalog n pairs = .ok (.ok as)) :
    as.map Prod.snd = pairs.map Prod.snd := by
  induction pairs generalizing as with
  | nil =>
    cases h
    rfl
  | cons p pairs ih =>
    obtain ⟨column, value⟩ := p
    rw [resolveAssignments] at h
    obtain ⟨name, -, h⟩ := bind_eq_ok h
    obtain ⟨r, -, h⟩ := bind_eq_ok h
    cases r with
    | none => cases h
    | some i =>
      simp only at h
      split at h
      · obtain ⟨r, hrest, h⟩ := bind_eq_ok h
        cases r with
        | error line => cases h
        | ok as' =>
          cases h
          rw [List.map_cons, List.map_cons, ih hrest]
      · cases h

theorem Checked.assignable (h : Checked catalog n as) (hdesc : Describes catalog n σ) :
    Assignable σ.types as := by
  intro a ha
  obtain ⟨hlt, hmatch⟩ := h a ha
  rw [hdesc.columnCount] at hlt
  rw [hdesc.storedType hlt] at hmatch
  exact ⟨_, List.getElem?_eq_getElem hlt, hmatch⟩

/-- What the check of the assigned columns can stumble over. -/
theorem resolveAssignments_fault {pairs : List (Expr × Expr)} {f : Fault}
    (h : resolveAssignments catalog n pairs = .error f) : TestFault f := by
  induction pairs with
  | nil => cases h
  | cons p pairs ih =>
    obtain ⟨column, value⟩ := p
    unfold resolveAssignments at h
    rcases bind_eq_error h with h | ⟨name, -, h⟩
    · cases column <;> cases h <;> exact Or.inl rfl
    · rcases bind_eq_error h with h | ⟨r, -, h⟩
      · exact Or.inr (findFirst_fault (fun i f hf => nameEquals_fault hf) h)
      · cases r with
        | none => cases h
        | some i =>
          simp only at h
          split at h
          · rcases bind_eq_error h with h | ⟨r, -, h⟩
            · exact ih h
            · cases h
          · cases h

/-- How an `UPDATE` can end. -/
inductive UpdateOutcome (s : Pager) (n : ℕ) (σ : Schema) (t : PageTreeAny)
    (columns values : List Expr) (where_ : Option Expr) : Exec (Outcome × Pager) → Prop
  /-- the assigned columns cannot be resolved -/
  | unresolved {f : Fault} :
      resolveAssignments (s.page 0) n (columns.zip values) = .error f →
      UpdateOutcome s n σ t columns values where_ (.error f)
  /-- testing the condition on a row does something undefined -/
  | faulty {f : Fault} {as : List (ℕ × Expr)} :
      resolveAssignments (s.page 0) n (columns.zip values) = .ok (.ok as) →
      (∃ c ∈ t.2.contents, Faulty σ (s.page 0) n where_ f c) →
      UpdateOutcome s n σ t columns values where_ (.error f)
  /-- the assignments do not go with the columns, or a text is too long for a selected row -/
  | refused {line : List UInt8} {s' : Pager} : Fetched s s' →
      UpdateOutcome s n σ t columns values where_ (.ok (⟨.failure, [line]⟩, s'))
  /-- a text is too long, but no row is selected -/
  | unselected {as : List (ℕ × Expr)} {s' : Pager} :
      resolveAssignments (s.page 0) n (columns.zip values) = .ok (.ok as) →
      (∀ c ∈ t.2.contents, ¬ selected σ (s.page 0) n where_ c = true) → Fetched s s' →
      UpdateOutcome s n σ t columns values where_ (.ok (⟨.commandSuccess, []⟩, s'))
  /-- the selected rows are rewritten -/
  | updated {as : List (ℕ × Expr)} {s' : Pager} :
      resolveAssignments (s.page 0) n (columns.zip values) = .ok (.ok as) →
      Assignable σ.types as → (∀ f, ∀ c ∈ t.2.contents, ¬ Faulty σ (s.page 0) n where_ f c) →
      s'.numPages = s.numPages → Evolves s s' {q | q ∈ t.2.labels} ∅ →
      EditedLeaves σ.rowSize (List.map (updatedCell σ (s.page 0) n where_ as)) s s' t →
      Represents s' σ.rowSize
        ⟨t.1, t.2.mapCells (List.map (updatedCell σ (s.page 0) n where_ as))⟩ →
      UpdateOutcome s n σ t columns values where_ (.ok (⟨.commandSuccess, []⟩, s'))

/-- What `update_command` does once it has found the first leaf. -/
theorem updateCommand_descended (h : Holds s table n σ t) {columns values : List Expr}
    (hlen : columns.length = values.length)
    (hres : resolveAssignments (s.page 0) n (columns.zip values) = .ok (.ok as))
    (where_ : Option Expr) {s₁ s₂ : Pager} (hget : pagerGetPage s table.rootPageNum = some s₁)
    (hfirst : firstLeaf walkFuel s₁ table.rootPageNum = .ok (some t.2.entry, s₂)) :
    updateCommand s table table.tableName columns values where_ =
      (walkLeaves (updateLeaf table n σ.rowSize where_ as) walkFuel s₂ t.2.entry).map
        (orPrint textTooLong) := by
  rw [← updateLeaves_eq]
  simp only [updateCommand, h.find, bind, Except.bind, h.describes.rowSize, hlen, ne_eq,
    not_true, if_false, hres, hget, hfirst]

/-- **An `UPDATE` rewrites the selected rows**, unless a row cannot be tested.  When no row is
selected, it does not matter whether the texts fit. -/
theorem updateCommand_fits (h : Holds s table n σ t) {columns values : List Expr}
    (hlen : columns.length = values.length)
    (hres : resolveAssignments (s.page 0) n (columns.zip values) = .ok (.ok as))
    (where_ : Option Expr)
    (hfit : ∀ c, selected σ (s.page 0) n where_ c = true → TextsFit (as.map Prod.snd)) :
    (∃ f, (∃ c ∈ t.2.contents, Faulty σ (s.page 0) n where_ f c) ∧
        updateCommand s table table.tableName columns values where_ = .error f) ∨
      ((∀ f, ∀ c ∈ t.2.contents, ¬ Faulty σ (s.page 0) n where_ f c) ∧ ∃ s',
        updateCommand s table table.tableName columns values where_ =
          .ok (⟨.commandSuccess, []⟩, s') ∧
        s'.numPages = s.numPages ∧ Evolves s s' {q | q ∈ t.2.labels} ∅ ∧
        EditedLeaves σ.rowSize (List.map (updatedCell σ (s.page 0) n where_ as)) s s' t ∧
        Represents s' σ.rowSize
          ⟨t.1, t.2.mapCells (List.map (updatedCell σ (s.page 0) n where_ as))⟩) := by
  obtain ⟨s₁, s₂, hget, hfirst, hf⟩ := h.firstLeaf
  have h₂ := h.fetched hf
  have hcat : s₂.page 0 = s.page 0 := by rw [hf.page]
  have ha := (resolveAssignments_checked hres).assignable h.describes
  rw [updateCommand_descended h hlen hres where_ hget hfirst]
  rw [← hcat] at hfit ⊢
  rcases h₂.walk (leafOp_update h₂.find h₂.describes ha hfit) updated_keys with
    ⟨f, hbad, herr⟩ | ⟨hgood, s', hrun', hnum, hev, hedit, hrep⟩
  · rw [herr]
    exact Or.inl ⟨f, hbad, rfl⟩
  · rw [hrun']
    exact Or.inr ⟨hgood, s', rfl, hnum.trans hf.numPages, hf.evolves.trans hev, hedit.fetched hf,
      hrep⟩

/-- **An `UPDATE` with a text that is too long** fails at the first row that is selected, and does
nothing when there is none. -/
theorem updateCommand_long (h : Holds s table n σ t) {columns values : List Expr}
    (hlen : columns.length = values.length)
    (hres : resolveAssignments (s.page 0) n (columns.zip values) = .ok (.ok as))
    (where_ : Option Expr) (hlong : ¬ TextsFit (as.map Prod.snd)) :
    (∃ f, (∃ c ∈ t.2.contents, Faulty σ (s.page 0) n where_ f c) ∧
        updateCommand s table table.tableName columns values where_ = .error f) ∨
      ∃ s', Fetched s s' ∧
        ((∃ c ∈ t.2.contents, selected σ (s.page 0) n where_ c = true) ∧
            updateCommand s table table.tableName columns values where_ =
              .ok (⟨.failure, [textTooLong]⟩, s') ∨
          (∀ c ∈ t.2.contents, ¬ selected σ (s.page 0) n where_ c = true) ∧
            updateCommand s table table.tableName columns values where_ =
              .ok (⟨.commandSuccess, []⟩, s')) := by
  obtain ⟨s₁, s₂, hget, hfirst, hf⟩ := h.firstLeaf
  have h₂ := h.fetched hf
  have hcat : s₂.page 0 = s.page 0 := by rw [hf.page]
  have ha := (resolveAssignments_checked hres).assignable h.describes
  rw [updateCommand_descended h hlen hres where_ hget hfirst, ← hcat]
  rcases h₂.walk_reads (leafRead_update h₂.find h₂.describes ha hlong) with
    ⟨f, hbad, herr⟩ | ⟨s', hf', ⟨hsome, hstop⟩ | ⟨hnone, hdone⟩⟩
  · rw [herr]
    exact Or.inl ⟨f, hbad, rfl⟩
  · rw [hstop]
    exact Or.inr ⟨s', hf.trans hf', Or.inl ⟨hsome, rfl⟩⟩
  · rw [hdone]
    exact Or.inr ⟨s', hf.trans hf', Or.inr ⟨hnone, rfl⟩⟩

/-- **An `UPDATE` ends in one of these ways.** -/
theorem updateCommand_spec (h : Holds s table n σ t) (columns values : List Expr)
    (where_ : Option Expr) :
    UpdateOutcome s n σ t columns values where_
      (updateCommand s table table.tableName columns values where_) := by
  by_cases hlen : columns.length = values.length
  swap
  · simp only [updateCommand, h.find, bind, Except.bind, h.describes.rowSize, if_pos hlen]
    exact .refused (Fetched.refl h.sound)
  cases hres : resolveAssignments (s.page 0) n (columns.zip values) with
  | error f =>
    simp only [updateCommand, h.find, bind, Except.bind, hlen, ne_eq, not_true, if_false, hres]
    exact .unresolved hres
  | ok r =>
    cases r with
    | error line =>
      simp only [updateCommand, h.find, bind, Except.bind, hlen, ne_eq, not_true, if_false, hres]
      exact .refused (Fetched.refl h.sound)
    | ok as =>
      have ha := (resolveAssignments_checked hres).assignable h.describes
      by_cases hfit : TextsFit (as.map Prod.snd)
      · rcases updateCommand_fits h hlen hres where_ fun _ _ => hfit with
          ⟨f, hbad, herr⟩ | ⟨hgood, s', hrun, hnum, hev, hedit, hrep⟩
        · rw [herr]
          exact .faulty hres hbad
        · rw [hrun]
          exact .updated hres ha hgood hnum hev hedit hrep
      · rcases updateCommand_long h hlen hres where_ hfit with
          ⟨f, hbad, herr⟩ | ⟨s', hf, ⟨-, hrun⟩ | ⟨hnone, hrun⟩⟩
        · rw [herr]
          exact .faulty hres hbad
        · rw [hrun]
          exact .refused hf
        · rw [hrun]
          exact .unselected hres hnone hf

end MiniDB
