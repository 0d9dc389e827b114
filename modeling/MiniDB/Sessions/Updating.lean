import MiniDB.Sessions.Deleting
import MiniDB.Statements.Assigning
import MiniDB.Statements.UpdateFailure

/-!
# What an `UPDATE` means

An `UPDATE` rewrites the rows that satisfy its condition, and no others.  A text that is shorter
than the one it replaces is read back with the rest of the old one behind it, for nothing clears the
field.

* `RowUpdated`: one cell before and after.
* `rowUpdated_iff`: when a selected row is read back as assigned.
* `updateCommand_updates_iff`: **`UPDATE` does what it says** just when every text covers the old
  one.
* `updateCommand_failed`: **an `UPDATE` that fails has changed no page**.
-/

namespace MiniDB

open BPlusTree Pager

variable {s s' : Pager} {table : Table} {n : ℕ} {σ : Schema} {t : PageTreeAny} {catalog : Page}
  {where_ : Option Expr} {columns values : List Expr} {as : List (ℕ × Expr)} {name : List UInt8}
  {c c' : Cell}

/-- **The cell `c'` is what the `UPDATE` is to make of `c`**: it has the same key; it is the same if
the row did not satisfy the condition; otherwise every assigned column is read back as the literal
that was assigned to it last, and every other column as before. -/
structure RowUpdated (σ : Schema) (catalog : Page) (n : ℕ) (where_ : Option Expr)
    (as : List (ℕ × Expr)) (c c' : Cell) : Prop where
  key : c'.1 = c.1
  unmatched : selected σ catalog n where_ c = false → c'.2 = c.2
  assigned : selected σ catalog n where_ c = true → ∀ i last,
    (assignedTo as i).getLast? = some last →
      ∃ v, (decodeValues σ.types c'.2)[i]? = some v ∧ v.Shows last
  others : selected σ catalog n where_ c = true → ∀ i, assignedTo as i = [] →
    (decodeValues σ.types c'.2)[i]? = (decodeValues σ.types c.2)[i]?

/-- Every text covers the texts that were in its column before. -/
def AssignmentsCover (as : List (ℕ × Expr)) (vs : List Value) : Prop :=
  ∀ i es last v, assignedTo as i = es ++ [last] → vs[i]? = some v → Covers es last v

/-- A single assignment. -/
theorem assignmentsCover_singleton {i : ℕ} {e : Expr} {vs : List Value} {v : Value}
    (hv : vs[i]? = some v) : AssignmentsCover [(i, e)] vs ↔ Covers [] e v := by
  have hto : assignedTo [(i, e)] i = [e] := by
    rw [assignedTo, List.filter_cons_of_pos (by simp)]
    rfl
  constructor
  · exact fun h => h i [] e v hto hv
  · intro h j es last w hes hw
    by_cases hij : i = j
    · subst hij
      obtain rfl : w = v := Option.some_inj.mp (hw.symm.trans hv)
      obtain ⟨rfl, rfl⟩ : es = [] ∧ last = e := by
        have hsplit : [] ++ [e] = es ++ [last] := hto.symm.trans hes
        have heq := List.append_inj' hsplit rfl
        exact ⟨heq.1.symm, (List.cons.inj heq.2).1.symm⟩
      exact h
    · have hnone : assignedTo [(i, e)] j = [] := by
        rw [assignedTo, List.filter_cons_of_neg (by simpa using hij)]
        rfl
      rw [hnone] at hes
      exact absurd hes (by simp)

/-! ## One row -/

theorem stored_of_normal {v : Value} (h : v.Normal) : v.stored = v := by
  cases v with
  | text field length => exact congrArg _ (Eq.symm h)
  | _ => rfl

/-- What is read back of a row that was updated. -/
theorem getElem?_decodeValues_updated (as : List (ℕ × Expr))
    (hsel : selected σ catalog n where_ c = true) (i : ℕ) :
    (decodeValues σ.types (updatedCell σ catalog n where_ as c).2)[i]? =
      ((decodeValues σ.types c.2)[i]?.map (assignAll (assignedTo as i))).map Value.stored := by
  have htypes : σ.types = (assigned as (decodeValues σ.types c.2)).map Value.columnType := by
    rw [map_columnType_assigned, map_columnType_decodeValues]
  have hcell : (updatedCell σ catalog n where_ as c).2 =
      rowBytes (assigned as (decodeValues σ.types c.2)) := by
    rw [updatedCell, if_pos hsel]
  rw [hcell, ← getElem?_assigned, ← List.getElem?_map, ← decodeValues_rowBytes_stored, ← htypes]

/-- The literals that are assigned to a column go with it. -/
theorem Assignable.assignedTo (ha : Assignable σ.types as) {i : ℕ} {v : Value} {bs : List UInt8}
    (hv : (decodeValues σ.types bs)[i]? = some v) :
    ∀ e ∈ MiniDB.assignedTo as i, typeMatches v.columnType.toByte e = true := by
  intro e he
  obtain ⟨a, hmem, rfl⟩ := List.mem_map.mp he
  obtain ⟨hmem, hi⟩ := List.mem_filter.mp hmem
  obtain ⟨ty, hty, hmatch⟩ := ha a hmem
  have htypes := congrArg (fun l => l[i]?) (map_columnType_decodeValues σ.types bs)
  rw [List.getElem?_map, hv, ← beq_iff_eq.mp hi, hty, Option.map_some, Option.some_inj] at htypes
  rw [htypes]
  exact hmatch

/-- The literals that are assigned to a column are literals of the statement. -/
theorem mem_assignedTo {i : ℕ} {e : Expr} (h : e ∈ assignedTo as i) : e ∈ as.map Prod.snd := by
  obtain ⟨a, hmem, rfl⟩ := List.mem_map.mp h
  exact List.mem_map_of_mem (List.mem_filter.mp hmem).1

/-- **One cell**: an `UPDATE` does with it what it says, unless the row is selected and some text
does not cover what was there before. -/
theorem rowUpdated_iff (ha : Assignable σ.types as) (hscan : AreScanned (as.map Prod.snd))
    (hfit : TextsFit (as.map Prod.snd)) :
    RowUpdated σ catalog n where_ as c (updatedCell σ catalog n where_ as c) ↔
      (selected σ catalog n where_ c = true → AssignmentsCover as (decodeValues σ.types c.2)) := by
  -- the value of a column to which something is assigned
  have hshows : selected σ catalog n where_ c = true → ∀ i es last v,
      assignedTo as i = es ++ [last] → (decodeValues σ.types c.2)[i]? = some v →
        ((∃ w, (decodeValues σ.types (updatedCell σ catalog n where_ as c).2)[i]? = some w ∧
          w.Shows last) ↔ Covers es last v) := by
    intro hsel i es last v hes hv
    have hall := ha.assignedTo hv
    have hscan' : AreScanned (assignedTo as i) := fun text ht => hscan text (mem_assignedTo ht)
    have hfit' : TextsFit (assignedTo as i) := fun text ht => hfit text (mem_assignedTo ht)
    rw [hes] at hall hscan' hfit'
    rw [← shows_assignAll_iff hall hscan' hfit', getElem?_decodeValues_updated _ hsel, hv, hes]
    simp
  constructor
  · intro h hsel i es last v hes hv
    refine (hshows hsel i es last v hes hv).mp (h.assigned hsel i last ?_)
    rw [hes]
    simp
  · intro h
    refine ⟨fst_updatedCell c, ?_, ?_, ?_⟩
    · intro hsel
      rw [updatedCell, if_neg (by rw [hsel]; decide)]
    · intro hsel i last hlast
      obtain ⟨es, hes⟩ := List.getLast?_eq_some_iff.mp hlast
      -- the column exists, for the assignment was checked
      obtain ⟨a, hmem, hi⟩ : ∃ a ∈ as, a.1 = i := by
        have hlastmem : last ∈ assignedTo as i := by
          rw [hes]
          simp
        obtain ⟨a, hmem, -⟩ := List.mem_map.mp hlastmem
        obtain ⟨hmem, hi⟩ := List.mem_filter.mp hmem
        exact ⟨a, hmem, beq_iff_eq.mp hi⟩
      obtain ⟨ty, hty, -⟩ := ha a hmem
      have hlt : i < (decodeValues σ.types c.2).length := by
        rw [length_decodeValues, ← hi]
        exact (List.getElem?_eq_some_iff.mp hty).1
      exact (hshows hsel i es last _ hes (List.getElem?_eq_getElem hlt)).mpr
        (h hsel i es last _ hes (List.getElem?_eq_getElem hlt))
    · intro hsel i hnone
      rw [getElem?_decodeValues_updated _ hsel, hnone]
      cases hv : (decodeValues σ.types c.2)[i]? with
      | none => rfl
      | some v =>
        have hnormal : v.Normal := normal_decodeValues v (List.mem_of_getElem? hv)
        exact congrArg some (stored_of_normal hnormal)

/-! ## The command -/

/-- What the `UPDATE` of a table is to do with its leaves: the cells stay in their places. -/
def Updates (s : Pager) (n : ℕ) (σ : Schema) (t : PageTreeAny) (where_ : Option Expr)
    (as : List (ℕ × Expr)) (s' : Pager) : Prop :=
  ∀ l ∈ t.2.leaves, List.Forall₂ (RowUpdated σ (s.page 0) n where_ as)
    (leafCells σ.rowSize (s.page l.page)) (leafCells σ.rowSize (s'.page l.page))

/-- **An `UPDATE` that passes the checks**, on a table whose pages are in order. -/
theorem Holds.updates_iff (h : Holds s table n σ t) (hlen : columns.length = values.length)
    (hres : resolveAssignments (s.page 0) n (columns.zip values) = .ok (.ok as))
    (hscan : AreScanned values) (hfit : TextsFit values) :
    (∃ s', updateCommand s table table.tableName columns values where_ =
        .ok (⟨.commandSuccess, []⟩, s') ∧ Updates s n σ t where_ as s') ↔
      ∀ c ∈ t.2.contents, (∀ f, ¬ Faulty σ (s.page 0) n where_ f c) ∧
        (selected σ (s.page 0) n where_ c = true →
          AssignmentsCover as (decodeValues σ.types c.2)) := by
  have hvalues : as.map Prod.snd = values :=
    (resolveAssignments_values hres).trans (List.map_snd_zip hlen.ge)
  have ha := (resolveAssignments_checked hres).assignable h.describes
  rw [← hvalues] at hscan hfit
  rcases updateCommand_fits h hlen hres where_ (fun _ _ => hfit) with
    ⟨f, ⟨c, hc, hbad⟩, herr⟩ | ⟨hgood, s', hrun, -, -, hedit, -⟩
  · constructor
    · rintro ⟨s', hok, -⟩
      rw [herr] at hok
      cases hok
    · intro hall
      exact absurd hbad ((hall c hc).1 f)
  · have hiff : Updates s n σ t where_ as s' ↔ ∀ c ∈ t.2.contents,
        selected σ (s.page 0) n where_ c = true →
          AssignmentsCover as (decodeValues σ.types c.2) := by
      have hleaf : ∀ l ∈ t.2.leaves, leafCells σ.rowSize (s.page l.page) = l.cells := by
        intro l hl
        obtain ⟨e, hpage⟩ := h.represents.stored.leafPage_of_mem hl
        exact hpage.cells
      have hrows : Updates s n σ t where_ as s' ↔ ∀ l ∈ t.2.leaves, ∀ c ∈ l.cells,
          RowUpdated σ (s.page 0) n where_ as c (updatedCell σ (s.page 0) n where_ as c) := by
        refine forall₂_congr fun l hl => ?_
        rw [(hedit.leaf l hl).cells, hleaf l hl, List.forall₂_map_right_iff, List.forall₂_same]
      rw [hrows]
      constructor
      · intro hall c hc
        obtain ⟨l, hl, hcl⟩ := mem_contents.mp hc
        exact (rowUpdated_iff ha hscan hfit).mp (hall l hl c hcl)
      · intro hall l hl c hc
        exact (rowUpdated_iff ha hscan hfit).mpr (hall c (mem_contents.mpr ⟨l, hl, hc⟩))
    constructor
    · rintro ⟨s'', hok, hupdates⟩ c hc
      rw [hrun] at hok
      cases hok
      exact ⟨fun f => hgood f c hc, hiff.mp hupdates c hc⟩
    · exact fun hall => ⟨s', hrun, hiff.mpr fun c hc => (hall c hc).2⟩

/-- **`UPDATE` does exactly what it says** just when the condition can be tested on every row and,
in every row it selects, each text covers what was in its column before. -/
theorem updateCommand_updates_iff (h : Reachable Finishes s)
    (hfind : catalogNodeFindTable (s.page 0) name = .ok (some n))
    (hlen : columns.length = values.length)
    (hres : resolveAssignments (s.page 0) n (columns.zip values) = .ok (.ok as))
    (hscan : AreScanned values) (hfit : TextsFit values) (where_ : Option Expr) :
    (∃ σ t, Holds s (openTable s n name) n σ t) ∧ ∀ σ t, Holds s (openTable s n name) n σ t →
      ((∃ s', updateCommand s (openTable s n name) name columns values where_ =
          .ok (⟨.commandSuccess, []⟩, s') ∧ Updates s n σ t where_ as s') ↔
        ∀ c ∈ t.2.contents, (∀ f, ¬ Faulty σ (s.page 0) n where_ f c) ∧
          (selected σ (s.page 0) n where_ c = true →
            AssignmentsCover as (decodeValues σ.types c.2))) := by
  obtain ⟨ts, hdb⟩ := h.database
  obtain ⟨x, -, hholds⟩ := hdb.holds hfind
  exact ⟨⟨x.schema, x.tree, hholds⟩, fun σ t h' => h'.updates_iff hlen hres hscan hfit⟩

/-- A row whose text is empty, and a longer text. -/
theorem updateCommand_updates_iff_notes : ∃ s, Reachable Finishes s ∧ ∃ t,
    Holds s (openTable s 0 notesName) 0 (schemaOf notes validNotes) t ∧ t.2.contents ≠ [] ∧
      ∃ s', updateCommand s (openTable s 0 notesName) notesName [.column [97]]
          [.literalString [120]] none = .ok (⟨.commandSuccess, []⟩, s') ∧
        Updates s 0 (schemaOf notes validNotes) t none [(1, .literalString [120])] s' := by
  obtain ⟨s, hreach, h, -⟩ := exists_textRow [] (Nat.zero_le _)
  have hlen : [Expr.column [97]].length = [Expr.literalString [120]].length := rfl
  have hfit : TextsFit [.literalString [120]] := textsFit_text (by decide)
  have hiff := (updateCommand_updates_iff hreach h.find hlen (h.resolveAssignments_text [120])
    (areScanned_text (by decide)) hfit none).2 _ _ h.holds
  refine ⟨s, hreach, _, h.holds, List.cons_ne_nil _ _, hiff.mpr ?_⟩
  intro c hc
  rw [Tree.contents_zero] at hc
  rw [List.mem_singleton.mp hc]
  refine ⟨fun f hf => absurd hf (by rintro ⟨⟩), fun _ => ?_⟩
  refine (assignmentsCover_singleton (decodeValues_textCell [] (Nat.zero_le _) (by decide))).mpr ?_
  rintro _ ⟨⟩
  exact Or.inr ⟨rfl, fun _ h' => absurd h' List.not_mem_nil⟩

/-- The text `ab` is updated to `x` and reads back as `xb`. -/
theorem not_updateCommand_updates : ∃ s, Reachable Finishes s ∧ ∃ t s',
    Holds s (openTable s 0 notesName) 0 (schemaOf notes validNotes) t ∧
      updateCommand s (openTable s 0 notesName) notesName [.column [97]]
          [.literalString [120]] none = .ok (⟨.commandSuccess, []⟩, s') ∧
      ¬ Updates s 0 (schemaOf notes validNotes) t none [(1, .literalString [120])] s' ∧
      ∃ c ∈ leafCells (schemaOf notes validNotes).rowSize (s'.page 1),
        ∃ field, (decodeValues (schemaOf notes validNotes).types c.2)[1]? = some (.text field 2) ∧
          field.1.take 2 = [120, 98] := by
  obtain ⟨s, hreach, h, -⟩ := exists_textRow [97, 98] (by decide)
  have hvalue := decodeValues_textCell [97, 98] (by decide) (by decide)
  have hlen : [Expr.column [97]].length = [Expr.literalString [120]].length := rfl
  have hfit : TextsFit [.literalString [120]] := textsFit_text (by decide)
  have hres := h.resolveAssignments_text [120]
  have hcontents : (Tree.leaf 1 [textCell [97, 98]] : PageTree 0).contents =
      [textCell [97, 98]] := Tree.contents_zero _
  have hsel : selected (schemaOf notes validNotes) (s.page 0) 0 none (textCell [97, 98]) = true :=
    rfl
  rcases updateCommand_fits h.holds hlen hres none (fun _ _ => hfit) with
    ⟨f, ⟨c, -, hbad⟩, -⟩ | ⟨-, s', hrun, -, -, hedit, -⟩
  · cases hbad
  · refine ⟨s, hreach, _, s', h.holds, hrun, ?_, ?_⟩
    · intro hupdates
      have hall := (h.holds.updates_iff hlen hres (areScanned_text (by decide)) hfit).mp
        ⟨s', hrun, hupdates⟩
      have hcovers := (hall (textCell [97, 98]) (by rw [hcontents]; simp)).2 hsel
      rcases (assignmentsCover_singleton hvalue).mp hcovers [120] rfl with hfull | ⟨hbyte, -⟩
      · exact absurd hfull (by decide)
      · exact absurd hbyte (by decide)
    · obtain ⟨e, hleaf⟩ := h.holds.represents.stored.leafPage_of_mem
        (l := ⟨1, [textCell [97, 98]]⟩) (List.mem_singleton_self _)
      have hcells := (hedit.leaf ⟨1, [textCell [97, 98]]⟩ (List.mem_singleton_self _)).cells
      rw [hleaf.cells] at hcells
      have hread := getElem?_decodeValues_updated [(1, .literalString [120])] hsel 1
      rw [hvalue] at hread
      refine ⟨_, ?_, (TextField.zero.overwrite [97, 98]).overwrite [120], hread, rfl⟩
      rw [hcells]
      exact List.mem_singleton_self _

/-! ## An `UPDATE` that fails -/

/-- **A failed `UPDATE` has changed no byte of any page**, whatever the pages hold. -/
theorem updateCommand_failed {columns values : List Expr} {o : Outcome}
    (h : updateCommand s table table.tableName columns values where_ = .ok (o, s'))
    (hr : o.result ≠ .commandSuccess) : s'.page = s.page := by
  rw [updateCommand] at h
  obtain ⟨n, hfind, h⟩ := bind_eq_ok h
  simp only at h
  split at h
  · cases h
    rfl
  obtain ⟨found, hres, h⟩ := bind_eq_ok h
  cases found with
  | error line =>
    cases h
    rfl
  | ok as =>
    simp only at h
    cases hget : pagerGetPage s table.rootPageNum with
    | none =>
      rw [hget] at h
      cases h
      rfl
    | some s₁ =>
      rw [hget] at h
      obtain ⟨⟨leaf, s₂⟩, hfirst, h⟩ := bind_eq_ok h
      have hpage := (page_firstLeaf hfirst).trans (page_pagerGetPage hget)
      cases leaf with
      | none => cases h
      | some leaf =>
        by_cases hfit : TextsFit (as.map Prod.snd)
        · exact absurd (updateLeaves_fits hfit h) hr
        · have hcheck := resolveAssignments_checked hres
          rw [updateLeaves_long (by rw [hpage]; exact hfind) (by rw [hpage]; exact hcheck) hfit h,
            hpage]

/-- A text that is too long, found when a row is there to be updated. -/
theorem updateCommand_failed_notes : ∃ s s', Reachable Finishes s ∧
    updateCommand s (openTable s 0 notesName) notesName [.column [97]]
      [.literalString (List.replicate 256 120)] none = .ok (⟨.failure, [textTooLong]⟩, s') ∧
      s'.page = s.page := by
  obtain ⟨s, hreach, h, -⟩ := exists_textRow [] (Nat.zero_le _)
  have hlen : [Expr.column [97]].length =
    [Expr.literalString (List.replicate 256 120)].length := rfl
  have hlong : ¬ TextsFit ([((1 : ℕ), Expr.literalString (List.replicate 256 120))].map
      Prod.snd) := by
    intro hfit
    have hle := hfit _ (List.mem_singleton_self _)
    rw [List.length_replicate] at hle
    exact absurd hle (by decide)
  rcases updateCommand_long h.holds hlen (h.resolveAssignments_text _) none hlong with
    ⟨f, ⟨c, -, hbad⟩, -⟩ | ⟨s', -, ⟨-, hrun⟩ | ⟨hnone, -⟩⟩
  · cases hbad
  · exact ⟨s, s', hreach, hrun, updateCommand_failed hrun (by decide)⟩
  · exact absurd rfl (hnone (textCell []) (List.mem_singleton_self _))

end MiniDB
