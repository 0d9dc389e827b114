import MiniDB.Statements.Update

/-!
# An `UPDATE` that fails

The length of a text is checked inside the loop over the rows, when pages may have been written.
It is the same for every row, though: either no row fails the check, or the first row that is
selected does.  This needs nothing of the state, not even that the pages hold a tree.

* `updateLeaves_fits`: when every text fits, the loop does not fail.
* `updateLeaves_long`: when one does not, the loop writes nothing.
-/

namespace MiniDB

open Pager

variable {s s' : Pager} {table : Table} {n rowSize : ℕ} {where_ : Option Expr}
  {as : List (ℕ × Expr)} {catalog : Page}

/-! ## Reading pages -/

theorem page_firstLeaf {fuel k : ℕ} {r : Option ℕ} (h : firstLeaf fuel s k = .ok (r, s')) :
    s'.page = s.page := by
  induction fuel generalizing s k with
  | zero => cases h
  | succ fuel ih =>
    rw [firstLeaf] at h
    split at h
    · split at h
      · cases h
        rfl
      next hget => rw [ih h, page_pagerGetPage hget]
    · cases h
      rfl

/-! ## Every text fits -/

/-- One assignment of a text that fits. -/
theorem assignValue_ne_none {e : Expr} (hfit : TextFits e) (v : Value) :
    assignValue e v ≠ .ok none := by
  intro h
  cases v with
  | integer m =>
    obtain ⟨a, -, h⟩ := bind_eq_ok h
    cases h
  | text field length =>
    cases e with
    | literalString text =>
      have hlen := hfit text rfl
      simp only [assignValue, Expr.asLiteralString, bind, Except.bind,
        if_neg (not_lt.mpr hlen)] at h
      cases h
    | _ => cases h
  | boolean b =>
    obtain ⟨a, -, h⟩ := bind_eq_ok h
    cases h

theorem assignValues_ne_none (hfit : TextsFit (as.map Prod.snd)) (vs : List Value) :
    assignValues as vs ≠ .ok none := by
  induction as generalizing vs with
  | nil => simp [assignValues]
  | cons a as ih =>
    obtain ⟨i, e⟩ := a
    rw [List.map_cons, textsFit_cons] at hfit
    intro h
    rw [assignValues] at h
    cases hv : vs[i]? with
    | none =>
      rw [hv] at h
      cases h
    | some old =>
      rw [hv] at h
      obtain ⟨r, hone, h⟩ := bind_eq_ok h
      cases r with
      | none => exact assignValue_ne_none hfit.1 old hone
      | some new => exact ih hfit.2 _ h

theorem updateCells_fits (hfit : TextsFit (as.map Prod.snd)) {leaf : ℕ} {is : List ℕ}
    {through dirty dirty' : Bool}
    (h : updateCells table n rowSize where_ as leaf is dirty s = .ok (through, dirty', s')) :
    through = true := by
  induction is generalizing s dirty with
  | nil =>
    cases h
    rfl
  | cons i is ih =>
    rw [updateCells] at h
    obtain ⟨row, -, h⟩ := bind_eq_ok h
    obtain ⟨b, -, h⟩ := bind_eq_ok h
    cases b with
    | false => exact ih h
    | true =>
      obtain ⟨r, hassign, h⟩ := bind_eq_ok h
      cases r with
      | none => exact absurd hassign (assignValues_ne_none hfit row.values)
      | some vs => exact ih h

/-- **When every text fits, the loop does not fail.** -/
theorem updateLeaves_fits (hfit : TextsFit (as.map Prod.snd)) {fuel leaf : ℕ} {o : Outcome}
    (h : updateLeaves table n rowSize where_ as fuel s leaf = .ok (o, s')) :
    o.result = .commandSuccess := by
  induction fuel generalizing s leaf with
  | zero => cases h
  | succ fuel ih =>
    rw [updateLeaves] at h
    obtain ⟨⟨through, dirty, s₁⟩, hcells, h⟩ := bind_eq_ok h
    obtain rfl := updateCells_fits hfit hcells
    simp only [Bool.not_true, Bool.false_eq_true, if_false] at h
    obtain ⟨s₂, hs₂⟩ : ∃ s₂, s₂ = if dirty then pagerMarkDirty s₁ leaf else s₁ := ⟨_, rfl⟩
    rw [← hs₂] at h
    split at h
    · cases h
      rfl
    · split at h
      · cases h
        rfl
      · exact ih h

/-! ## A text is too long -/

/-- The type bytes of the values that were read are those that are stored. -/
theorem deserializeValues_types {page : Page} {ts : List UInt8} {offset : ℕ} {vs : List Value}
    (h : deserializeValues page ts offset = .ok vs) :
    vs.map (fun v => v.columnType.toByte) = ts := by
  induction ts generalizing offset vs with
  | nil =>
    cases h
    rfl
  | cons t ts ih =>
    rw [deserializeValues] at h
    obtain ⟨v, hv, h⟩ := bind_eq_ok h
    obtain ⟨vs', hrest, h⟩ := bind_eq_ok h
    cases h
    rw [List.map_cons, ih hrest]
    congr 1
    unfold deserializeValue at hv
    split at hv
    next ht =>
      cases hv
      exact ht.symm
    · split at hv
      next ht =>
        cases hv
        exact ht.symm
      · split at hv
        next ht =>
          cases hv
          exact ht.symm
        · cases hv

/-- Assignments with a text that is too long are refused. -/
theorem assignValues_long (hlong : ¬ TextsFit (as.map Prod.snd)) {vs vs' : List Value}
    (hcheck : Checked catalog n as)
    (hvs : vs.map (fun v => v.columnType.toByte) = storedTypes catalog n) :
    assignValues as vs ≠ .ok (some vs') := by
  have ha : Assignable (vs.map Value.columnType) as := by
    intro a ha
    obtain ⟨hlt, hmatch⟩ := hcheck a ha
    have hlen : (vs.map fun v => v.columnType.toByte).length =
        catalogNodeColumnCount catalog n := by
      rw [hvs, storedTypes, List.length_map, List.length_range]
    rw [List.length_map] at hlen
    have hi : a.1 < vs.length := hlen ▸ hlt
    refine ⟨vs[a.1].columnType, by simp [hi], ?_⟩
    have hget := List.getElem_of_eq hvs (i := a.1) (by simpa using hi)
    simp only [List.getElem_map, storedTypes, List.getElem_range] at hget
    rw [hget]
    exact hmatch
  rcases assignValues_eq ha rfl with ⟨hfit, -⟩ | ⟨-, heq⟩
  · exact absurd hfit hlong
  · rw [heq]
    rintro ⟨⟩

theorem updateCells_long (hfind : findTable (s.page 0) table.tableName = .ok n)
    (hcheck : Checked (s.page 0) n as) (hlong : ¬ TextsFit (as.map Prod.snd)) {leaf : ℕ}
    {is : List ℕ} {through dirty dirty' : Bool}
    (h : updateCells table n rowSize where_ as leaf is dirty s = .ok (through, dirty', s')) :
    s' = s := by
  induction is generalizing dirty with
  | nil =>
    cases h
    rfl
  | cons i is ih =>
    rw [updateCells] at h
    obtain ⟨row, hrow, h⟩ := bind_eq_ok h
    obtain ⟨b, -, h⟩ := bind_eq_ok h
    cases b with
    | false => exact ih h
    | true =>
      obtain ⟨r, hassign, h⟩ := bind_eq_ok h
      cases r with
      | none =>
        cases h
        rfl
      | some vs =>
        unfold deserializeRow at hrow
        obtain ⟨n', hfind', hrow⟩ := bind_eq_ok hrow
        cases hfind.symm.trans hfind'
        obtain ⟨vs₀, hvs₀, hrow⟩ := bind_eq_ok hrow
        cases hrow
        exact absurd hassign (assignValues_long hlong hcheck (deserializeValues_types hvs₀))

/-- **When a text is too long, the loop writes nothing.** -/
theorem updateLeaves_long (hfind : findTable (s.page 0) table.tableName = .ok n)
    (hcheck : Checked (s.page 0) n as) (hlong : ¬ TextsFit (as.map Prod.snd)) {fuel leaf : ℕ}
    {o : Outcome} (h : updateLeaves table n rowSize where_ as fuel s leaf = .ok (o, s')) :
    s'.page = s.page := by
  induction fuel generalizing s leaf with
  | zero => cases h
  | succ fuel ih =>
    rw [updateLeaves] at h
    obtain ⟨⟨through, dirty, s₁⟩, hcells, h⟩ := bind_eq_ok h
    obtain rfl := updateCells_long hfind hcheck hlong hcells
    cases through with
    | false =>
      cases h
      rfl
    | true =>
      simp only [Bool.not_true, Bool.false_eq_true, if_false] at h
      obtain ⟨s₂, hs₂⟩ : ∃ s₂, s₂ = if dirty then pagerMarkDirty s₁ leaf else s₁ := ⟨_, rfl⟩
      have hpage₂ : s₂.page = s₁.page := by
        rw [hs₂]
        cases dirty <;> rfl
      rw [← hs₂] at h
      split at h
      · cases h
        exact hpage₂
      · split at h
        · cases h
          exact hpage₂
        next hget =>
          have hpage₃ := (page_pagerGetPage hget).trans hpage₂
          rw [ih (by rw [hpage₃]; exact hfind) (by rw [hpage₃]; exact hcheck) h, hpage₃]

end MiniDB
