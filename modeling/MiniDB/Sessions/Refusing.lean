import MiniDB.Sessions.Failing

/-!
# A `CREATE TABLE` that is refused

`create_table` looks at the number of tables before it writes anything, and at the length of a
column name when it has taken a page and written the name of the table and the columns in front.

* `LeavesNoTrace`: the catalog and the count of pages are as they were, and so is what all later
  lines answer.
* `createTable_written`: what is behind a `CREATE TABLE` for which the catalog has room.
* `createTable_leavesNoTrace_iff`: **only a full catalog is refused without a trace**.
* `not_leavesNoTrace_slot`: the next table gets the end of the name that was refused.
-/

namespace MiniDB

open BPlusTree Pager

variable {s s' : Pager} {name : List UInt8} {definitions : List ColumnDefinition}
  {o : Outcome} {n : ℕ}

/-- What lines answer, one after the other. -/
def outcomes (s : Pager) : List (List UInt8) → Exec (List Outcome)
  | [] => .ok []
  | line :: lines => do
    let (o, s) ← processCommand s line
    return o :: (← outcomes s lines)

/-- The catalog page is the same byte for byte, no page was consumed, and every sequence of lines
answers what it would have answered before. -/
structure LeavesNoTrace (s s' : Pager) : Prop where
  catalog : ∀ i < pageSize, s'.page 0 i = s.page 0 i
  numPages : s'.numPages = s.numPages
  outcomes : ∀ lines, outcomes s' lines = outcomes s lines

/-- **When the catalog has room**, a page is taken before the names of the columns are looked at; if
one of them is too long, the entry is left behind as far as it was written. -/
theorem createTable_written (h : createTable s name definitions = .ok (o, s'))
    (hroom : catalogNodeNumTables (s.page 0) < maxCatalogTables) :
    s.numPages < s'.numPages ∧
      (0 < s.numPages → (∃ d ∈ definitions, columnNameSize < d.name.length) →
        s'.page 0 = (writeColumns (catalogNodeNumTables (s.page 0)) 0 definitions
          (entryHead (s.page 0) (catalogNodeNumTables (s.page 0)) s.numPages name
            definitions.length)).2) := by
  unfold createTable at h
  simp only [if_neg (not_le.mpr hroom), pagerAllocatePage] at h
  obtain ⟨s₁, hs₁⟩ : ∃ s₁, s₁ = { s with numPages := s.numPages + 1 } := ⟨_, rfl⟩
  have hpage₁ : s₁.page = s.page := by
    rw [hs₁]
    rfl
  have hnum₁ : s₁.numPages = s.numPages + 1 := by rw [hs₁]
  rw [← hs₁] at h
  cases hget : pagerGetPage s₁ s.numPages with
  | none =>
    rw [hget] at h
    cases h
  | some s₂ =>
    rw [hget] at h
    have hnum : s₁.numPages ≤ s₂.numPages := numPages_pagerGetPage hget
    have hpage : s₂.page = s.page := (page_pagerGetPage hget).trans hpage₁
    obtain ⟨s₃, hs₃⟩ : ∃ s₃, s₃ = s₂.setPage s.numPages (leafNodeInit (s₂.page s.numPages)) :=
      ⟨_, rfl⟩
    have hnum₃ : s₃.numPages = s₂.numPages := by rw [hs₃, numPages_setPage]
    simp only [bind, Except.bind, ← hs₃] at h
    split at h
    · cases h
    · rw [← entryHead] at h
      obtain ⟨⟨through, page⟩, hout⟩ : ∃ out, writeColumns (catalogNodeNumTables (s.page 0)) 0
          definitions (entryHead (s₃.page 0) (catalogNodeNumTables (s.page 0)) s.numPages name
            definitions.length) = out := ⟨_, rfl⟩
      rw [hout] at h
      refine ⟨?_, ?_⟩
      · cases through <;> cases h
        · show s.numPages < s₃.numPages
          omega
        · show s.numPages < s₃.numPages
          omega
      · rintro hpos ⟨d, hd, hlong⟩
        have hstops := writeColumns_stops (n := catalogNodeNumTables (s.page 0)) hd hlong 0
          (entryHead (s₃.page 0) (catalogNodeNumTables (s.page 0)) s.numPages name
            definitions.length)
        have hzero : s₃.page 0 = s.page 0 := by
          rw [hs₃, page_setPage, Function.update_of_ne (by omega), hpage]
        rw [hout] at hstops
        obtain rfl : through = false := hstops
        cases h
        rw [hzero] at hout
        rw [page_setPage, Function.update_self, hout]

/-- A full catalog is refused at once. -/
theorem createTable_full (hfull : maxCatalogTables ≤ catalogNodeNumTables (s.page 0)) :
    createTable s name definitions =
      .ok (⟨.commandSuccess, [ascii "MAX TABLES NUMBER REACHED! "]⟩, s) := by
  unfold createTable
  simp only [if_pos hfull]
  rfl

/-- **A `CREATE TABLE` leaves no trace just when it is refused because the catalog is full**; one
that is refused over the name of a column always leaves one. -/
theorem createTable_leavesNoTrace_iff (h : createTable s name definitions = .ok (o, s')) :
    LeavesNoTrace s s' ↔ maxCatalogTables ≤ catalogNodeNumTables (s.page 0) := by
  constructor
  · intro htrace
    by_contra hroom
    have hlt := (createTable_written h (not_le.mp hroom)).1
    exact absurd htrace.numPages hlt.ne'
  · intro hfull
    rw [createTable_full hfull] at h
    cases h
    exact ⟨fun _ _ => rfl, rfl, fun _ => rfl⟩

/-! ## The entry that is left behind -/

/-- A `CREATE TABLE` in a new database that is refused over the name of a column. -/
theorem exists_refused (hname : Storable name) (hv : ValidDefinitions definitions)
    (hlong : ∃ d ∈ definitions, columnNameSize < d.name.length) :
    ∃ s s', openDatabase Disk.empty = some s ∧
      catalogNodeNumTables (s.page 0) = 0 ∧
      createTable s name definitions =
        .ok (⟨.commandSuccess, [ascii "Column name too long"]⟩, s') ∧ Database s' [] ∧
      catalogNodeName (s'.page 0) 0 = nameField name ∧ s'.numPages = 2 := by
  obtain ⟨s, hopen, hsound, hnum, hzero, -⟩ := openDatabase_empty
  have hdb : Database s [] := by
    obtain ⟨s₁, hopen₁, h⟩ := database_empty
    rwa [Option.some_inj.mp (hopen.symm.trans hopen₁)]
  have hcount := numTables_of_zero hzero
  have hlen := hname.1.le
  have hroom : catalogNodeNumTables (s.page 0) < maxCatalogTables := by
    rw [hcount]
    decide
  obtain ⟨s', hr, hnum', hev, hbytes⟩ := createTable_refused hsound hdb.pos hroom
    (by rw [hnum]; decide) hlen hv hlong
  have hpage := (createTable_written hr hroom).2 hdb.pos hlong
  rw [hcount] at hpage
  refine ⟨s, s', hopen, hcount, hr, hdb.refused hev hbytes, ?_, by omega⟩
  rw [hpage, catalogNodeName_entryHead (fun k hk hpk => writeColumns_head _ _ _ hk hpk),
    catalogNodeName_of_zero hzero, List.drop_replicate, ← nameField]
  exact List.take_of_length_le (length_nameField hlen).le

/-- The refused `CREATE TABLE` in a new database. -/
theorem createTable_leavesNoTrace_iff_wider : ∃ s s', openDatabase Disk.empty = some s ∧
    createTable s (ascii "notebooks") wider =
      .ok (⟨.commandSuccess, [ascii "Column name too long"]⟩, s') ∧ ¬ LeavesNoTrace s s' := by
  obtain ⟨s, s', hopen, hcount, hrun, -⟩ :=
    exists_refused (show Storable (ascii "notebooks") by decide) validWider
      ⟨_, List.mem_singleton_self _, by decide⟩
  refine ⟨s, s', hopen, hrun, (createTable_leavesNoTrace_iff hrun).not.mpr ?_⟩
  rw [hcount]
  decide

/-- The table `notebooks` is refused over the name of its column; the table `notes`, which is
created next, is not found, while without the refused statement it is. -/
theorem not_leavesNoTrace_slot : ∃ s s' s₁ s₂, openDatabase Disk.empty = some s ∧
    createTable s (ascii "notebooks") wider =
      .ok (⟨.commandSuccess, [ascii "Column name too long"]⟩, s') ∧ ¬ LeavesNoTrace s s' ∧
    execute s (.createTable notesName notes) = .ok (⟨.commandSuccess, []⟩, s₁) ∧
    catalogNodeFindTable (s₁.page 0) notesName = .ok (some 0) ∧
    execute s' (.createTable notesName notes) = .ok (⟨.commandSuccess, []⟩, s₂) ∧
    catalogNodeFindTable (s₂.page 0) notesName = .ok none := by
  have hlong : ∃ d ∈ wider, columnNameSize < d.name.length :=
    ⟨_, List.mem_singleton_self _, by decide⟩
  obtain ⟨s, s', hopen, -, hrefused, hdb', hfield, hnum'⟩ :=
    exists_refused (show Storable (ascii "notebooks") by decide) validWider hlong
  obtain ⟨s₀, s₁, hopen₀, hrun₁, h₁, -⟩ := execute_create storable_notesName validNotes (by decide)
  obtain rfl : s = s₀ := Option.some_inj.mp (hopen.symm.trans hopen₀)
  have hcount' : catalogNodeNumTables (s'.page 0) = 0 := hdb'.count
  have htrace : ¬ LeavesNoTrace s s' := by
    intro htrace
    obtain ⟨s₂, hopen₂, -, hnum, -⟩ := openDatabase_empty
    obtain rfl : s = s₂ := Option.some_inj.mp (hopen.symm.trans hopen₂)
    have hsame := htrace.numPages
    omega
  have hnone : catalogNodeFindTable (s'.page 0) notesName = .ok none := by
    rw [catalogNodeFindTable, hcount']
    rfl
  have hlength : notesName.length ≤ columnNameSize := by decide
  obtain ⟨s₂, hr, hc⟩ := createTable_created hdb'.sound hdb'.pos (by rw [hcount']; decide)
    (by rw [hnum']; decide) hlength validNotes (by decide)
  have hname := hc.name
  have hcount := hc.count
  rw [hcount'] at hname hcount
  rw [hfield] at hname
  refine ⟨s, s', s₁, s₂, hopen, hrefused, htrace, hrun₁, h₁.find, ?_, ?_⟩
  · rw [execute_createTable hnone, hr]
  · -- the field holds `notesooks`
    rw [catalogNodeFindTable, hcount]
    show (nameEquals notesName (catalogNodeName (s₂.page 0) 0) >>= _) = _
    rw [hname]
    have hother : nameEquals notesName
        ((notesName ++
          (nameField (ascii "notebooks")).drop notesName.length).take columnNameSize) =
          .ok false := by decide
    rw [hother]
    rfl

end MiniDB
