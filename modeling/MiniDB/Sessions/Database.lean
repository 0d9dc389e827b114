import MiniDB.Model.Command
import MiniDB.Statements.Create
import MiniDB.Statements.Delete
import MiniDB.Statements.Update
import MiniDB.Storage.Closing

/-!
# Databases

`Database s ts` says that the pages of `s` hold a whole database: the catalog describes the tables
`ts`, and each of them has a tree of its own.

* `TableInfo`, `Database`: the tables, and the invariant.
* `Database.holds`: the table that a statement is about.
* `Database.outside`, `Database.replace`, `Database.append`: the steps that keep the invariant.
-/

namespace MiniDB

open BPlusTree Pager

/-- A table: its schema and its rows. -/
structure TableInfo where
  schema : Schema
  tree : PageTreeAny

/-- **The pages hold the tables.** -/
structure Database (s : Pager) (ts : List TableInfo) : Prop where
  sound : s.Sound
  pos : 0 < s.numPages
  count : catalogNodeNumTables (s.page 0) = ts.length
  bounded : ts.length ≤ maxCatalogTables
  describes : ∀ (n : ℕ) (x : TableInfo), ts[n]? = some x → Describes (s.page 0) n x.schema
  root : ∀ (n : ℕ) (x : TableInfo), ts[n]? = some x →
    catalogNodeRootPage (s.page 0) n = x.tree.2.page
  represents : ∀ (n : ℕ) (x : TableInfo), ts[n]? = some x → Represents s x.schema.rowSize x.tree
  disjoint : ∀ (n m : ℕ) (x y : TableInfo), ts[n]? = some x → ts[m]? = some y → n ≠ m →
    ∀ q ∈ x.tree.2.labels, q ∉ y.tree.2.labels

variable {s s' : Pager} {ts : List TableInfo} {n : ℕ} {x : TableInfo} {M : Set ℕ}

/-- A page of a table exists. -/
theorem Database.page_lt (h : Database s ts) (hx : ts[n]? = some x) {q : ℕ}
    (hq : q ∈ x.tree.2.labels) : q < s.numPages :=
  (h.represents n x hx).good.pages q hq

/-- **The table that a statement is about.** -/
theorem Database.holds (h : Database s ts) {name : List UInt8}
    (hfind : catalogNodeFindTable (s.page 0) name = .ok (some n)) :
    ∃ x, ts[n]? = some x ∧ Holds s (openTable s n name) n x.schema x.tree := by
  have hlt := List.mem_range.mp (findFirst_mem hfind)
  rw [h.count] at hlt
  refine ⟨ts[n], List.getElem?_eq_getElem hlt, h.sound, ?_, ?_, ?_, ?_⟩
  · show findTable (s.page 0) name = .ok n
    rw [findTable, hfind]
    rfl
  · exact h.describes n _ (List.getElem?_eq_getElem hlt)
  · exact h.represents n _ (List.getElem?_eq_getElem hlt)
  · exact (h.root n _ (List.getElem?_eq_getElem hlt)).symm

/-! ## Steps -/

theorem Disk.whole_empty : Disk.empty.Whole := ⟨dvd_zero _, Nat.zero_le _, fun _ _ => rfl⟩

/-- A new database file: one page, all of whose bytes are zero. -/
theorem openDatabase_empty : ∃ s, openDatabase Disk.empty = some s ∧ s.Sound ∧ s.numPages = 1 ∧
    (∀ i < pageSize, s.page 0 i = 0) ∧ s.disk = Disk.empty := by
  obtain ⟨s, hopen, hsound, hdisk, hnum, -, hpage⟩ := openDatabase_whole Disk.whole_empty
  exact ⟨s, hopen, hsound, hnum, hpage 0, hdisk⟩

/-- A page of zeros is an empty catalog. -/
theorem numTables_of_zero {p : Page} (h : ∀ i < pageSize, p i = 0) :
    catalogNodeNumTables p = 0 := by
  have hread : p.read tableCountOffset 4 = Mem.read (fun _ => 0) tableCountOffset 4 := by
    refine Mem.read_congr ?_
    intro i hi
    refine h _ ?_
    rw [tableCountOffset, pageSize]
    omega
  exact (Mem.readNat_congr hread).trans (by decide)

/-- The database that was just created. -/
theorem database_empty : ∃ s, openDatabase Disk.empty = some s ∧ Database s [] := by
  obtain ⟨s, hopen, hsound, hnum, hzero, -⟩ := openDatabase_empty
  refine ⟨s, hopen, hsound, by omega, numTables_of_zero hzero, Nat.zero_le _, ?_, ?_, ?_, ?_⟩
  all_goals
    intro n
    intros
    simp_all

/-- A step that leaves all pages there are alone. -/
theorem Database.outside (h : Database s ts) (hev : Evolves s s' {q | s.numPages ≤ q} M) :
    Database s' ts := by
  have hpage : ∀ q < s.numPages, s'.page q = s.page q := fun q hq =>
    hev.page q (not_le.mpr hq)
  have hzero := hpage 0 h.pos
  refine ⟨hev.sound, h.pos.trans_le hev.numPages, ?_, h.bounded, ?_, ?_, ?_, h.disjoint⟩
  · rw [hzero, h.count]
  · rw [hzero]
    exact h.describes
  · rw [hzero]
    exact h.root
  · intro n x hx
    exact (h.represents n x hx).frame (fun q hq => hpage q (h.page_lt hx hq)) hev.numPages

/-- A table after one was rewritten is that one, or it is as it was. -/
theorem getElem?_set_cases {y z : TableInfo} {m : ℕ} (hx : ts[n]? = some x)
    (hz : (ts.set n y)[m]? = some z) : (m = n ∧ z = y) ∨ (m ≠ n ∧ ts[m]? = some z) := by
  have hn : n < ts.length := (List.getElem?_eq_some_iff.mp hx).1
  by_cases heq : m = n
  · subst heq
    rw [List.getElem?_set_self hn, Option.some_inj] at hz
    exact Or.inl ⟨rfl, hz.symm⟩
  · rw [List.getElem?_set_ne (Ne.symm heq)] at hz
    exact Or.inr ⟨heq, hz⟩

/-- A step that rewrites one table. -/
theorem Database.replace (h : Database s ts) (hx : ts[n]? = some x) {t : PageTreeAny}
    (hev : Evolves s s' {q | q ∈ x.tree.2.labels ∨ s.numPages ≤ q} M)
    (ht : Represents s' x.schema.rowSize t) (hpage : t.2.page = x.tree.2.page)
    (hlabels : ∀ q ∈ t.2.labels, q ∈ x.tree.2.labels ∨ s.numPages ≤ q) :
    Database s' (ts.set n ⟨x.schema, t⟩) := by
  have hn : n < ts.length := (List.getElem?_eq_some_iff.mp hx).1
  have hzero : s'.page 0 = s.page 0 := by
    refine hev.page 0 ?_
    rintro (hq | hq)
    · exact (h.represents n x hx).zero hq
    · exact absurd hq (not_le.mpr h.pos)
  have hcases : ∀ m y, (ts.set n ⟨x.schema, t⟩)[m]? = some y →
      (m = n ∧ y = ⟨x.schema, t⟩) ∨ (m ≠ n ∧ ts[m]? = some y) := fun m y hy =>
    getElem?_set_cases hx hy
  refine ⟨hev.sound, h.pos.trans_le hev.numPages, ?_, ?_, ?_, ?_, ?_, ?_⟩
  · rw [hzero, h.count, List.length_set]
  · rw [List.length_set]
    exact h.bounded
  · intro m y hy
    rw [hzero]
    rcases hcases m y hy with ⟨rfl, rfl⟩ | ⟨-, hy⟩
    · exact h.describes m x hx
    · exact h.describes m y hy
  · intro m y hy
    rw [hzero]
    rcases hcases m y hy with ⟨rfl, rfl⟩ | ⟨-, hy⟩
    · exact (h.root m x hx).trans hpage.symm
    · exact h.root m y hy
  · intro m y hy
    rcases hcases m y hy with ⟨rfl, rfl⟩ | ⟨hne, hy⟩
    · exact ht
    · refine (h.represents m y hy).frame (fun q hq => hev.page q ?_) hev.numPages
      rintro (hq' | hq')
      · exact h.disjoint m n y x hy hx hne q hq hq'
      · exact absurd (h.page_lt hy hq) (not_lt.mpr hq')
  · intro m k y z hy hz hne q hq hq'
    rcases hcases m y hy with ⟨rfl, rfl⟩ | ⟨hm, hy'⟩
    · rcases hcases k z hz with ⟨rfl, rfl⟩ | ⟨hk, hz⟩
      · exact hne rfl
      · rcases hlabels q hq with hq | hq
        · exact h.disjoint m k x z hx hz hne q hq hq'
        · exact absurd (h.page_lt hz hq') (not_lt.mpr hq)
    · rcases hcases k z hz with ⟨rfl, rfl⟩ | ⟨hk, hz⟩
      · rcases hlabels q hq' with hq' | hq'
        · exact h.disjoint m k y x hy' hx hne q hq hq'
        · exact absurd (h.page_lt hy' hq) (not_lt.mpr hq')
      · exact h.disjoint m k y z hy' hz hne q hq hq'

/-- What is known of a table. -/
structure TableInfo.At (x : TableInfo) (s : Pager) (n : ℕ) : Prop where
  describes : Describes (s.page 0) n x.schema
  root : catalogNodeRootPage (s.page 0) n = x.tree.2.page
  represents : Represents s x.schema.rowSize x.tree

/-- A `CREATE TABLE` leaves the tables there are alone. -/
theorem Database.kept (h : Database s ts)
    (hev : Evolves s s' {q | q = 0 ∨ q = s.numPages} M)
    (hentries : ∀ k, catalogEntriesOffset ≤ k → k < catalogNodeTable ts.length →
      s'.page 0 k = s.page 0 k) (hx : ts[n]? = some x) : x.At s' n := by
  have hn : n < ts.length := (List.getElem?_eq_some_iff.mp hx).1
  have hsame : SameEntry n (s.page 0) (s'.page 0) := by
    intro i hi hlt
    simp only [catalogNodeTable_eq] at hi hlt
    refine hentries i ?_ ?_
    · rw [catalogEntriesOffset]
      omega
    · rw [catalogNodeTable_eq]
      omega
  refine ⟨(h.describes n x hx).congr hsame, hsame.rootPage.trans (h.root n x hx), ?_⟩
  refine (h.represents n x hx).frame (fun q hq => hev.page q ?_) hev.numPages
  rintro (rfl | rfl)
  · exact (h.represents n x hx).zero hq
  · exact absurd (h.page_lt hx hq) (lt_irrefl _)

/-- A `CREATE TABLE` that was refused. -/
theorem Database.refused (h : Database s ts)
    (hev : Evolves s s' {q | q = 0 ∨ q = s.numPages} M)
    (hbytes : ∀ k < catalogNodeTable (catalogNodeNumTables (s.page 0)),
      s'.page 0 k = s.page 0 k) : Database s' ts := by
  rw [h.count] at hbytes
  have hkept : ∀ (n : ℕ) (x : TableInfo), ts[n]? = some x → x.At s' n := fun n x hx =>
    h.kept hev (fun k _ hlt => hbytes k hlt) hx
  refine ⟨hev.sound, h.pos.trans_le hev.numPages, ?_, h.bounded, ?_, ?_, ?_, h.disjoint⟩
  · rw [numTables_congr hbytes, h.count]
  · exact fun n x hx => (hkept n x hx).describes
  · exact fun n x hx => (hkept n x hx).root
  · exact fun n x hx => (hkept n x hx).represents

/-- A `CREATE TABLE` that was carried out. -/
theorem Database.append (h : Database s ts) (hlt : ts.length < maxCatalogTables)
    (hev : Evolves s s' {q | q = 0 ∨ q = s.numPages} M)
    (hentries : ∀ k, catalogEntriesOffset ≤ k → k < catalogNodeTable ts.length →
      s'.page 0 k = s.page 0 k)
    (hcount : catalogNodeNumTables (s'.page 0) = ts.length + 1) {y : TableInfo}
    (hy : y.At s' ts.length) (hlabels : ∀ q ∈ y.tree.2.labels, s.numPages ≤ q) :
    Database s' (ts ++ [y]) := by
  have hcases : ∀ (n : ℕ) (x : TableInfo), (ts ++ [y])[n]? = some x →
      (ts[n]? = some x) ∨ (n = ts.length ∧ x = y) := by
    intro n x hx
    rcases lt_or_ge n ts.length with hn | hn
    · rw [List.getElem?_append_left hn] at hx
      exact Or.inl hx
    · rw [List.getElem?_append_right hn, List.getElem?_singleton] at hx
      split at hx
      · next h0 => exact Or.inr ⟨by omega, (Option.some_inj.mp hx).symm⟩
      · cases hx
  have hall : ∀ (n : ℕ) (x : TableInfo), (ts ++ [y])[n]? = some x → x.At s' n := by
    intro n x hx
    rcases hcases n x hx with hx | ⟨rfl, rfl⟩
    · exact h.kept hev hentries hx
    · exact hy
  refine ⟨hev.sound, h.pos.trans_le hev.numPages, ?_, ?_, ?_, ?_, ?_, ?_⟩
  · rw [hcount, List.length_append, List.length_singleton]
  · rw [List.length_append, List.length_singleton]
    exact hlt
  · exact fun n x hx => (hall n x hx).describes
  · exact fun n x hx => (hall n x hx).root
  · exact fun n x hx => (hall n x hx).represents
  · intro n m x z hx hz hne q hq hq'
    rcases hcases n x hx with hx' | ⟨rfl, rfl⟩
    · rcases hcases m z hz with hz | ⟨rfl, rfl⟩
      · exact h.disjoint n m x z hx' hz hne q hq hq'
      · exact absurd (h.page_lt hx' hq) (not_lt.mpr (hlabels q hq'))
    · rcases hcases m z hz with hz | ⟨rfl, rfl⟩
      · exact absurd (h.page_lt hz hq') (not_lt.mpr (hlabels q hq))
      · exact hne rfl

end MiniDB
