import MiniDB.Pages.Header

/-!
# Internal pages as lists of keys and children

An internal page holds `NUM_CELLS` keys, each with the child left of it, and one more child in its
header.  The edits of an internal page are edits of the two lists.

* `internalKeys`, `internalChildren`: the lists; `childAt_eq`: a position among the children.
* `internalKeys_insertCell`, `internalChildren_insertCell`: `internal_node_insert` replaces a child
  by two with a key between them.
* `internalKeys_write`, `internalChildren_write`: a page that a split has filled.
-/

namespace MiniDB

/-- The keys of an internal page. -/
def internalKeys (p : Page) : List Int64 := (List.range (numCells p)).map (internalNodeKey p)

/-- The children of an internal page. -/
def internalChildren (p : Page) : List ℕ :=
  (List.range (numCells p)).map (internalNodeValue p) ++ [rightChild p]

variable {p q : Page}

theorem le_internalNodeCell (i : ℕ) : leafNodeHeaderSize ≤ internalNodeCell i :=
  Nat.le_add_right ..

theorem le_internalNodeCell_value (i : ℕ) :
    leafNodeHeaderSize ≤ internalNodeCell i + internalNodeKeySize :=
  Nat.le_add_right_of_le (le_internalNodeCell i)

@[simp] theorem length_internalKeys (p : Page) : (internalKeys p).length = numCells p := by
  simp [internalKeys]

@[simp] theorem length_internalChildren (p : Page) :
    (internalChildren p).length = numCells p + 1 := by
  simp [internalChildren]

@[simp] theorem getElem_internalKeys {i : ℕ} (h : i < (internalKeys p).length) :
    (internalKeys p)[i] = internalNodeKey p i := by
  simp [internalKeys]

/-- The child at a position. -/
theorem childAt_eq {i : ℕ} (h : i ≤ numCells p) :
    (internalChildren p)[i]? = some (childAt p i) := by
  rw [internalChildren, childAt]
  split
  · next heq => rw [List.getElem?_append_right (by simp [heq]), heq]; simp
  · next hne =>
    have hlt : i < numCells p := by omega
    rw [List.getElem?_append_left (by simpa using hlt)]
    simp [hlt]

theorem getElem_internalChildren {i : ℕ} (h : i < (internalChildren p).length) :
    (internalChildren p)[i] = childAt p i := by
  rw [length_internalChildren] at h
  exact Option.some_inj.mp ((List.getElem?_eq_getElem _).symm.trans (childAt_eq (by omega)))

theorem tempKeys_eq (p : Page) (c : ℕ) (key : Int64) :
    tempKeys p c key = (internalKeys p).take c ++ key :: (internalKeys p).drop c := rfl

theorem tempChildren_eq (p : Page) (c left right : ℕ) :
    tempChildren p c left right =
      (internalChildren p).take c ++ left :: right :: (internalChildren p).drop (c + 1) := rfl

/-- The search stays among the keys. -/
theorem internalNodeFind_le (p : Page) (key : Int64) : internalNodeFind p key ≤ numCells p :=
  binarySearch_le _ key _ (Nat.zero_le _)

/-- The lists depend on the header fields and on the bytes below the header. -/
theorem internalKeys_congr (h : SameBody p q) (hn : numCells p = numCells q) :
    internalKeys p = internalKeys q := by
  rw [internalKeys, internalKeys, hn]
  exact List.map_congr_left fun i _ => Mem.readInt64_congr (h.read (le_internalNodeCell i))

theorem internalNodeValue_congr (h : SameBody p q) (i : ℕ) :
    internalNodeValue p i = internalNodeValue q i :=
  Mem.readNat_congr (h.read (le_internalNodeCell_value i))

theorem internalChildren_congr (h : SameBody p q) (hn : numCells p = numCells q)
    (hr : rightChild p = rightChild q) : internalChildren p = internalChildren q := by
  rw [internalChildren, internalChildren, hn, hr]
  congr 1
  exact List.map_congr_left fun i _ => internalNodeValue_congr h i

/-! ## Search -/

theorem ascendingTo_internalNodeKey (hs : (internalKeys p).Pairwise (· < ·)) :
    AscendingTo (numCells p) (internalNodeKey p) := by
  intro i j hij hj
  have hlt := List.pairwise_iff_getElem.mp hs i j (by rw [length_internalKeys]; omega)
    (by rwa [length_internalKeys]) hij
  rwa [getElem_internalKeys, getElem_internalKeys] at hlt

/-- The binary search finds the cut between the smaller keys and the others. -/
theorem internalNodeFind_eq {i : ℕ} {key : Int64} (hs : (internalKeys p).Pairwise (· < ·))
    (hi : i ≤ numCells p) (hlt : ∀ s ∈ (internalKeys p).take i, s < key)
    (hge : ∀ s ∈ (internalKeys p).drop i, key ≤ s) : internalNodeFind p key = i := by
  refine (isCut_binarySearch (ascendingTo_internalNodeKey hs) key).unique
    ⟨hi, fun j hj => ?_, fun j hij hj => ?_⟩
  · refine hlt _ (List.mem_take_iff_getElem.mpr ⟨j, ?_, getElem_internalKeys _⟩)
    rw [length_internalKeys]
    omega
  · refine not_lt.mpr (hge _ (List.mem_drop_iff_getElem.mpr ⟨j - i, ?_, ?_⟩))
    · rw [length_internalKeys]
      omega
    · rw [getElem_internalKeys, Nat.add_sub_cancel' hij]

/-- The scan finds the cut between the keys that are not larger and the others. -/
theorem scanDown_internalNodeKey {i : ℕ} {key : Int64} (hs : (internalKeys p).Pairwise (· < ·))
    (hi : i ≤ numCells p) (hle : ∀ s ∈ (internalKeys p).take i, s ≤ key)
    (hgt : ∀ s ∈ (internalKeys p).drop i, key < s) :
    scanDown (internalNodeKey p) key (numCells p) = i := by
  refine (isCut_scanDown (ascendingTo_internalNodeKey hs) key).unique
    ⟨hi, fun j hj => ?_, fun j hij hj => ?_⟩
  · refine hle _ (List.mem_take_iff_getElem.mpr ⟨j, ?_, getElem_internalKeys _⟩)
    rw [length_internalKeys]
    omega
  · refine not_le.mpr (hgt _ (List.mem_drop_iff_getElem.mpr ⟨j - i, ?_, ?_⟩))
    · rw [length_internalKeys]
      omega
    · rw [getElem_internalKeys, Nat.add_sub_cancel' hij]

/-! ## Insertion -/

section Insert

variable {c left right : ℕ} {key : Int64}

/-- The page edit of `internal_node_insert` below the header. -/
def internalInsertBody (p : Page) (c : ℕ) (key : Int64) (left right : ℕ) : Page :=
  let m := p.memmove (internalNodeCell (c + 1)) (internalNodeCell c)
    ((numCells p - c) * internalNodeCellSize)
  let m := if c = numCells p then m else setInternalNodeValue m (c + 1) right
  setInternalNodeValue (setInternalNodeKey m c key) c left

variable (p c key left right) in
theorem sameBody_internalNodeInsertCell :
    SameBody (internalNodeInsertCell p c key left right)
      (internalInsertBody p c key left right) := by
  refine (sameBody_setNumCells _ _).trans (SameBody.write (SameBody.write ?_ _ _) _ _)
  split
  · exact sameBody_setRightChild _ _
  · exact SameBody.refl _

variable (c key left) in
theorem header_internalNodeInsertCell (hn : Fits (numCells p + 1)) (hr : Fits right) :
    header (internalNodeInsertCell p c key left right) =
      { header p with
        cells := numCells p + 1
        link := if c = numCells p then right else rightChild p } := by
  rw [internalNodeInsertCell, header_setNumCells _ hn, setInternalNodeValue, Mem.writeNat,
    header_write (le_internalNodeCell_value _), setInternalNodeKey, Mem.writeInt64,
    header_write (le_internalNodeCell _)]
  split
  · rw [header_setRightChild _ hr, Mem.memmove, header_write (le_internalNodeCell _)]
  · rw [setInternalNodeValue, Mem.writeNat, header_write (le_internalNodeCell_value _), Mem.memmove,
      header_write (le_internalNodeCell _)]
    rfl

/-- Where the bytes of the keys and children come from. -/
theorem read_internalInsertBody {off len : ℕ}
    (h : off + len ≤ internalNodeCell c ∨ internalNodeCell c + 12 ≤ off)
    (h' : c = numCells p ∨ off + len ≤ internalNodeCell (c + 1) + 8 ∨
      internalNodeCell (c + 1) + 12 ≤ off) :
    (internalInsertBody p c key left right).read off len =
      (p.memmove (internalNodeCell (c + 1)) (internalNodeCell c)
        ((numCells p - c) * internalNodeCellSize)).read off len := by
  have h8 : internalNodeKeySize = 8 := rfl
  rw [internalInsertBody, setInternalNodeValue, Mem.read_writeNat_of_disjoint (by omega),
    setInternalNodeKey, Mem.read_writeInt64_of_disjoint (by omega)]
  split
  · rfl
  · rw [setInternalNodeValue, Mem.read_writeNat_of_disjoint (by omega)]

theorem read_internalInsertBody_before {i : ℕ} (hi : i < c) {a len : ℕ} (ha : a + len ≤ 12) :
    (internalInsertBody p c key left right).read (internalNodeCell i + a) len =
      p.read (internalNodeCell i + a) len := by
  simp only [internalNodeCell, internalNodeHeaderSize, internalNodeCellSize]
  rw [read_internalInsertBody, Mem.read_memmove_of_disjoint]
  all_goals simp only [internalNodeCell, internalNodeHeaderSize, internalNodeCellSize]; omega

theorem read_internalInsertBody_after {i : ℕ} (hi : c < i) (hn : i ≤ numCells p) {a len : ℕ}
    (ha : a + len ≤ 12) (hne : i ≠ c + 1 ∨ a + len ≤ 8) :
    (internalInsertBody p c key left right).read (internalNodeCell i + a) len =
      p.read (internalNodeCell (i - 1) + a) len := by
  simp only [internalNodeCell, internalNodeHeaderSize, internalNodeCellSize]
  rw [read_internalInsertBody, Mem.read_memmove_of_sub]
  · congr 1
    simp only [internalNodeCell, internalNodeHeaderSize, internalNodeCellSize]
    omega
  all_goals simp only [internalNodeCell, internalNodeHeaderSize, internalNodeCellSize]; omega

theorem internalNodeKey_insert_self :
    internalNodeKey (internalInsertBody p c key left right) c = key := by
  have h8 : internalNodeKeySize = 8 := rfl
  rw [internalNodeKey, internalInsertBody, setInternalNodeValue,
    Mem.readInt64_congr (Mem.read_writeNat_of_disjoint (by omega)), setInternalNodeKey,
    Mem.readInt64_writeInt64_self]

theorem internalNodeValue_insert_self (hl : Fits left) :
    internalNodeValue (internalInsertBody p c key left right) c = left := by
  rw [internalNodeValue, internalInsertBody, setInternalNodeValue, Mem.readNat_writeNat_self hl]

theorem internalNodeValue_insert_succ (hc : c ≠ numCells p) (hr : Fits right) :
    internalNodeValue (internalInsertBody p c key left right) (c + 1) = right := by
  have h8 : internalNodeKeySize = 8 := rfl
  have hcell : internalNodeCell (c + 1) = internalNodeCell c + 12 := by
    rw [internalNodeCell, internalNodeCell, internalNodeCellSize, Nat.succ_mul, Nat.add_assoc]
  rw [internalNodeValue, internalInsertBody, setInternalNodeValue,
    Mem.readNat_congr (Mem.read_writeNat_of_disjoint (by omega)), setInternalNodeKey,
    Mem.readNat_congr (Mem.read_writeInt64_of_disjoint (by omega)), if_neg hc,
    setInternalNodeValue, Mem.readNat_writeNat_self hr]

/-- The keys after an insertion. -/
theorem internalKeys_insertCell (hn : Fits (numCells p + 1)) (hr : Fits right)
    (hc : c ≤ numCells p) :
    internalKeys (internalNodeInsertCell p c key left right) =
      (internalKeys p).take c ++ key :: (internalKeys p).drop c := by
  have hnum : numCells (internalNodeInsertCell p c key left right) = numCells p + 1 := by
    rw [numCells_eq, header_internalNodeInsertCell _ _ _ hn hr]
  apply List.ext_getElem
  · simp [hnum]
    omega
  intro i h1 h2
  rw [length_internalKeys, hnum] at h1
  have hbody := sameBody_internalNodeInsertCell p c left right key
  rw [getElem_internalKeys, internalNodeKey,
    Mem.readInt64_congr (hbody.read (le_internalNodeCell i))]
  rcases lt_trichotomy i c with hlt | rfl | hgt
  · rw [List.getElem_append_left (by simp; omega), List.getElem_take, getElem_internalKeys]
    exact Mem.readInt64_congr (read_internalInsertBody_before (a := 0) hlt (by omega))
  · rw [List.getElem_append_right (by simp), ← internalNodeKey, internalNodeKey_insert_self]
    simp [hc]
  · rw [List.getElem_append_right (by simp; omega)]
    have hidx : i - ((internalKeys p).take c).length = (i - 1 - c) + 1 := by simp; omega
    simp only [hidx, List.getElem_cons_succ, List.getElem_drop, getElem_internalKeys,
      Nat.add_sub_cancel' (Nat.le_sub_one_of_lt hgt)]
    exact Mem.readInt64_congr
      (read_internalInsertBody_after (a := 0) hgt (by omega) (by omega) (Or.inr (by omega)))

/-- The children after an insertion. -/
theorem internalChildren_insertCell (hn : Fits (numCells p + 1)) (hl : Fits left) (hr : Fits right)
    (hc : c ≤ numCells p) :
    internalChildren (internalNodeInsertCell p c key left right) =
      (internalChildren p).take c ++ left :: right :: (internalChildren p).drop (c + 1) := by
  have hhead := header_internalNodeInsertCell c left key hn hr
  have hnum : numCells (internalNodeInsertCell p c key left right) = numCells p + 1 := by
    rw [numCells_eq, hhead]
  have hright : rightChild (internalNodeInsertCell p c key left right) =
      if c = numCells p then right else rightChild p := by
    rw [rightChild_eq, hhead]
  have hbody := sameBody_internalNodeInsertCell p c left right key
  apply List.ext_getElem
  · simp [hnum]
    omega
  intro i h1 h2
  rw [length_internalChildren, hnum] at h1
  rw [getElem_internalChildren, childAt, hnum, hright, internalNodeValue_congr hbody]
  rcases lt_trichotomy i c with hlt | rfl | hgt
  · rw [if_neg (by omega), List.getElem_append_left (by simp; omega), List.getElem_take,
      getElem_internalChildren, childAt, if_neg (by omega)]
    exact Mem.readNat_congr (read_internalInsertBody_before hlt le_rfl)
  · rw [if_neg (by omega), List.getElem_append_right (by simp), internalNodeValue_insert_self hl]
    have hidx : i - ((internalChildren p).take i).length = 0 := by simp; omega
    simp only [hidx, List.getElem_cons_zero]
  · rw [List.getElem_append_right (by simp; omega)]
    rcases Nat.eq_or_lt_of_le (Nat.succ_le_of_lt hgt) with rfl | hgt'
    · -- the new right child, which is the rightmost one or stands in the next cell
      have hidx : c.succ - ((internalChildren p).take c).length = 1 := by simp; omega
      simp only [hidx, List.getElem_cons_succ, List.getElem_cons_zero]
      by_cases hcn : c = numCells p
      · rw [if_pos (by omega), if_pos hcn]
      · rw [if_neg (by omega), internalNodeValue_insert_succ hcn hr]
    · have hcn : ¬ c = numCells p := by omega
      have hidx : i - ((internalChildren p).take c).length = (i - 1 - (c + 1)) + 1 + 1 := by
        simp
        omega
      have hpos : c + 1 + (i - 1 - (c + 1)) = i - 1 := by omega
      simp only [hidx, List.getElem_cons_succ, List.getElem_drop, getElem_internalChildren, hpos,
        childAt, if_neg hcn]
      by_cases hin : i = numCells p + 1
      · rw [if_pos hin, if_pos (by omega)]
      · rw [if_neg hin, if_neg (by omega)]
        exact Mem.readNat_congr
          (read_internalInsertBody_after (p := p) hgt (by omega) le_rfl (Or.inl (by omega)))

end Insert

/-! ## A page that a split has filled -/

/-- The bytes of a key and the child left of it. -/
def internalCellBytes (c : Int64 × ℕ) : List UInt8 := Mem.int64Bytes c.1 ++ toLE 4 c.2

theorem length_internalCellBytes (c : Int64 × ℕ) :
    (internalCellBytes c).length = internalNodeCellSize := by
  rw [internalCellBytes, List.length_append, Mem.length_int64Bytes, length_toLE]
  rfl

/-- The loop that fills a page is one write. -/
theorem writeInternalCells_eq (cs : List (Int64 × ℕ)) (i : ℕ) (page : Page) :
    writeInternalCells i cs page =
      page.write (internalNodeCell i) (cs.map internalCellBytes).flatten := by
  induction cs generalizing i page with
  | nil => exact (Mem.write_nil ..).symm
  | cons c cs ih =>
    have hnext : internalNodeCell i + (internalCellBytes c).length = internalNodeCell (i + 1) := by
      rw [length_internalCellBytes, internalNodeCell, internalNodeCell, Nat.succ_mul, Nat.add_assoc]
    have hcell : setInternalNodeValue (setInternalNodeKey page i c.1) i c.2 =
        page.write (internalNodeCell i) (internalCellBytes c) := by
      rw [internalCellBytes, ← Mem.write_append, Mem.length_int64Bytes]
      rfl
    rw [List.map_cons, List.flatten_cons, ← Mem.write_append, hnext, writeInternalCells, hcell, ih]

theorem header_writeInternalCells (cs : List (Int64 × ℕ)) (i : ℕ) (page : Page) :
    header (writeInternalCells i cs page) = header page := by
  rw [writeInternalCells_eq, header_write (le_internalNodeCell i)]

/-- The bytes of one cell of a filled page. -/
theorem read_writeInternalCells {cs : List (Int64 × ℕ)}
    (hbody : SameBody q (writeInternalCells 0 cs p))
    {i : ℕ} (hi : i < cs.length) :
    q.read (internalNodeCell i) internalNodeCellSize = internalCellBytes cs[i] := by
  have hlen : ∀ bs ∈ cs.map internalCellBytes, bs.length = internalNodeCellSize := by
    intro bs hbs
    obtain ⟨c, -, rfl⟩ := List.mem_map.mp hbs
    exact length_internalCellBytes c
  have hrec := Mem.records_write_flatten p (internalNodeCell 0) hlen
  rw [← writeInternalCells_eq, List.length_map] at hrec
  have hget := List.getElem_of_eq hrec (i := i) (by simpa using hi)
  rw [Mem.getElem_records, List.getElem_map] at hget
  rw [hbody.read (le_internalNodeCell i), ← hget]
  congr 1

theorem internalNodeKey_write {cs : List (Int64 × ℕ)}
    (hbody : SameBody q (writeInternalCells 0 cs p)) {i : ℕ} (hi : i < cs.length) :
    internalNodeKey q i = cs[i].1 := by
  have hread := congrArg (List.take 8) (read_writeInternalCells hbody hi)
  rw [Mem.take_read (by decide), internalCellBytes,
    List.take_left' (Mem.length_int64Bytes _)] at hread
  rw [internalNodeKey, Mem.readInt64, Mem.readNat, hread, Mem.ofLE_int64Bytes]

theorem internalNodeValue_write {cs : List (Int64 × ℕ)} (hfits : ∀ c ∈ cs, Fits c.2)
    (hbody : SameBody q (writeInternalCells 0 cs p)) {i : ℕ} (hi : i < cs.length) :
    internalNodeValue q i = cs[i].2 := by
  have hread := congrArg (List.drop 8) (read_writeInternalCells hbody hi)
  rw [Mem.drop_read (by decide), internalCellBytes,
    List.drop_left' (Mem.length_int64Bytes _)] at hread
  have h4 : internalNodeCellSize - 8 = 4 := rfl
  rw [h4] at hread
  rw [internalNodeValue, Mem.readNat, internalNodeKeySize, hread,
    ofLE_toLE_of_lt (hfits _ (List.getElem_mem hi))]

/-- The keys of a filled page. -/
theorem internalKeys_write {cs : List (Int64 × ℕ)} (hbody : SameBody q (writeInternalCells 0 cs p))
    (hn : numCells q = cs.length) : internalKeys q = cs.map Prod.fst := by
  apply List.ext_getElem (by simp [hn])
  intro i h1 h2
  rw [length_internalKeys, hn] at h1
  rw [getElem_internalKeys, internalNodeKey_write hbody h1, List.getElem_map]

/-- The children of a filled page. -/
theorem internalChildren_write {cs : List (Int64 × ℕ)} (hfits : ∀ c ∈ cs, Fits c.2)
    (hbody : SameBody q (writeInternalCells 0 cs p)) (hn : numCells q = cs.length) :
    internalChildren q = cs.map Prod.snd ++ [rightChild q] := by
  rw [internalChildren, hn]
  congr 1
  apply List.ext_getElem (by simp)
  intro i h1 h2
  rw [List.length_map, List.length_range] at h1
  rw [List.getElem_map, List.getElem_range, internalNodeValue_write hfits hbody h1,
    List.getElem_map]

end MiniDB
