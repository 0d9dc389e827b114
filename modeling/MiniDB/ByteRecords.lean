import MiniDB.ByteMemory

/-!
# Arrays of fixed-width records

`n` records of `w` bytes each, one after the other from an offset on.  The edits a program makes to
such an array in place are edits of the list of records.

* `Mem.records`: the records as a list of byte strings.
* `records_insert`: moving a tail up by one record and writing into the gap inserts.
* `records_remove`: moving a tail down by one record removes.
* `records_set`, `records_write_flatten`: overwriting one record, or all of them.
-/

namespace Mem

variable {m m' : Mem} {base w n : ℕ}

/-- The `n` records of width `w` from `base` on. -/
def records (m : Mem) (base w n : ℕ) : List (List UInt8) :=
  (List.range n).map fun i => m.read (base + i * w) w

@[simp] theorem length_records (m : Mem) (base w n : ℕ) : (m.records base w n).length = n := by
  simp [records]

@[simp] theorem getElem_records (m : Mem) (base w n i : ℕ) (h : i < (m.records base w n).length) :
    (m.records base w n)[i] = m.read (base + i * w) w := by
  simp [records]

@[simp] theorem records_zero (m : Mem) (base w : ℕ) : m.records base w 0 = [] := rfl

theorem length_of_mem_records {bs : List UInt8} (h : bs ∈ m.records base w n) : bs.length = w := by
  obtain ⟨i, -, rfl⟩ := List.mem_map.mp h
  exact length_read ..

/-- Two blocks that agree on an array of records hold the same records there. -/
theorem records_congr (h : ∀ i < n * w, m (base + i) = m' (base + i)) :
    m.records base w n = m'.records base w n := by
  apply List.map_congr_left
  intro i hi
  have hle : (i + 1) * w ≤ n * w := Nat.mul_le_mul_right w (List.mem_range.mp hi)
  rw [Nat.succ_mul] at hle
  apply read_congr
  intro j hj
  rw [Nat.add_assoc]
  exact h _ (by omega)

theorem records_write_of_disjoint {bs : List UInt8} {off : ℕ}
    (h : base + n * w ≤ off ∨ off + bs.length ≤ base) :
    (m.write off bs).records base w n = m.records base w n := by
  apply records_congr
  intro i hi
  exact write_apply_of_not_mem (by omega)

theorem records_add (m : Mem) (base w a b : ℕ) :
    m.records base w (a + b) = m.records base w a ++ m.records (base + a * w) w b := by
  apply List.ext_getElem (by simp)
  intro i h1 h2
  rw [getElem_records, List.getElem_append]
  split
  · rw [getElem_records]
  · next h =>
    rw [length_records] at h
    obtain ⟨j, rfl⟩ := Nat.exists_eq_add_of_le (Nat.le_of_not_lt h)
    simp only [getElem_records, length_records, Nat.add_sub_cancel_left, Nat.add_mul, Nat.add_assoc]

theorem records_one (m : Mem) (base w : ℕ) : m.records base w 1 = [m.read base w] := by
  simp [records]

theorem take_records {k : ℕ} (h : k ≤ n) :
    (m.records base w n).take k = m.records base w k := by
  obtain ⟨j, rfl⟩ := Nat.exists_eq_add_of_le h
  rw [records_add, List.take_left' (length_records ..)]

theorem drop_records {k : ℕ} (h : k ≤ n) :
    (m.records base w n).drop k = m.records (base + k * w) w (n - k) := by
  obtain ⟨j, rfl⟩ := Nat.exists_eq_add_of_le h
  rw [records_add, List.drop_left' (length_records ..), Nat.add_sub_cancel_left]

/-- An array that was copied as a whole. -/
theorem records_memmove (m : Mem) (dst src w n : ℕ) :
    (m.memmove dst src (n * w)).records dst w n = m.records src w n := by
  apply List.map_congr_left
  intro i hi
  have hle : (i + 1) * w ≤ n * w := Nat.mul_le_mul_right w (List.mem_range.mp hi)
  rw [Nat.succ_mul] at hle
  rw [read_memmove_of_sub (by omega) (by omega), Nat.add_sub_cancel_left]

/-! ## Edits -/

/-- Move the records from `k` on up by one and write a new one into the gap. -/
theorem records_insert {k : ℕ} {bs : List UInt8} (hk : k ≤ n) (hbs : bs.length = w) :
    ((m.memmove (base + (k + 1) * w) (base + k * w) ((n - k) * w)).write (base + k * w) bs).records
        base w (n + 1) = (m.records base w n).take k ++ bs :: (m.records base w n).drop k := by
  subst hbs
  have hsplit : n + 1 = k + (1 + (n - k)) := by omega
  have hmul : (k + 1) * bs.length = k * bs.length + bs.length := Nat.succ_mul k bs.length
  rw [hsplit, records_add, records_add, take_records hk, drop_records hk, records_one, Nat.one_mul,
    List.singleton_append]
  congr 1
  · rw [records_write_of_disjoint (by omega), memmove, records_write_of_disjoint (by omega)]
  · congr 1
    · rw [read_write_self]
    · rw [records_write_of_disjoint (by omega), Nat.add_assoc, ← hmul, records_memmove]

variable (base) in
/-- Move the records behind `k` down by one. -/
theorem records_remove {k : ℕ} (hk : k < n) :
    (m.memmove (base + k * w) (base + (k + 1) * w) ((n - k - 1) * w)).records base w (n - 1) =
      (m.records base w n).eraseIdx k := by
  have hsplit : n - 1 = k + (n - k - 1) := by omega
  have hrest : n - (k + 1) = n - k - 1 := by omega
  rw [List.eraseIdx_eq_take_drop_succ, take_records hk.le, drop_records hk, hrest, hsplit,
    records_add]
  congr 1
  · rw [memmove, records_write_of_disjoint (by omega)]
  · exact records_memmove ..

/-- Overwrite one record. -/
theorem records_set {k : ℕ} {bs : List UInt8} (hk : k < n) (hbs : bs.length = w) :
    (m.write (base + k * w) bs).records base w n = (m.records base w n).set k bs := by
  subst hbs
  have hsplit : n = k + (1 + (n - (k + 1))) := by omega
  have hmul : (k + 1) * bs.length = k * bs.length + bs.length := Nat.succ_mul k bs.length
  rw [List.set_eq_take_append_cons_drop, if_pos (by rwa [length_records]), take_records hk.le,
    drop_records hk]
  conv_lhs => rw [hsplit, records_add, records_add, records_one, Nat.one_mul,
    List.singleton_append]
  congr 1
  · rw [records_write_of_disjoint (by omega)]
  · congr 1
    · rw [read_write_self]
    · rw [records_write_of_disjoint (by omega), Nat.add_assoc, ← hmul]

theorem length_flatten_records {bss : List (List UInt8)} (h : ∀ bs ∈ bss, bs.length = w) :
    bss.flatten.length = bss.length * w := by
  induction bss with
  | nil => simp
  | cons bs bss ih =>
    rw [List.flatten_cons, List.length_append, h bs List.mem_cons_self,
      ih fun b hb => h b (List.mem_cons_of_mem _ hb), List.length_cons, Nat.succ_mul, Nat.add_comm]

variable (m base) in
/-- Write a whole array. -/
theorem records_write_flatten {bss : List (List UInt8)} (h : ∀ bs ∈ bss, bs.length = w) :
    (m.write base bss.flatten).records base w bss.length = bss := by
  induction bss generalizing m base with
  | nil => rfl
  | cons bs bss ih =>
    have hbs : bs.length = w := h bs List.mem_cons_self
    have hrest : ∀ b ∈ bss, b.length = w := fun b hb => h b (List.mem_cons_of_mem _ hb)
    have hlen := length_flatten_records hrest
    rw [List.flatten_cons, List.length_cons, Nat.add_comm, records_add, records_one, Nat.one_mul,
      ← write_append, hbs, ih _ _ hrest, ← hbs, read_write_of_disjoint (by omega), read_write_self]
    rfl

end Mem
