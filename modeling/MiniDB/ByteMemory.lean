import Mathlib.Tactic.Ring
import Mathlib.Data.Nat.Log
import Mathlib.Data.List.Basic

/-!
# Byte memory

A block of memory is a function from offsets to bytes.  Everything a C program does to a buffer
through casts, `memcpy`, `memmove` and `memset` is one of two operations: reading a run of bytes
and overwriting a run of bytes.  A fixed-width integer is a run of bytes in little-endian order.

* `Mem.read`, `Mem.write`: a run of bytes, with the laws of the two against each other
  (`read_write_self`, `read_write_of_disjoint`, `read_write_of_sub`).
* `toLE`, `ofLE`: the little-endian bytes of a natural number and back.
* `Mem.readNat`, `Mem.writeNat`, `Mem.readInt64`, `Mem.writeInt64`: integers in memory.
* `Mem.memmove`, `Mem.zero`: the library calls, in terms of `read` and `write`.
* `cstrlen`: the length of a C string, undefined when the array holds no terminator.

A block has no end of its own: a write past the intended end of a buffer shows as a change at an
offset the buffer does not have, so staying in bounds is a frame property.
-/

/-- What is asked of every byte of a list is tested on the list, not on all bytes there are. -/
instance (priority := 2000) decidableForallBytes {p : UInt8 → Prop} [DecidablePred p]
    (bs : List UInt8) : Decidable (∀ b ∈ bs, p b) := List.decidableBAll p bs

/-- A block of bytes, indexed by offset. -/
abbrev Mem := ℕ → UInt8

/-! ## Little-endian numbers -/

/-- The `w` little-endian bytes of `n`; higher bits are dropped. -/
def toLE : ℕ → ℕ → List UInt8
  | 0, _ => []
  | w + 1, n => UInt8.ofNat n :: toLE w (n / 256)

/-- The number with the given little-endian bytes. -/
def ofLE : List UInt8 → ℕ
  | [] => 0
  | b :: bs => b.toNat + 256 * ofLE bs

@[simp] theorem length_toLE (w n : ℕ) : (toLE w n).length = w := by
  induction w generalizing n with
  | zero => rfl
  | succ w ih => rw [toLE, List.length_cons, ih]

theorem ofLE_toLE (w n : ℕ) : ofLE (toLE w n) = n % 256 ^ w := by
  induction w generalizing n with
  | zero => simp [toLE, ofLE, Nat.mod_one]
  | succ w ih =>
    have hb : (UInt8.ofNat n).toNat = n % 256 := by simp
    rw [toLE, ofLE, ih, hb, pow_succ', Nat.mod_mul]

theorem ofLE_toLE_of_lt {w n : ℕ} (h : n < 256 ^ w) : ofLE (toLE w n) = n := by
  rw [ofLE_toLE, Nat.mod_eq_of_lt h]

theorem ofLE_lt (bs : List UInt8) : ofLE bs < 256 ^ bs.length := by
  induction bs with
  | nil => simp [ofLE]
  | cons b bs ih =>
    have hb : b.toNat < 256 := b.toNat_lt
    rw [ofLE, List.length_cons, pow_succ]
    omega

theorem toLE_ofLE (bs : List UInt8) : toLE bs.length (ofLE bs) = bs := by
  induction bs with
  | nil => rfl
  | cons b bs ih =>
    have hb : b.toNat < 256 := b.toNat_lt
    have hdiv : (b.toNat + 256 * ofLE bs) / 256 = ofLE bs := by omega
    have hbyte : UInt8.ofNat (b.toNat + 256 * ofLE bs) = b := by
      apply UInt8.toNat_inj.mp
      simp
    rw [List.length_cons, ofLE, toLE, hdiv, ih, hbyte]

namespace Mem

variable {m m' : Mem} {off len : ℕ}

/-! ## Reading and writing runs of bytes -/

/-- The `len` bytes of `m` from `off` on. -/
def read (m : Mem) (off len : ℕ) : List UInt8 :=
  (List.range len).map fun i => m (off + i)

/-- `m` with the bytes `bs` written from `off` on. -/
def write (m : Mem) (off : ℕ) (bs : List UInt8) : Mem := fun i =>
  if off ≤ i ∧ i < off + bs.length then bs.getD (i - off) 0 else m i

@[simp] theorem length_read (m : Mem) (off len : ℕ) : (m.read off len).length = len := by
  simp [read]

@[simp] theorem getElem_read (m : Mem) (off len i : ℕ) (h : i < (m.read off len).length) :
    (m.read off len)[i] = m (off + i) := by
  simp [read]

@[simp] theorem read_zero (m : Mem) (off : ℕ) : m.read off 0 = [] := rfl

@[simp] theorem write_nil (m : Mem) (off : ℕ) : m.write off [] = m := by
  funext i
  simp [write]

theorem write_apply_of_not_mem {l : List UInt8} {a i : ℕ} (h : i < a ∨ a + l.length ≤ i) :
    m.write a l i = m i := by
  have h' : ¬ (a ≤ i ∧ i < a + l.length) := by omega
  simp [write, h']

theorem write_apply_of_mem {l : List UInt8} {a i : ℕ} (h : i < l.length) :
    m.write a l (a + i) = l[i] := by
  simp [write, h]

/-- Two blocks that agree on a run read the same there. -/
theorem read_congr (h : ∀ i < len, m (off + i) = m' (off + i)) :
    m.read off len = m'.read off len := by
  apply List.map_congr_left
  intro i hi
  exact h i (List.mem_range.mp hi)

theorem read_eq_iff {bs : List UInt8} (hlen : bs.length = len) :
    m.read off len = bs ↔ ∀ i (h : i < bs.length), m (off + i) = bs[i] := by
  subst hlen
  constructor
  · intro h i hi
    have := List.getElem_of_eq h (i := i) (by simpa using hi)
    simpa using this
  · intro h
    apply List.ext_getElem (by simp)
    intro i h1 h2
    simpa using h i h2

/-- Reading back what was written. -/
theorem read_write_self (m : Mem) (off : ℕ) (bs : List UInt8) :
    (m.write off bs).read off bs.length = bs := by
  rw [read_eq_iff rfl]
  exact fun i hi => write_apply_of_mem hi

/-- A write outside a run leaves the run alone. -/
theorem read_write_of_disjoint {l : List UInt8} {a w : ℕ}
    (h : a + len ≤ w ∨ w + l.length ≤ a) :
    (m.write w l).read a len = m.read a len := by
  apply read_congr
  intro i hi
  exact write_apply_of_not_mem (by omega)

/-- Reading inside a run that was just copied from elsewhere. -/
theorem read_write_of_sub {src : Mem} {w s n : ℕ} (h1 : w ≤ off) (h2 : off + len ≤ w + n) :
    (m.write w (src.read s n)).read off len = src.read (s + (off - w)) len := by
  rw [read_eq_iff (by simp)]
  intro i hi
  rw [length_read] at hi
  have hidx : off + i = w + (off - w + i) := by omega
  rw [hidx, write_apply_of_mem (by rw [length_read]; omega)]
  simp [Nat.add_assoc]

theorem read_append (m : Mem) (off a b : ℕ) :
    m.read off (a + b) = m.read off a ++ m.read (off + a) b := by
  apply List.ext_getElem (by simp)
  intro i h1 h2
  rw [getElem_read, List.getElem_append]
  split
  · simp
  · next h =>
    rw [length_read] at h
    simp only [getElem_read, length_read]
    congr 1
    omega

theorem take_read {n : ℕ} (h : n ≤ len) : (m.read off len).take n = m.read off n := by
  obtain ⟨k, rfl⟩ := Nat.exists_eq_add_of_le h
  rw [read_append, List.take_left' (length_read ..)]

theorem drop_read {n : ℕ} (h : n ≤ len) :
    (m.read off len).drop n = m.read (off + n) (len - n) := by
  obtain ⟨k, rfl⟩ := Nat.exists_eq_add_of_le h
  rw [read_append, List.drop_left' (length_read ..), Nat.add_sub_cancel_left]

/-- Writing two adjacent runs is writing their concatenation. -/
theorem write_append (m : Mem) (off : ℕ) (bs cs : List UInt8) :
    (m.write off bs).write (off + bs.length) cs = m.write off (bs ++ cs) := by
  funext i
  by_cases hlo : i < off
  · rw [write_apply_of_not_mem (by omega), write_apply_of_not_mem (by omega),
      write_apply_of_not_mem (by omega)]
  · obtain ⟨j, rfl⟩ := Nat.exists_eq_add_of_le (Nat.le_of_not_lt hlo)
    rcases lt_or_ge j bs.length with hj | hj
    · rw [write_apply_of_not_mem (by omega), write_apply_of_mem hj,
        write_apply_of_mem (by rw [List.length_append]; omega), List.getElem_append_left hj]
    · obtain ⟨k, rfl⟩ := Nat.exists_eq_add_of_le hj
      rcases lt_or_ge k cs.length with hk | hk
      · rw [← Nat.add_assoc, write_apply_of_mem hk, Nat.add_assoc,
          write_apply_of_mem (by rw [List.length_append]; omega)]
        simp
      · rw [write_apply_of_not_mem (by omega), write_apply_of_not_mem (by omega),
          write_apply_of_not_mem (by rw [List.length_append]; omega)]

/-- Writing back what is there changes nothing. -/
theorem write_read (m : Mem) (off len : ℕ) : m.write off (m.read off len) = m := by
  funext i
  by_cases h : off ≤ i ∧ i < off + len
  · obtain ⟨j, rfl⟩ := Nat.exists_eq_add_of_le h.1
    rw [write_apply_of_mem (by rw [length_read]; omega), getElem_read]
  · exact write_apply_of_not_mem (by rw [length_read]; omega)

/-! ## Library calls -/

/-- `memmove(m + dst, m + src, n)`; the regions may overlap. -/
def memmove (m : Mem) (dst src n : ℕ) : Mem := m.write dst (m.read src n)

/-- `memset(m + off, 0, n)`. -/
def zero (m : Mem) (off n : ℕ) : Mem := m.write off (List.replicate n 0)

/-! ## Integers in memory -/

/-- The unsigned number in the `w` bytes at `off`. -/
def readNat (m : Mem) (off w : ℕ) : ℕ := ofLE (m.read off w)

/-- Store `n` in the `w` bytes at `off`. -/
def writeNat (m : Mem) (off w n : ℕ) : Mem := m.write off (toLE w n)

/-- The `int64_t` at `off`. -/
def readInt64 (m : Mem) (off : ℕ) : Int64 := Int64.ofBitVec (BitVec.ofNat 64 (m.readNat off 8))

/-- The bytes of an `int64_t`. -/
def int64Bytes (k : Int64) : List UInt8 := toLE 8 k.toBitVec.toNat

/-- Store an `int64_t` at `off`. -/
def writeInt64 (m : Mem) (off : ℕ) (k : Int64) : Mem := m.write off (int64Bytes k)

@[simp] theorem length_int64Bytes (k : Int64) : (int64Bytes k).length = 8 := length_toLE ..

theorem ofLE_int64Bytes (k : Int64) :
    Int64.ofBitVec (BitVec.ofNat 64 (ofLE (int64Bytes k))) = k := by
  have hlt : k.toBitVec.toNat < 256 ^ 8 := by
    simpa using k.toBitVec.isLt
  rw [int64Bytes, ofLE_toLE_of_lt hlt, BitVec.ofNat_toNat, BitVec.setWidth_eq]
  rfl

/-- The bytes at `off` are those of the `int64_t` read there. -/
theorem int64Bytes_readInt64 (m : Mem) (off : ℕ) : int64Bytes (m.readInt64 off) = m.read off 8 := by
  have hlt : ofLE (m.read off 8) < 2 ^ 64 := by
    have := ofLE_lt (m.read off 8)
    rw [length_read] at this
    exact lt_of_lt_of_eq this (by norm_num)
  have hle := toLE_ofLE (m.read off 8)
  rw [length_read] at hle
  have hbits : (m.readInt64 off).toBitVec = BitVec.ofNat 64 (ofLE (m.read off 8)) := rfl
  rw [int64Bytes, hbits, BitVec.toNat_ofNat, Nat.mod_eq_of_lt hlt, hle]

theorem readNat_lt (m : Mem) (off w : ℕ) : m.readNat off w < 256 ^ w := by
  have := ofLE_lt (m.read off w)
  rwa [length_read] at this

theorem readNat_congr {off' w : ℕ} (h : m.read off w = m'.read off' w) :
    m.readNat off w = m'.readNat off' w := by
  rw [readNat, readNat, h]

theorem readInt64_congr {off' : ℕ} (h : m.read off 8 = m'.read off' 8) :
    m.readInt64 off = m'.readInt64 off' := by
  rw [readInt64, readInt64, readNat_congr h]

theorem readNat_writeNat_self {w n : ℕ} (h : n < 256 ^ w) :
    (m.writeNat off w n).readNat off w = n := by
  have := read_write_self m off (toLE w n)
  rw [length_toLE] at this
  rw [readNat, writeNat, this, ofLE_toLE_of_lt h]

theorem readInt64_writeInt64_self (m : Mem) (off : ℕ) (k : Int64) :
    (m.writeInt64 off k).readInt64 off = k := by
  have := read_write_self m off (int64Bytes k)
  rw [length_int64Bytes] at this
  rw [readInt64, readNat, writeInt64, this, ofLE_int64Bytes]

theorem read_writeNat_of_disjoint {a w n : ℕ} (h : off + len ≤ a ∨ a + w ≤ off) :
    (m.writeNat a w n).read off len = m.read off len :=
  read_write_of_disjoint (by rw [length_toLE]; exact h)

theorem read_writeInt64_of_disjoint {a : ℕ} {k : Int64} (h : off + len ≤ a ∨ a + 8 ≤ off) :
    (m.writeInt64 a k).read off len = m.read off len :=
  read_write_of_disjoint (by rw [length_int64Bytes]; exact h)

/-- Reading inside a run that was just cleared. -/
theorem read_zero_of_sub {a n : ℕ} (h1 : a ≤ off) (h2 : off + len ≤ a + n) :
    (m.zero a n).read off len = List.replicate len 0 := by
  rw [read_eq_iff (List.length_replicate ..)]
  intro i hi
  rw [List.length_replicate] at hi
  have hidx : off + i = a + (off - a + i) := by omega
  rw [hidx, zero, write_apply_of_mem (by rw [List.length_replicate]; omega)]
  simp

theorem read_memmove_of_disjoint {dst src n : ℕ} (h : off + len ≤ dst ∨ dst + n ≤ off) :
    (m.memmove dst src n).read off len = m.read off len :=
  read_write_of_disjoint (by rw [length_read]; exact h)

theorem read_memmove_of_sub {dst src n : ℕ} (h1 : dst ≤ off) (h2 : off + len ≤ dst + n) :
    (m.memmove dst src n).read off len = m.read (src + (off - dst)) len :=
  read_write_of_sub h1 h2

end Mem

/-! ## C strings -/

/-- `strlen` of the array `bs`; `none` when no terminator stands in the array, so that the call
would read past its end. -/
def cstrlen (bs : List UInt8) : Option ℕ :=
  if 0 ∈ bs then some (bs.idxOf 0) else none

/-- `strnlen` of the array `bs`. -/
def cstrnlen (bs : List UInt8) : ℕ := bs.idxOf 0

theorem cstrlen_eq_some_iff {bs : List UInt8} {n : ℕ} :
    cstrlen bs = some n ↔ 0 ∈ bs ∧ bs.idxOf 0 = n := by
  unfold cstrlen
  split <;> simp [*]
