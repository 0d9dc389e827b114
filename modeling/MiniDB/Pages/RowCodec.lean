import MiniDB.Model.Row

/-!
# The bytes of a row

`serialize_row` writes one run of bytes, `rowBytes`, and `deserialize_row` reads one run of the
width that the catalog gives, `decodeValues`.  The two are inverse to each other on rows whose
values have the types of the columns.

* `serializeValues_eq`, `deserializeValues_eq`: the loops in terms of single runs.
* `rowBytes_decodeValues`, `decodeValues_rowBytes`: the round trips.
-/

namespace MiniDB

/-! ## One value -/

/-- The serialized form of a value. -/
def Value.bytes : Value → List UInt8
  | .integer v => Mem.int64Bytes v
  | .text field _ => field.1
  | .boolean b => [b]

/-- The column type that a value belongs to. -/
def Value.columnType : Value → ColumnType
  | .integer _ => .columnInteger
  | .text _ _ => .columnText
  | .boolean _ => .columnBoolean

/-- The lengths that `deserialize_row` gives to texts. -/
def Value.Normal : Value → Prop
  | .text field length => length = cstrnlen field.1
  | _ => True

/-- A text stands in its field without a terminator of its own, and zeros fill the field up. -/
def Value.Padded : Value → Prop
  | .text field length => ∃ text : List UInt8, text.length = length ∧ 0 ∉ text ∧
      field.1 = text ++ List.replicate (valueTextMaxLen - text.length) 0
  | _ => True

/-- The value of a column in a run of bytes as wide as the column. -/
def decodeValue (bs : List UInt8) : ColumnType → Value
  | .columnInteger => .integer (Int64.ofBitVec (BitVec.ofNat 64 (ofLE bs)))
  | .columnText => .text (TextField.zero.overwrite bs) (cstrnlen (TextField.zero.overwrite bs).1)
  | .columnBoolean => .boolean (bs.headD 0)

/-- The width of a column. -/
def ColumnType.width : ColumnType → ℕ
  | columnInteger => 8
  | columnText => valueTextMaxLen
  | columnBoolean => 1

@[simp] theorem typeWidth_toByte (t : ColumnType) : typeWidth t.toByte = t.width := by
  cases t <;> rfl

theorem TextField.overwrite_of_length {field : TextField} {text : List UInt8}
    (h : text.length = valueTextMaxLen) : (field.overwrite text).1 = text := by
  have hf := field.2
  show (text ++ field.1.drop text.length).take valueTextMaxLen = text
  rw [List.drop_of_length_le (by omega), List.append_nil, ← h, List.take_length]

/-- The field of a text that fits into it. -/
theorem TextField.overwrite_zero {text : List UInt8} (h : text.length ≤ valueTextMaxLen) :
    (TextField.zero.overwrite text).1 =
      text ++ List.replicate (valueTextMaxLen - text.length) 0 := by
  have hrest : TextField.zero.1.drop text.length =
      List.replicate (valueTextMaxLen - text.length) 0 := List.drop_replicate ..
  show (text ++ TextField.zero.1.drop text.length).take valueTextMaxLen = _
  rw [hrest, List.take_of_length_le]
  rw [List.length_append, List.length_replicate]
  omega

/-- **A padded text is read back with its own length.** -/
theorem Value.Padded.normal {v : Value} (h : v.Padded) : v.Normal := by
  cases v with
  | text field length =>
    obtain ⟨text, rfl, hterm, hfield⟩ := h
    show text.length = field.1.idxOf 0
    rw [hfield, List.idxOf_append_of_notMem hterm]
    cases valueTextMaxLen - text.length with
    | zero => rfl
    | succ k => rw [List.replicate_succ, List.idxOf_cons_self, Nat.add_zero]
  | _ => trivial

@[simp] theorem columnType_decodeValue (bs : List UInt8) (t : ColumnType) :
    (decodeValue bs t).columnType = t := by
  cases t <;> rfl

theorem normal_decodeValue (bs : List UInt8) (t : ColumnType) : (decodeValue bs t).Normal := by
  cases t
  · trivial
  · exact rfl
  · trivial

@[simp] theorem Value.length_bytes (v : Value) : v.bytes.length = v.columnType.width := by
  cases v with
  | integer v => exact Mem.length_int64Bytes v
  | text field length => exact field.2
  | boolean b => rfl

theorem bytes_decodeValue {bs : List UInt8} {t : ColumnType} (h : bs.length = t.width) :
    (decodeValue bs t).bytes = bs := by
  cases t with
  | columnInteger =>
    have h8 : bs.length = 8 := h
    have hread := Mem.int64Bytes_readInt64 (fun i => bs.getD i 0) 0
    have hbs : Mem.read (fun i => bs.getD i 0) 0 8 = bs := by
      rw [Mem.read_eq_iff h8]
      intro i hi
      simp [hi]
    rw [Mem.readInt64, Mem.readNat, hbs] at hread
    exact hread
  | columnText => exact TextField.overwrite_of_length h
  | columnBoolean =>
    obtain ⟨b, rfl⟩ := List.length_eq_one_iff.mp h
    rfl

theorem decodeValue_bytes {v : Value} (h : v.Normal) : decodeValue v.bytes v.columnType = v := by
  cases v with
  | integer v =>
    rw [Value.bytes, Value.columnType, decodeValue, Mem.ofLE_int64Bytes]
  | text field length =>
    have hfield : TextField.zero.overwrite field.1 = field :=
      Subtype.ext (TextField.overwrite_of_length field.2)
    rw [Value.bytes, Value.columnType, decodeValue, hfield, h]
  | boolean b => rfl

/-! ## Rows -/

/-- The serialized form of the values of a row. -/
def rowBytes (vs : List Value) : List UInt8 := vs.flatMap Value.bytes

/-- The width of a row. -/
def rowWidth (types : List ColumnType) : ℕ := (types.map ColumnType.width).sum

/-- The values in a run of bytes, one for each column. -/
def decodeValues : List ColumnType → List UInt8 → List Value
  | [], _ => []
  | t :: ts, bs => decodeValue (bs.take t.width) t :: decodeValues ts (bs.drop t.width)

@[simp] theorem rowWidth_cons (t : ColumnType) (ts : List ColumnType) :
    rowWidth (t :: ts) = t.width + rowWidth ts := by
  simp [rowWidth]

theorem length_rowBytes (vs : List Value) :
    (rowBytes vs).length = rowWidth (vs.map Value.columnType) := by
  induction vs with
  | nil => rfl
  | cons v vs ih =>
    rw [rowBytes, List.flatMap_cons, List.length_append, Value.length_bytes, List.map_cons,
      rowWidth_cons, ← ih]
    rfl

@[simp] theorem map_columnType_decodeValues (types : List ColumnType) (bs : List UInt8) :
    (decodeValues types bs).map Value.columnType = types := by
  induction types generalizing bs with
  | nil => rfl
  | cons t ts ih => rw [decodeValues, List.map_cons, columnType_decodeValue, ih]

@[simp] theorem length_decodeValues (types : List ColumnType) (bs : List UInt8) :
    (decodeValues types bs).length = types.length := by
  rw [← List.length_map (f := Value.columnType), map_columnType_decodeValues]

theorem normal_decodeValues {types : List ColumnType} {bs : List UInt8} :
    ∀ v ∈ decodeValues types bs, v.Normal := by
  induction types generalizing bs with
  | nil => simp [decodeValues]
  | cons t ts ih =>
    intro v hv
    rcases List.mem_cons.mp hv with rfl | hv
    · exact normal_decodeValue _ _
    · exact ih v hv

/-- Writing back a row that was read gives the bytes it was read from. -/
theorem rowBytes_decodeValues {types : List ColumnType} {bs : List UInt8}
    (h : bs.length = rowWidth types) : rowBytes (decodeValues types bs) = bs := by
  induction types generalizing bs with
  | nil =>
    obtain rfl : bs = [] := List.length_eq_zero_iff.mp h
    rfl
  | cons t ts ih =>
    rw [rowWidth_cons] at h
    have hhead : (bs.take t.width).length = t.width := by
      rw [List.length_take]
      omega
    have htail : (bs.drop t.width).length = rowWidth ts := by
      rw [List.length_drop]
      omega
    rw [decodeValues, rowBytes, List.flatMap_cons, bytes_decodeValue hhead]
    have := ih htail
    rw [rowBytes] at this
    rw [this, List.take_append_drop]

/-- Reading a row that was written gives back its values. -/
theorem decodeValues_rowBytes {vs : List Value} (h : ∀ v ∈ vs, v.Normal) :
    decodeValues (vs.map Value.columnType) (rowBytes vs) = vs := by
  induction vs with
  | nil => rfl
  | cons v vs ih =>
    rw [rowBytes, List.flatMap_cons, List.map_cons, decodeValues, ← Value.length_bytes v,
      List.take_left, List.drop_left, decodeValue_bytes (h v List.mem_cons_self)]
    exact congrArg _ (ih fun w hw => h w (List.mem_cons_of_mem _ hw))

/-! ## The loops -/

theorem serializeValues_eq (vs : List Value) (page : Page) (offset : ℕ) :
    serializeValues vs page offset = page.write offset (rowBytes vs) := by
  induction vs generalizing page offset with
  | nil => rw [serializeValues, rowBytes, List.flatMap_nil, Mem.write_nil]
  | cons v vs ih =>
    have hcons : rowBytes (v :: vs) = v.bytes ++ rowBytes vs := List.flatMap_cons
    have hlen := Value.length_bytes v
    rw [hcons, ← Mem.write_append, hlen]
    cases v <;> exact ih _ _

/-- `serialize_row` writes one run of bytes. -/
theorem serializeRow_eq (row : Row) (page : Page) (offset : ℕ) :
    serializeRow row page offset = page.write offset (rowBytes row.values) :=
  serializeValues_eq ..

theorem deserializeValue_eq (source : Page) (t : ColumnType) (offset : ℕ) :
    deserializeValue source t.toByte offset = .ok (decodeValue (source.read offset t.width) t) := by
  cases t with
  | columnInteger => rfl
  | columnText =>
    have hlen : (source.read offset valueTextMaxLen).length = valueTextMaxLen := Mem.length_read ..
    have hfield : TextField.zero.overwrite (source.read offset valueTextMaxLen) =
        ⟨source.read offset valueTextMaxLen, hlen⟩ :=
      Subtype.ext (TextField.overwrite_of_length hlen)
    rw [decodeValue, ColumnType.width, hfield]
    rfl
  | columnBoolean =>
    have hhead : (source.read offset 1).headD 0 = source offset := by simp [Mem.read]
    rw [decodeValue, ColumnType.width, hhead]
    rfl

/-- `deserialize_row` reads one run of bytes when every stored type names a type. -/
theorem deserializeValues_eq (source : Page) (types : List ColumnType) (offset : ℕ) :
    deserializeValues source (types.map ColumnType.toByte) offset =
      .ok (decodeValues types (source.read offset (rowWidth types))) := by
  induction types generalizing offset with
  | nil => rfl
  | cons t ts ih =>
    have htake : (source.read offset (t.width + rowWidth ts)).take t.width =
        source.read offset t.width := Mem.take_read (Nat.le_add_right ..)
    have hdrop : (source.read offset (t.width + rowWidth ts)).drop t.width =
        source.read (offset + t.width) (rowWidth ts) := by
      rw [Mem.drop_read (Nat.le_add_right ..), Nat.add_sub_cancel_left]
    rw [List.map_cons, deserializeValues, deserializeValue_eq, typeWidth_toByte, ih, rowWidth_cons,
      decodeValues, htake, hdrop]
    rfl

end MiniDB
