import MiniDB.Model.Catalog

/-!
# Rows

The in-memory rows of `table.h` and their serialized form.  A serialized row has no tags: the widths
come from the row's own value types when it is written and from the catalog when it is read.
-/

namespace MiniDB

/-- `struct Table`, without the pager, which is passed along as the state. -/
structure Table where
  rootPageNum : ℕ
  tableName : List UInt8

/-- The array `char text[VALUE_TEXT_MAX_LEN]`. -/
abbrev TextField := { bs : List UInt8 // bs.length = valueTextMaxLen }

/-- `memcpy(field, text, length)` into the field, which keeps what stood behind. -/
def TextField.overwrite (field : TextField) (text : List UInt8) : TextField :=
  ⟨(text ++ field.1.drop text.length).take valueTextMaxLen, by
    have := field.2
    simp only [List.length_take, List.length_append, List.length_drop]
    omega⟩

/-- The field that `memset` clears. -/
def TextField.zero : TextField := ⟨List.replicate valueTextMaxLen 0, List.length_replicate⟩

/-- `Value`: the tag and the member it selects.  A boolean is kept as the byte it is copied as. -/
inductive Value where
  | integer (value : Int64)
  | text (field : TextField) (length : ℕ)
  | boolean (byte : UInt8)
  deriving DecidableEq

/-- `Row`; `value_count` is the length of the list.  There is room for eight values, and the code
runs over its end when the file has a larger column count. -/
structure Row where
  values : List Value
  deriving DecidableEq

instance : Inhabited Row := ⟨⟨[]⟩⟩

/-- `true` and `false` as bytes. -/
def boolByte (b : Bool) : UInt8 := if b then 1 else 0

/-- The loop of `serialize_row` from a value on. -/
def serializeValues : List Value → Page → ℕ → Page
  | [], page, _ => page
  | .integer v :: vs, page, offset => serializeValues vs (page.writeInt64 offset v) (offset + 8)
  | .text field _ :: vs, page, offset =>
    serializeValues vs (page.write offset field.1) (offset + valueTextMaxLen)
  | .boolean b :: vs, page, offset => serializeValues vs (page.write offset [b]) (offset + 1)

/-- `serialize_row`: `destination` is an offset into the page. -/
def serializeRow (row : Row) (page : Page) (destination : ℕ) : Page :=
  serializeValues row.values page destination

/-- One round of the loop of `deserialize_row`. -/
def deserializeValue (source : Page) (t : UInt8) (offset : ℕ) : Exec Value :=
  if t = ColumnType.columnInteger.toByte then .ok (.integer (source.readInt64 offset))
  else if t = ColumnType.columnText.toByte then
    .ok (.text ⟨source.read offset valueTextMaxLen, Mem.length_read ..⟩
      (cstrnlen (source.read offset valueTextMaxLen)))
  else if t = ColumnType.columnBoolean.toByte then .ok (.boolean (source offset))
  else .error .uninitialised

/-- The loop of `deserialize_row` over the stored types that remain. -/
def deserializeValues (source : Page) : List UInt8 → ℕ → Exec (List Value)
  | [], _ => .ok []
  | t :: ts, offset => do
    let v ← deserializeValue source t offset
    let vs ← deserializeValues source ts (offset + typeWidth t)
    return v :: vs

/-- `deserialize_row`: `source` is an offset into the page.  The catalog page was fetched when the
database was opened and stays cached. -/
def deserializeRow (s : Pager) (table : Table) (page : Page) (source : ℕ) : Exec Row := do
  let tableNum ← findTable (s.page 0) table.tableName
  let values ← deserializeValues page (storedTypes (s.page 0) tableNum) source
  return ⟨values⟩

end MiniDB
