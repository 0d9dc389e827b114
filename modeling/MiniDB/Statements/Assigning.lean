import MiniDB.Parsing.Trees
import MiniDB.Statements.Conditions
import MiniDB.Statements.Update

/-!
# What the assignments of an `UPDATE` make of a row

A text is copied over the one that is there, and no terminator is written behind it; the length that
is read back afterwards runs to the first zero byte of the field.

* `assignedTo`, `getElem?_assigned`: the literals that are assigned to one column, one after the
  other.
* `decodeValues_rowBytes_stored`: what is read back of a row.
* `Value.Shows`: the value shows the literal.
* `Covers`, `shows_assignAll_iff`: **when the last literal is read back**.
-/

namespace MiniDB

open BPlusTree Pager

variable {as : List (ℕ × Expr)} {vs : List Value} {i k : ℕ} {v : Value} {e : Expr}

/-- The literals that are assigned to column `i`, the first one first. -/
def assignedTo (as : List (ℕ × Expr)) (i : ℕ) : List Expr :=
  (as.filter fun a => a.1 == i).map Prod.snd

/-- Literals put in the place of a value, one after the other. -/
def assignAll (es : List Expr) (v : Value) : Value := es.foldl (fun v e => assignedValue e v) v

theorem assignAll_cons (e : Expr) (es : List Expr) (v : Value) :
    assignAll (e :: es) v = assignAll es (assignedValue e v) := rfl

theorem assignAll_append (es : List Expr) (e : Expr) (v : Value) :
    assignAll (es ++ [e]) v = assignedValue e (assignAll es v) := by
  rw [assignAll, List.foldl_append]
  rfl

@[simp] theorem columnType_assignAll (es : List Expr) (v : Value) :
    (assignAll es v).columnType = v.columnType := by
  induction es generalizing v with
  | nil => rfl
  | cons e es ih => rw [assignAll_cons, ih, columnType_assignedValue]

/-- **The value of a column after all assignments.** -/
theorem getElem?_assigned (as : List (ℕ × Expr)) (vs : List Value) (i : ℕ) :
    (assigned as vs)[i]? = vs[i]?.map (assignAll (assignedTo as i)) := by
  induction as generalizing vs with
  | nil =>
    show vs[i]? = vs[i]?.map fun v => v
    rw [Option.map_id']
  | cons a as ih =>
    obtain ⟨j, e⟩ := a
    rw [assigned, ih, List.getElem?_modify]
    show (vs[i]?.map _).map _ = _
    rw [Option.map_map]
    by_cases hij : j = i
    · have hto : assignedTo ((j, e) :: as) i = e :: assignedTo as i := by
        rw [assignedTo, List.filter_cons_of_pos (by simpa using hij)]
        rfl
      rw [hto]
      simp only [if_pos hij]
      rfl
    · have hto : assignedTo ((j, e) :: as) i = assignedTo as i := by
        rw [assignedTo, List.filter_cons_of_neg (by simpa using hij)]
        rfl
      rw [hto]
      simp only [if_neg hij]
      rfl

/-! ## Reading back -/

/-- A value as it is read back after it was written: the length of a text is found anew. -/
def Value.stored : Value → Value
  | .text field _ => .text field (cstrnlen field.1)
  | v => v

@[simp] theorem columnType_stored (v : Value) : v.stored.columnType = v.columnType := by
  cases v <;> rfl

theorem bytes_stored (v : Value) : v.stored.bytes = v.bytes := by
  cases v <;> rfl

theorem normal_stored (v : Value) : v.stored.Normal := by
  cases v <;> trivial

/-- **What is read back** of a row that was written. -/
theorem decodeValues_rowBytes_stored (vs : List Value) :
    decodeValues (vs.map Value.columnType) (rowBytes vs) = vs.map Value.stored := by
  have hbytes : rowBytes (vs.map Value.stored) = rowBytes vs := by
    rw [rowBytes, List.flatMap_map]
    exact congrArg (fun f => vs.flatMap f) (funext bytes_stored)
  have htypes : (vs.map Value.stored).map Value.columnType = vs.map Value.columnType := by
    rw [List.map_map]
    exact List.map_congr_left fun v _ => columnType_stored v
  rw [← hbytes, ← htypes]
  refine decodeValues_rowBytes ?_
  intro w hw
  obtain ⟨v, -, rfl⟩ := List.mem_map.mp hw
  exact normal_stored v

/-- The value shows the literal: the number or the truth value itself, or the whole text. -/
def Value.Shows (e : Expr) : Value → Prop
  | .integer m => e = .literalInt m
  | .text field length => ∃ text, e = .literalString text ∧ length = text.length ∧
      field.1.take length = text
  | .boolean b => ∃ x, e = .literalBoolean x ∧ b = boolByte x

/-- The byte at position `k` of a text field. -/
def Value.textByte (k : ℕ) : Value → UInt8
  | .text field _ => field.1.getD k 0
  | _ => 0

/-- A text that is copied into a field leaves the bytes behind it alone. -/
theorem overwrite_eq (field : TextField) {text : List UInt8} (h : text.length ≤ valueTextMaxLen) :
    (field.overwrite text).1 = text ++ field.1.drop text.length := by
  have hlen := field.2
  refine List.take_of_length_le ?_
  rw [List.length_append, List.length_drop]
  omega

/-- The byte behind a text that was assigned. -/
theorem textByte_assignedValue (h : typeMatches v.columnType.toByte e = true)
    (hscan : ∀ text, e = .literalString text → 0 ∉ text)
    (hfit : ∀ text, e = .literalString text → text.length ≤ valueTextMaxLen) (k : ℕ) :
    (assignedValue e v).textByte k = 0 ↔
      v.textByte k = 0 ∧ ∀ text, e = .literalString text → text.length ≤ k := by
  cases v with
  | integer m =>
    obtain ⟨n, rfl⟩ := typeMatches_integer h
    exact ⟨fun _ => ⟨rfl, by rintro _ ⟨⟩⟩, fun _ => rfl⟩
  | boolean b =>
    cases e with
    | literalBoolean x => exact ⟨fun _ => ⟨rfl, by rintro _ ⟨⟩⟩, fun _ => rfl⟩
    | _ => simp [typeMatches, Value.columnType, ColumnType.toByte] at h
  | text field length =>
    cases e with
    | literalString text =>
      show (field.overwrite text).1.getD k 0 = 0 ↔ field.1.getD k 0 = 0 ∧ _
      rw [overwrite_eq _ (hfit text rfl)]
      rcases lt_or_ge k text.length with hk | hk
      · have hne : (text ++ field.1.drop text.length).getD k 0 ≠ 0 := by
          rw [List.getD_eq_getElem?_getD, List.getElem?_append_left hk,
            List.getElem?_eq_getElem hk, Option.getD_some]
          intro h0
          exact hscan text rfl (h0 ▸ List.getElem_mem hk)
        refine ⟨fun h0 => absurd h0 hne, fun hall => ?_⟩
        exact absurd (hall.2 text rfl) (not_le.mpr hk)
      · have hbyte : (text ++ field.1.drop text.length).getD k 0 = field.1.getD k 0 := by
          rw [List.getD_eq_getElem?_getD, List.getElem?_append_right hk, List.getElem?_drop,
            Nat.add_sub_cancel' hk, ← List.getD_eq_getElem?_getD]
        rw [hbyte]
        refine ⟨fun h0 => ⟨h0, ?_⟩, fun hall => hall.1⟩
        rintro _ ⟨⟩
        exact hk
    | _ => simp [typeMatches, Value.columnType, ColumnType.toByte] at h

/-- The byte behind all texts that were assigned. -/
theorem textByte_assignAll {es : List Expr}
    (h : ∀ e ∈ es, typeMatches v.columnType.toByte e = true) (hscan : AreScanned es)
    (hfit : TextsFit es) (k : ℕ) :
    (assignAll es v).textByte k = 0 ↔
      v.textByte k = 0 ∧ ∀ text, .literalString text ∈ es → text.length ≤ k := by
  induction es generalizing v with
  | nil => exact ⟨fun h0 => ⟨h0, fun _ hmem => absurd hmem List.not_mem_nil⟩, fun hall => hall.1⟩
  | cons e es ih =>
    have hhead := textByte_assignedValue (h e List.mem_cons_self)
      (by rintro text rfl; exact hscan text List.mem_cons_self)
      (by rintro text rfl; exact hfit text List.mem_cons_self) k
    have hrest : ∀ e' ∈ es, typeMatches (assignedValue e v).columnType.toByte e' = true := by
      intro e' he'
      rw [columnType_assignedValue]
      exact h e' (List.mem_cons_of_mem _ he')
    rw [assignAll_cons, ih hrest (fun text ht => hscan text (List.mem_cons_of_mem _ ht))
      (fun text ht => hfit text (List.mem_cons_of_mem _ ht)), hhead, and_assoc]
    refine and_congr_right fun _ => ?_
    constructor
    · rintro ⟨hfirst, hothers⟩ text ht
      rcases List.mem_cons.mp ht with heq | ht
      · exact hfirst text heq.symm
      · exact hothers text ht
    · intro hall
      refine ⟨?_, fun text ht => hall text (List.mem_cons_of_mem _ ht)⟩
      rintro text rfl
      exact hall text List.mem_cons_self

/-- The last of the literals that are assigned to a column covers the texts in front of it: it fills
the field, or it is at least as long as the others, and the old text has a zero byte behind it. -/
def Covers (es : List Expr) (last : Expr) (old : Value) : Prop :=
  ∀ text, last = .literalString text → text.length = valueTextMaxLen ∨
    (old.textByte text.length = 0 ∧ ∀ text', .literalString text' ∈ es → text'.length ≤ text.length)

/-- A text is read back just when a zero byte follows it, or the end of the field. -/
theorem shows_stored_iff {field : TextField} {text : List UInt8} (hscan : 0 ∉ text)
    (hfit : text.length ≤ valueTextMaxLen) (length : ℕ) :
    (Value.text (field.overwrite text) length).stored.Shows (.literalString text) ↔
      text.length = valueTextMaxLen ∨ field.1.getD text.length 0 = 0 := by
  have hlen := field.2
  have hfield := overwrite_eq field hfit
  have hshows : (Value.text (field.overwrite text) length).stored.Shows (.literalString text) ↔
      cstrnlen (field.overwrite text).1 = text.length := by
    constructor
    · rintro ⟨_, ⟨⟩, h, -⟩
      exact h
    · intro h
      refine ⟨text, rfl, h, ?_⟩
      rw [h, hfield, List.take_left]
  rw [hshows, hfield, cstrnlen, List.idxOf_append_of_notMem hscan]
  rcases Nat.lt_or_eq_of_le hfit with hlt | heq
  · rw [← hlen] at hlt
    rw [List.drop_eq_getElem_cons hlt, List.getD_eq_getElem?_getD, List.getElem?_eq_getElem hlt,
      Option.getD_some, List.idxOf_cons]
    by_cases h0 : field.1[text.length] = 0
    · simp [h0]
    · have hne : (field.1[text.length] == 0) = false := beq_eq_false_iff_ne.mpr h0
      rw [hne]
      simp only [cond_false]
      constructor
      · intro h
        omega
      · rintro (h | h)
        · omega
        · exact absurd h h0
  · rw [List.drop_of_length_le (by omega)]
    simp [heq]

/-- **The last literal that is assigned to a column is read back** just when it covers the
others. -/
theorem shows_assignAll_iff {es : List Expr} {last : Expr}
    (h : ∀ e ∈ es ++ [last], typeMatches v.columnType.toByte e = true)
    (hscan : AreScanned (es ++ [last])) (hfit : TextsFit (es ++ [last])) :
    (assignAll (es ++ [last]) v).stored.Shows last ↔ Covers es last v := by
  have htype := h last (by simp)
  have hes : ∀ e ∈ es, typeMatches v.columnType.toByte e = true := fun e he =>
    h e (List.mem_append_left _ he)
  have hbyte := textByte_assignAll hes (fun text ht => hscan text (List.mem_append_left _ ht))
    (fun text ht => hfit text (List.mem_append_left _ ht))
  rw [assignAll_append]
  have hsame := columnType_assignAll es v
  generalize assignAll es v = w at hbyte hsame
  rw [← hsame] at htype
  cases w with
  | integer m =>
    obtain ⟨n, rfl⟩ := typeMatches_integer htype
    exact ⟨fun _ => by rintro _ ⟨⟩, fun _ => rfl⟩
  | boolean b =>
    cases last with
    | literalBoolean x => exact ⟨fun _ => by rintro _ ⟨⟩, fun _ => ⟨x, rfl, rfl⟩⟩
    | _ => simp [typeMatches, Value.columnType, ColumnType.toByte] at htype
  | text field length =>
    cases last with
    | literalString text =>
      have hmem : .literalString text ∈ es ++ [.literalString text] := by simp
      refine (shows_stored_iff (hscan text hmem) (hfit text hmem) text.length).trans ?_
      have hb := hbyte text.length
      have hfield : (Value.text field length).textByte text.length = field.1.getD text.length 0 :=
        rfl
      rw [hfield] at hb
      rw [hb]
      constructor
      · rintro hall _ ⟨⟩
        exact hall
      · exact fun hall => hall text rfl
    | _ => simp [typeMatches, Value.columnType, ColumnType.toByte] at htype

end MiniDB
