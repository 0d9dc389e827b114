import MiniDB.Codes
import MiniDB.Console.Input
import MiniDB.Console.Numbers
import Mathlib.Data.List.TakeWhile

/-!
# Trees and plans can be read off their printing

* `PlainText`: a text that is printed as it is, on one line.
* `astPrintExpr_code`, `planPrintNode_code`: **what is printed for a node is self-delimiting**.
* `printed_astPrint`, `printed_planPrint`: **trees and plans that are printed alike are the same**.
-/

namespace MiniDB

open Codes

/-- What `printf` writes for some lines. -/
def printed (lines : List (List UInt8)) : List UInt8 := lines.flatMap fun line => line ++ [10]

/-- A text that is printed as it is, on one line. -/
def PlainText (text : List UInt8) : Prop := 0 ∉ text ∧ 10 ∉ text

/-- The texts of an expression are printed as they are. -/
def Expr.Plain : Expr → Prop
  | .literalInt _ | .literalBoolean _ => True
  | .literalString text => PlainText text
  | .column name => PlainText name
  | .equals left right => left.Plain ∧ right.Plain

/-- The trees that `.ast` prints, with plain texts. -/
def AstNode.Printable : AstNode → Prop
  | .insert table values => PlainText table ∧ ∀ e ∈ values, e.Plain
  | .select table _ columns where_ =>
    PlainText table ∧ (∀ e ∈ columns, e.Plain) ∧ ∀ e ∈ where_, e.Plain
  | .createTable table definitions => PlainText table ∧ ∀ d ∈ definitions, PlainText d.name
  | .updateTable _ _ _ _ | .deleteTable _ _ => False

/-- The plans with plain texts. -/
def PlanNode.Printable : PlanNode → Prop
  | .tableScan _ _ | .pkLookup _ _ _ => True
  | .filter child condition => child.Printable ∧ condition.Plain
  | .projection child columns => child.Printable ∧ ∀ e ∈ columns, e.Plain
  | .insert _ values => ∀ e ∈ values, e.Plain

variable {text text' : List UInt8} {lines lines' rest rest' : List (List UInt8)} {depth : ℕ}

/-- No line ends inside a line. -/
def NoBreak (lines : List (List UInt8)) : Prop := ∀ line ∈ lines, 10 ∉ line

/-- **Lines can be read off what is written for them.** -/
theorem printed_injective (h : NoBreak lines) (h' : NoBreak lines')
    (heq : printed lines = printed lines') :
    lines = lines' := by
  calc lines = inputLines (printed lines) := (inputLines_join h).symm
    _ = inputLines (printed lines') := by rw [heq]
    _ = lines' := inputLines_join h'

/-! ## Lines -/

theorem printSlice_eq (h : PlainText text) : printSlice text = text := by
  refine List.takeWhile_eq_self_iff.mpr fun b hb => ?_
  rw [bne_iff_ne]
  rintro rfl
  exact h.1 hb

theorem printSlice_injective (h : PlainText text) (h' : PlainText text')
    (heq : printSlice text = printSlice text') : text = text' := by
  rwa [printSlice_eq h, printSlice_eq h'] at heq

theorem printBool_injective : ∀ b b' : Bool, printBool b = printBool b' → b = b' := by decide

theorem typeName_injective : ∀ t t' : ColumnType, t.typeName = t'.typeName → t = t' := by
  intro t t' h
  cases t <;> cases t' <;> first | rfl | exact absurd h (by decide)

theorem indented_injective (h : indented depth text = indented depth text') : text = text' :=
  List.append_cancel_left h

theorem propertyLine_injective {name : String}
    (h : propertyLine depth name text = propertyLine depth name text') :
    text = text' := List.append_cancel_left (indented_injective h)

/-- The first line of a node gives its type. -/
theorem nodeLines_append {kind : String}
    (h : nodeLines kind text depth lines ++ rest = nodeLines kind text' depth lines' ++ rest') :
    text = text' ∧ lines ++ rest = lines' ++ rest' := by
  obtain ⟨hhead, htail⟩ := List.cons.inj h
  exact ⟨List.append_cancel_left (List.append_cancel_right (indented_injective hhead)), htail⟩

/-! ## Expressions -/

/-- `ast_node_type_by_name` on an expression. -/
def Expr.typeName : Expr → List UInt8
  | .literalInt _ => ascii "EXPR_LITERAL_INT"
  | .literalString _ => ascii "EXPR_LITERAL_STRING"
  | .literalBoolean _ => ascii "EXPR_LITERAL_BOOLEAN"
  | .column _ => ascii "EXPR_COLUMN"
  | .equals _ _ => ascii "EXPR_EQUALS"

theorem astPrintExpr_typeName {e e' : Expr}
    (h : astPrintExpr e depth ++ rest = astPrintExpr e' depth ++ rest') :
    e.typeName = e'.typeName := by
  cases e <;> cases e' <;> exact (nodeLines_append h).1

/-- **What is printed for an expression is self-delimiting.** -/
theorem astPrintExpr_code (depth : ℕ) :
    SelfDelimiting Expr.Plain fun e => astPrintExpr e depth := by
  intro e
  induction e generalizing depth with
  | literalInt n =>
    intro _ e' _ r s heq
    have htype := astPrintExpr_typeName heq
    cases e' with
    | literalInt n' =>
      obtain ⟨hline, hrest⟩ := List.cons.inj (nodeLines_append heq).2
      exact ⟨congrArg _ (printInt64_injective (propertyLine_injective hline)), hrest⟩
    | _ => exact absurd htype (by simp only [Expr.typeName]; decide)
  | literalString text =>
    intro hplain e' hplain' r s heq
    have htype := astPrintExpr_typeName heq
    cases e' with
    | literalString text' =>
      obtain ⟨hline, hrest⟩ := List.cons.inj (nodeLines_append heq).2
      have htext := printSlice_injective hplain hplain' (propertyLine_injective hline)
      exact ⟨congrArg _ htext, hrest⟩
    | _ => exact absurd htype (by simp only [Expr.typeName]; decide)
  | literalBoolean b =>
    intro _ e' _ r s heq
    have htype := astPrintExpr_typeName heq
    cases e' with
    | literalBoolean b' =>
      obtain ⟨hline, hrest⟩ := List.cons.inj (nodeLines_append heq).2
      exact ⟨congrArg _ (printBool_injective _ _ (propertyLine_injective hline)), hrest⟩
    | _ => exact absurd htype (by simp only [Expr.typeName]; decide)
  | column name =>
    intro hplain e' hplain' r s heq
    have htype := astPrintExpr_typeName heq
    cases e' with
    | column name' =>
      obtain ⟨hline, hrest⟩ := List.cons.inj (nodeLines_append heq).2
      have hname := printSlice_injective hplain hplain' (propertyLine_injective hline)
      exact ⟨congrArg _ hname, hrest⟩
    | _ => exact absurd htype (by simp only [Expr.typeName]; decide)
  | equals left right ihl ihr =>
    intro hplain e' hplain' r s heq
    have htype := astPrintExpr_typeName heq
    cases e' with
    | equals left' right' =>
      have hbody := (nodeLines_append heq).2
      simp only [List.cons_append, List.append_assoc] at hbody
      obtain ⟨hleft, hrest⟩ := ihl (depth + 2) hplain.1 hplain'.1 (List.cons.inj hbody).2
      obtain ⟨hright, hend⟩ := ihr (depth + 2) hplain.2 hplain'.2 (List.cons.inj hrest).2
      exact ⟨by rw [hleft, hright], hend⟩
    | _ => exact absurd htype (by simp only [Expr.typeName]; decide)

/-- A line that is indented deeper is another one. -/
theorem indented_ne {deeper : ℕ} (hlt : depth < deeper) {b : UInt8} (hb : b ≠ 32) :
    indented deeper text ≠ indented depth (b :: text') := by
  intro heq
  have hget := congrArg (fun line => getElem? line (2 * depth)) heq
  simp only [indented] at hget
  rw [List.getElem?_append_left (by rw [List.length_replicate]; omega),
    List.getElem?_append_right (by rw [List.length_replicate]), List.length_replicate, Nat.sub_self,
    List.getElem?_replicate_of_lt (by omega)] at hget
  exact hb (Option.some_inj.mp hget).symm

/-- **So is a list of expressions**, up to its bracket. -/
theorem listLines_code (depth : ℕ) (name : String) :
    SelfDelimiting (fun es : List Expr => ∀ e ∈ es, e.Plain) fun es =>
      listLines depth name (es.flatMap fun e => astPrintExpr e (depth + 2)) := by
  refine ((astPrintExpr_code (depth + 2)).list fun e _ => ?_).cons _
  cases e <;> exact ⟨_, _, rfl, indented_ne (by omega) (by decide)⟩

/-- A condition that may be missing. -/
theorem astPrintOption_code (depth : ℕ) :
    SelfDelimiting (fun e : Option Expr => ∀ c ∈ e, c.Plain) fun e => astPrintOption e depth := by
  have hne : ∀ (e : Expr) r s,
      astPrintExpr e depth ++ r ≠ [indented depth (ascii "NULL")] ++ s := by
    intro e r s heq
    have hhead : ∀ text, ascii "AstNode" ++ text ≠ ascii "NULL" := by
      intro text h
      simp [ascii] at h
    cases e <;> exact hhead _ (indented_injective (List.cons.inj heq).1)
  intro e he e' he' r s heq
  cases e with
  | none =>
    cases e' with
    | none => exact ⟨rfl, (List.cons.inj heq).2⟩
    | some c' => exact absurd heq.symm (hne c' _ _)
  | some c =>
    cases e' with
    | none => exact absurd heq (hne c _ _)
    | some c' =>
      obtain ⟨hc, hrest⟩ := astPrintExpr_code depth (he c rfl) (he' c' rfl) heq
      exact ⟨congrArg some hc, hrest⟩

/-- A definition of a column. -/
theorem astPrintDefinition_code (depth : ℕ) :
    SelfDelimiting (fun d : ColumnDefinition => PlainText d.name) fun d =>
      astPrintDefinition d depth := by
  intro d hd d' hd' r s heq
  obtain ⟨hname, hbody⟩ := List.cons.inj (nodeLines_append heq).2
  obtain ⟨htype, hbody⟩ := List.cons.inj hbody
  obtain ⟨hkey, hrest⟩ := List.cons.inj hbody
  have h1 := printSlice_injective hd hd' (propertyLine_injective hname)
  have h2 := typeName_injective _ _ (propertyLine_injective htype)
  have h3 := printBool_injective _ _ (propertyLine_injective hkey)
  obtain ⟨name, columnType, isPrimary⟩ := d
  obtain ⟨name', columnType', isPrimary'⟩ := d'
  exact ⟨by rw [ColumnDefinition.mk.injEq]; exact ⟨h1, h2, h3⟩, hrest⟩

theorem definitions_code (depth : ℕ) (name : String) :
    SelfDelimiting (fun ds : List ColumnDefinition => ∀ d ∈ ds, PlainText d.name) fun ds =>
      listLines depth name (ds.flatMap fun d => astPrintDefinition d (depth + 2)) := by
  refine ((astPrintDefinition_code (depth + 2)).list fun d _ => ?_).cons _
  exact ⟨_, _, rfl, indented_ne (by omega) (by decide)⟩

/-! ## Statements -/

/-- `ast_node_type_by_name` on a statement. -/
def AstNode.typeName : AstNode → List UInt8
  | .insert _ _ => ascii "AST_INSERT"
  | .select _ _ _ _ => ascii "AST_SELECT"
  | .createTable _ _ => ascii "AST_CREATE_TABLE"
  | .updateTable _ _ _ _ | .deleteTable _ _ => ascii "AST_UNKNOWN"

theorem astPrint_typeName {tree tree' : AstNode}
    (h : astPrint tree ++ rest = astPrint tree' ++ rest') : tree.typeName = tree'.typeName := by
  cases tree <;> cases tree' <;> exact (nodeLines_append h).1

/-- **What is printed for a statement is self-delimiting.** -/
theorem astPrint_code : SelfDelimiting AstNode.Printable astPrint := by
  intro tree htree tree' htree' r s heq
  have htype := astPrint_typeName heq
  cases tree with
  | insert table values =>
    cases tree' with
    | insert table' values' =>
      obtain ⟨hline, hbody⟩ := List.cons.inj (nodeLines_append heq).2
      have htable := printSlice_injective htree.1 htree'.1 (propertyLine_injective hline)
      obtain ⟨hvalues, hrest⟩ := listLines_code 0 "values" htree.2 htree'.2 hbody
      exact ⟨by rw [htable, hvalues], hrest⟩
    | _ => exact absurd htype (by simp only [AstNode.typeName]; decide)
  | select table isStar columns where_ =>
    cases tree' with
    | select table' isStar' columns' where' =>
      have hbody := (nodeLines_append heq).2
      simp only [List.cons_append, List.nil_append, List.append_assoc] at hbody
      obtain ⟨hline, hbody⟩ := List.cons.inj hbody
      obtain ⟨hstar, hbody⟩ := List.cons.inj hbody
      have htable := printSlice_injective htree.1 htree'.1 (propertyLine_injective hline)
      have hisStar := printBool_injective _ _ (propertyLine_injective hstar)
      obtain ⟨hwhere, hbody⟩ := astPrintOption_code 2 htree.2.2 htree'.2.2 (List.cons.inj hbody).2
      obtain ⟨hcolumns, hrest⟩ := listLines_code 0 "columns" htree.2.1 htree'.2.1 hbody
      exact ⟨by rw [htable, hisStar, hwhere, hcolumns], hrest⟩
    | _ => exact absurd htype (by simp only [AstNode.typeName]; decide)
  | createTable table definitions =>
    cases tree' with
    | createTable table' definitions' =>
      obtain ⟨hline, hbody⟩ := List.cons.inj (nodeLines_append heq).2
      have htable := printSlice_injective htree.1 htree'.1 (propertyLine_injective hline)
      obtain ⟨hdefinitions, hrest⟩ := definitions_code 0 "columns" htree.2 htree'.2 hbody
      exact ⟨by rw [htable, hdefinitions], hrest⟩
    | _ => exact absurd htype (by simp only [AstNode.typeName]; decide)
  | updateTable _ _ _ _ => exact absurd htree id
  | deleteTable _ _ => exact absurd htree id

/-! ## Plans -/

/-- `plan_node_type_name` -/
def PlanNode.typeName : PlanNode → List UInt8
  | .tableScan _ _ => ascii "PLAN_TABLE_SCAN"
  | .pkLookup _ _ _ => ascii "PLAN_PK_LOOKUP"
  | .filter _ _ => ascii "PLAN_FILTER"
  | .projection _ _ => ascii "PLAN_PROJECTION"
  | .insert _ _ => ascii "PLAN_INSERT"

theorem planPrintNode_typeName {plan plan' : PlanNode}
    (h : planPrintNode plan depth ++ rest = planPrintNode plan' depth ++ rest') :
    plan.typeName = plan'.typeName := by
  cases plan <;> cases plan' <;> exact (nodeLines_append h).1

/-- **What is printed for a plan is self-delimiting.** -/
theorem planPrintNode_code (depth : ℕ) :
    SelfDelimiting PlanNode.Printable fun plan => planPrintNode plan depth := by
  intro plan
  induction plan generalizing depth with
  | tableScan root rowSize =>
    intro _ plan' _ r s heq
    have htype := planPrintNode_typeName heq
    cases plan' with
    | tableScan root' rowSize' =>
      obtain ⟨hroot, hbody⟩ := List.cons.inj (nodeLines_append heq).2
      obtain ⟨hsize, hrest⟩ := List.cons.inj hbody
      have h1 := printNat_injective (propertyLine_injective hroot)
      have h2 := printNat_injective (propertyLine_injective hsize)
      exact ⟨by rw [h1, h2], hrest⟩
    | _ => exact absurd htype (by simp only [PlanNode.typeName]; decide)
  | pkLookup root key rowSize =>
    intro _ plan' _ r s heq
    have htype := planPrintNode_typeName heq
    cases plan' with
    | pkLookup root' key' rowSize' =>
      obtain ⟨hroot, hbody⟩ := List.cons.inj (nodeLines_append heq).2
      obtain ⟨hkey, hbody⟩ := List.cons.inj hbody
      obtain ⟨hsize, hrest⟩ := List.cons.inj hbody
      have h1 := printNat_injective (propertyLine_injective hroot)
      have h2 := printInt64_injective (propertyLine_injective hkey)
      have h3 := printNat_injective (propertyLine_injective hsize)
      exact ⟨by rw [h1, h2, h3], hrest⟩
    | _ => exact absurd htype (by simp only [PlanNode.typeName]; decide)
  | filter child condition ih =>
    intro hplan plan' hplan' r s heq
    have htype := planPrintNode_typeName heq
    cases plan' with
    | filter child' condition' =>
      have hbody := (nodeLines_append heq).2
      simp only [List.cons_append, List.append_assoc] at hbody
      obtain ⟨hcondition, hbody⟩ :=
        astPrintExpr_code (depth + 2) hplan.2 hplan'.2 (List.cons.inj hbody).2
      obtain ⟨hchild, hrest⟩ := ih (depth + 2) hplan.1 hplan'.1 (List.cons.inj hbody).2
      exact ⟨by rw [hcondition, hchild], hrest⟩
    | _ => exact absurd htype (by simp only [PlanNode.typeName]; decide)
  | projection child columns ih =>
    intro hplan plan' hplan' r s heq
    have htype := planPrintNode_typeName heq
    cases plan' with
    | projection child' columns' =>
      have hbody := (nodeLines_append heq).2
      rw [List.append_assoc, List.append_assoc] at hbody
      obtain ⟨hcolumns, hbody⟩ := listLines_code depth "columns" hplan.2 hplan'.2 hbody
      obtain ⟨hchild, hrest⟩ := ih (depth + 2) hplan.1 hplan'.1 (List.cons.inj hbody).2
      exact ⟨by rw [hcolumns, hchild], hrest⟩
    | _ => exact absurd htype (by simp only [PlanNode.typeName]; decide)
  | insert root values =>
    intro hplan plan' hplan' r s heq
    have htype := planPrintNode_typeName heq
    cases plan' with
    | insert root' values' =>
      obtain ⟨hroot, hbody⟩ := List.cons.inj (nodeLines_append heq).2
      have h1 := printNat_injective (propertyLine_injective hroot)
      obtain ⟨hvalues, hrest⟩ := listLines_code depth "values" hplan hplan' hbody
      exact ⟨by rw [h1, hvalues], hrest⟩
    | _ => exact absurd htype (by simp only [PlanNode.typeName]; decide)

/-! ## Line ends -/

theorem noBreak_cons {line : List UInt8} (h : 10 ∉ line) (hlines : NoBreak lines) :
    NoBreak (line :: lines) := by
  intro l hl
  rcases List.mem_cons.mp hl with rfl | hl
  · exact h
  · exact hlines l hl

theorem noBreak_append (h : NoBreak lines) (h' : NoBreak lines') : NoBreak (lines ++ lines') := by
  intro l hl
  rcases List.mem_append.mp hl with hl | hl
  · exact h l hl
  · exact h' l hl

theorem noBreak_flatMap {α : Type} {as : List α} {f : α → List (List UInt8)}
    (h : ∀ a ∈ as, NoBreak (f a)) : NoBreak (as.flatMap f) := by
  intro l hl
  obtain ⟨a, ha, hl⟩ := List.mem_flatMap.mp hl
  exact h a ha l hl

theorem noBreak_nil : NoBreak [] := fun _ hl => absurd hl List.not_mem_nil

theorem notMem_append {line line' : List UInt8} (h : 10 ∉ line) (h' : 10 ∉ line') :
    10 ∉ line ++ line' := fun hmem => (List.mem_append.mp hmem).elim h h'

theorem noBreak_indented (h : 10 ∉ text) : 10 ∉ indented depth text := by
  refine notMem_append (fun hmem => ?_) h
  exact absurd (List.eq_of_mem_replicate hmem) (by decide)

theorem noBreak_propertyLine {name : String} (hname : 10 ∉ ascii name) (h : 10 ∉ text) :
    10 ∉ propertyLine depth name text :=
  noBreak_indented (notMem_append (notMem_append hname (by decide)) h)

theorem noBreak_headLine {name : String} (hname : 10 ∉ ascii name) : 10 ∉ headLine depth name :=
  noBreak_indented (notMem_append hname (by decide))

theorem noBreak_nodeLines {kind : String} (hkind : 10 ∉ ascii kind) (htype : 10 ∉ text)
    (h : NoBreak rest) : NoBreak (nodeLines kind text depth rest) := by
  refine noBreak_cons (noBreak_indented ?_) h
  exact notMem_append (notMem_append (notMem_append hkind (by decide)) htype) (by decide)

theorem noBreak_listLines {name : String} (hname : 10 ∉ ascii name) (h : NoBreak lines) :
    NoBreak (listLines depth name lines) := by
  refine noBreak_append (noBreak_cons (noBreak_indented ?_) h)
    (noBreak_cons (noBreak_indented (by decide)) noBreak_nil)
  exact notMem_append hname (by decide)

theorem noBreak_printSlice (h : PlainText text) : 10 ∉ printSlice text := by
  rw [printSlice_eq h]
  exact h.2

theorem noBreak_printBool (b : Bool) : 10 ∉ printBool b := by
  cases b <;> decide

theorem noBreak_typeName (t : ColumnType) : 10 ∉ t.typeName := by
  cases t <;> decide

theorem noBreak_astPrintExpr {e : Expr} (he : e.Plain) (depth : ℕ) :
    NoBreak (astPrintExpr e depth) := by
  induction e generalizing depth with
  | literalInt n =>
    exact noBreak_nodeLines (by decide) (by decide)
      (noBreak_cons (noBreak_propertyLine (by decide) (noBreak_printInt64 n)) noBreak_nil)
  | literalString text =>
    exact noBreak_nodeLines (by decide) (by decide)
      (noBreak_cons (noBreak_propertyLine (by decide) (noBreak_printSlice he)) noBreak_nil)
  | literalBoolean b =>
    exact noBreak_nodeLines (by decide) (by decide)
      (noBreak_cons (noBreak_propertyLine (by decide) (noBreak_printBool b)) noBreak_nil)
  | column name =>
    exact noBreak_nodeLines (by decide) (by decide)
      (noBreak_cons (noBreak_propertyLine (by decide) (noBreak_printSlice he)) noBreak_nil)
  | equals left right ihl ihr =>
    refine noBreak_nodeLines (by decide) (by decide) (noBreak_append ?_ ?_)
    · exact noBreak_cons (noBreak_headLine (by decide)) (ihl he.1 _)
    · exact noBreak_cons (noBreak_headLine (by decide)) (ihr he.2 _)

theorem noBreak_astPrint {tree : AstNode} (h : tree.Printable) : NoBreak (astPrint tree) := by
  cases tree with
  | insert table values =>
    refine noBreak_nodeLines (by decide) (by decide)
      (noBreak_cons (noBreak_propertyLine (by decide) (noBreak_printSlice h.1))
        (noBreak_listLines (by decide) (noBreak_flatMap fun e he => ?_)))
    exact noBreak_astPrintExpr (h.2 e he) _
  | select table isStar columns where_ =>
    refine noBreak_nodeLines (by decide) (by decide) (noBreak_append (noBreak_append ?_ ?_)
      (noBreak_listLines (by decide) (noBreak_flatMap fun e he => ?_)))
    · exact noBreak_cons (noBreak_propertyLine (by decide) (noBreak_printSlice h.1))
        (noBreak_cons (noBreak_propertyLine (by decide) (noBreak_printBool _))
          (noBreak_cons (noBreak_headLine (by decide)) noBreak_nil))
    · cases where_ with
      | none => exact noBreak_cons (noBreak_indented (by decide)) noBreak_nil
      | some c => exact noBreak_astPrintExpr (h.2.2 c rfl) _
    · exact noBreak_astPrintExpr (h.2.1 e he) _
  | createTable table definitions =>
    refine noBreak_nodeLines (by decide) (by decide)
      (noBreak_cons (noBreak_propertyLine (by decide) (noBreak_printSlice h.1))
        (noBreak_listLines (by decide) (noBreak_flatMap fun d hd => ?_)))
    refine noBreak_nodeLines (by decide) (by decide)
      (noBreak_cons (noBreak_propertyLine (by decide) (noBreak_printSlice (h.2 d hd)))
        (noBreak_cons (noBreak_propertyLine (by decide) (noBreak_typeName _))
          (noBreak_cons (noBreak_propertyLine (by decide) (noBreak_printBool _)) noBreak_nil)))
  | updateTable _ _ _ _ => exact absurd h id
  | deleteTable _ _ => exact absurd h id

theorem noBreak_planPrintNode {plan : PlanNode} (h : plan.Printable) (depth : ℕ) :
    NoBreak (planPrintNode plan depth) := by
  induction plan generalizing depth with
  | tableScan root rowSize =>
    exact noBreak_nodeLines (by decide) (by decide)
      (noBreak_cons (noBreak_propertyLine (by decide) (noBreak_printNat root))
        (noBreak_cons (noBreak_propertyLine (by decide) (noBreak_printNat rowSize)) noBreak_nil))
  | pkLookup root key rowSize =>
    exact noBreak_nodeLines (by decide) (by decide)
      (noBreak_cons (noBreak_propertyLine (by decide) (noBreak_printNat root))
        (noBreak_cons (noBreak_propertyLine (by decide) (noBreak_printInt64 key))
          (noBreak_cons (noBreak_propertyLine (by decide) (noBreak_printNat rowSize)) noBreak_nil)))
  | filter child condition ih =>
    refine noBreak_nodeLines (by decide) (by decide) (noBreak_append ?_ ?_)
    · exact noBreak_cons (noBreak_headLine (by decide)) (noBreak_astPrintExpr h.2 _)
    · exact noBreak_cons (noBreak_headLine (by decide)) (ih h.1 _)
  | projection child columns ih =>
    refine noBreak_nodeLines (by decide) (by decide) (noBreak_append ?_ ?_)
    · exact noBreak_listLines (by decide) (noBreak_flatMap fun e he =>
        noBreak_astPrintExpr (h.2 e he) _)
    · exact noBreak_cons (noBreak_headLine (by decide)) (ih h.1 _)
  | insert root values =>
    refine noBreak_nodeLines (by decide) (by decide)
      (noBreak_cons (noBreak_propertyLine (by decide) (noBreak_printNat root))
        (noBreak_listLines (by decide) (noBreak_flatMap fun e he => ?_)))
    exact noBreak_astPrintExpr (h e he) _

/-! ## Reading back -/

/-- **Statements that are printed alike** are the same. -/
theorem printed_astPrint {tree tree' : AstNode} (h : tree.Printable) (h' : tree'.Printable) :
    printed (astPrint tree) = printed (astPrint tree') ↔ tree = tree' := by
  refine ⟨fun heq => ?_, fun heq => heq ▸ rfl⟩
  exact astPrint_code.injective h h'
    (printed_injective (noBreak_astPrint h) (noBreak_astPrint h') heq)

/-- **Plans that are printed alike** are the same. -/
theorem printed_planPrint {plan plan' : PlanNode} (h : plan.Printable) (h' : plan'.Printable) :
    printed (planPrint plan) = printed (planPrint plan') ↔ plan = plan' := by
  refine ⟨fun heq => ?_, fun heq => heq ▸ rfl⟩
  exact (planPrintNode_code 0).injective h h'
    (printed_injective (noBreak_planPrintNode h 0) (noBreak_planPrintNode h' 0) heq)

end MiniDB
