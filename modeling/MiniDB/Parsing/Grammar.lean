import MiniDB.Model.Command

/-!
# The grammar of the statements

The statements as the README and the comments of the parser show them, token by token.  The lists in
a statement are a parameter: in the documented grammar, and in a `CREATE TABLE`, one comma stands
between two elements; the loops of the other statements pass over commas wherever they are.

* `Advances`: the tokens that a parser steps over.
* `Separated`, `Scattered`: the two kinds of lists.
* `AstNode.Spelled`: the tokens of a statement; `AstNode.Spelled.scattered`: the documented
  statements are among those with commas anywhere.
* `IsStatement`: a text that is one statement.
-/

namespace MiniDB

/-! ## Tokens -/

/-- The parser steps over the tokens, one after the other. -/
inductive Advances : Parser → List Token → Parser → Prop
  | refl (p : Parser) : Advances p [] p
  | step {p p' : Parser} {ts : List Token} :
      Advances (parserAdvance p) ts p' → Advances p (p.current :: ts) p'

variable {p q r : Parser} {ts us : List Token}

theorem Advances.trans (h : Advances p ts q) (h' : Advances q us r) : Advances p (ts ++ us) r := by
  induction h with
  | refl => exact h'
  | step _ ih => exact .step (ih h')

theorem Advances.one (p : Parser) : Advances p [p.current] (parserAdvance p) := .step (.refl _)

/-- What is left is at most one semicolon. -/
def Parser.AtEnd (p : Parser) : Prop :=
  p.current.type = .tokenEof ∨
    (p.current.type = .tokenSemicolon ∧ (parserAdvance p).current.type = .tokenEof)

/-! ## Lists -/

section Lists

variable {α : Type} {elem : α → List Token → Prop} {xs : List α}

/-- Elements each of which has a comma in front of it. -/
inductive CommaEach (elem : α → List Token → Prop) : List α → List Token → Prop
  | nil : CommaEach elem [] []
  | cons {x : α} {xs : List α} {t : Token} {us ts : List Token} : t.type = .tokenComma →
      elem x us → CommaEach elem xs ts → CommaEach elem (x :: xs) (t :: (us ++ ts))

/-- At least one element, and one comma between two of them. -/
inductive Separated (elem : α → List Token → Prop) : List α → List Token → Prop
  | mk {x : α} {xs : List α} {us ts : List Token} : elem x us → CommaEach elem xs ts →
      Separated elem (x :: xs) (us ++ ts)

/-- Any number of elements, and commas anywhere between, in front of and behind them. -/
inductive Scattered (elem : α → List Token → Prop) : List α → List Token → Prop
  | nil : Scattered elem [] []
  | comma {xs : List α} {t : Token} {ts : List Token} : t.type = .tokenComma →
      Scattered elem xs ts → Scattered elem xs (t :: ts)
  | cons {x : α} {xs : List α} {us ts : List Token} : elem x us → Scattered elem xs ts →
      Scattered elem (x :: xs) (us ++ ts)

/-- The commas of a documented list stand somewhere. -/
theorem Separated.scattered (h : Separated elem xs ts) : Scattered elem xs ts := by
  obtain ⟨hx, hrest⟩ := h
  refine .cons hx ?_
  induction hrest with
  | nil => exact .nil
  | cons ht hy _ ih => exact .comma ht (.cons hy ih)

end Lists

/-! ## Expressions -/

/-- The token of a literal or of a column. -/
inductive SpellsPrimary : Expr → Token → Prop
  | integer {t : Token} : t.type = .tokenInteger → SpellsPrimary (.literalInt t.intValue) t
  | string {t : Token} : t.type = .tokenString → SpellsPrimary (.literalString t.text) t
  | column {t : Token} : t.type = .tokenIdentifier → SpellsPrimary (.column t.text) t
  | true {t : Token} : t.type = .tokenTrue → SpellsPrimary (.literalBoolean Bool.true) t
  | false {t : Token} : t.type = .tokenFalse → SpellsPrimary (.literalBoolean Bool.false) t

/-- A condition in front of the token `next`. -/
inductive SpellsCondition (next : Token) : Expr → List Token → Prop
  | primary {e : Expr} {t : Token} : SpellsPrimary e t → next.type ≠ .tokenEqual →
      SpellsCondition next e [t]
  | equals {left right : Expr} {t eq u : Token} : SpellsPrimary left t → eq.type = .tokenEqual →
      SpellsPrimary right u → SpellsCondition next (.equals left right) [t, eq, u]

/-- A `WHERE` clause that may be missing, in front of the token `next`. -/
inductive SpellsWhere (next : Token) : Option Expr → List Token → Prop
  | none : next.type ≠ .tokenWhere → SpellsWhere next Option.none []
  | some {w : Token} {e : Expr} {ts : List Token} : w.type = .tokenWhere →
      SpellsCondition next e ts → SpellsWhere next (Option.some e) (w :: ts)

/-! ## Elements of lists -/

inductive SpellsColumn : Expr → List Token → Prop
  | mk {t : Token} : t.type = .tokenIdentifier → SpellsColumn (.column t.text) [t]

inductive SpellsValue : Expr → List Token → Prop
  | mk {e : Expr} {t : Token} : SpellsPrimary e t → SpellsValue e [t]

/-- `column = value` -/
inductive SpellsAssignment : Expr × Expr → List Token → Prop
  | mk {t eq u : Token} {value : Expr} : t.type = .tokenIdentifier → eq.type = .tokenEqual →
      SpellsPrimary value u → SpellsAssignment (.column t.text, value) [t, eq, u]

/-- The token of a column type. -/
def SpellsType (columnType : ColumnType) (t : Token) : Prop :=
  t.type = match columnType with
    | .columnInteger => .tokenTypeInteger
    | .columnText => .tokenTypeText
    | .columnBoolean => .tokenTypeBoolean

inductive SpellsDefinition : ColumnDefinition → List Token → Prop
  | plain {t u : Token} {columnType : ColumnType} : t.type = .tokenIdentifier →
      SpellsType columnType u → SpellsDefinition ⟨t.text, columnType, Bool.false⟩ [t, u]
  | primary {t u k l : Token} {columnType : ColumnType} : t.type = .tokenIdentifier →
      SpellsType columnType u → k.type = .tokenPrimary → l.type = .tokenKey →
      SpellsDefinition ⟨t.text, columnType, Bool.true⟩ [t, u, k, l]

/-! ## Statements -/

/-- The tokens of a statement in front of the token `next`.  The lists are spelled by `list`, except
for that of a `CREATE TABLE`. -/
inductive AstNode.Spelled
    (list : ∀ α : Type, (α → List Token → Prop) → List α → List Token → Prop) (next : Token) :
    AstNode → List Token → Prop
  | star {t₁ t₂ t₃ t : Token} {where_ : Option Expr} {ws : List Token} :
      t₁.type = .tokenSelect → t₂.type = .tokenStar → t₃.type = .tokenFrom →
      t.type = .tokenIdentifier → SpellsWhere next where_ ws →
      Spelled list next (.select t.text Bool.true [] where_) (t₁ :: t₂ :: t₃ :: t :: ws)
  | select {t₁ t₃ t : Token} {columns : List Expr} {where_ : Option Expr} {cs ws : List Token} :
      t₁.type = .tokenSelect → list Expr SpellsColumn columns cs → t₃.type = .tokenFrom →
      t.type = .tokenIdentifier → SpellsWhere next where_ ws →
      Spelled list next (.select t.text Bool.false columns where_) (t₁ :: (cs ++ t₃ :: t :: ws))
  | insert {t₁ t₂ t t₃ t₄ t₅ : Token} {values : List Expr} {vs : List Token} :
      t₁.type = .tokenInsert → t₂.type = .tokenInto → t.type = .tokenIdentifier →
      t₃.type = .tokenValue → t₄.type = .tokenLparen → list Expr SpellsValue values vs →
      t₅.type = .tokenRparen →
      Spelled list next (.insert t.text values) (t₁ :: t₂ :: t :: t₃ :: t₄ :: (vs ++ [t₅]))
  | updateTable {t₁ t t₂ t₃ : Token} {assignments : List (Expr × Expr)} {where_ : Expr}
      {vs ws : List Token} :
      t₁.type = .tokenUpdate → t.type = .tokenIdentifier → t₂.type = .tokenSet →
      list (Expr × Expr) SpellsAssignment assignments vs → t₃.type = .tokenWhere →
      SpellsCondition next where_ ws →
      Spelled list next (.updateTable t.text (assignments.map Prod.fst)
        (assignments.map Prod.snd) (Option.some where_)) (t₁ :: t :: t₂ :: (vs ++ t₃ :: ws))
  | deleteTable {t₁ t₂ t : Token} {where_ : Option Expr} {ws : List Token} :
      t₁.type = .tokenDelete → t₂.type = .tokenFrom → t.type = .tokenIdentifier →
      SpellsWhere next where_ ws →
      Spelled list next (.deleteTable t.text where_) (t₁ :: t₂ :: t :: ws)
  | createTable {t₁ t₂ t t₃ t₄ : Token} {definitions : List ColumnDefinition} {ds : List Token} :
      t₁.type = .tokenCreate → t₂.type = .tokenTable → t.type = .tokenIdentifier →
      t₃.type = .tokenLparen → Separated SpellsDefinition definitions ds →
      t₄.type = .tokenRparen →
      (∃ d, definitions.filter ColumnDefinition.isPrimary = [d] ∧ d.columnType = .columnInteger) →
      Spelled list next (.createTable t.text definitions) (t₁ :: t₂ :: t :: t₃ :: (ds ++ [t₄]))

/-- A statement of the documented grammar is spelled with its commas in some places. -/
theorem AstNode.Spelled.scattered {tree : AstNode} {next : Token}
    (h : tree.Spelled @Separated next ts) : tree.Spelled @Scattered next ts := by
  cases h with
  | star h₁ h₂ h₃ h hw => exact .star h₁ h₂ h₃ h hw
  | select h₁ hlist h₃ h hw => exact .select h₁ hlist.scattered h₃ h hw
  | insert h₁ h₂ h h₃ h₄ hlist h₅ => exact .insert h₁ h₂ h h₃ h₄ hlist.scattered h₅
  | updateTable h₁ h h₂ hlist h₃ hw => exact .updateTable h₁ h h₂ hlist.scattered h₃ hw
  | deleteTable h₁ h₂ h hw => exact .deleteTable h₁ h₂ h hw
  | createTable h₁ h₂ h h₃ hlist h₄ hkey => exact .createTable h₁ h₂ h h₃ hlist h₄ hkey

/-- The text is one statement of the documented grammar, and at most one semicolon. -/
def IsStatement (text : List UInt8) (tree : AstNode) : Prop :=
  ∃ ts p, Advances (parserInit text) ts p ∧ tree.Spelled @Separated p.current ts ∧ p.AtEnd

end MiniDB
