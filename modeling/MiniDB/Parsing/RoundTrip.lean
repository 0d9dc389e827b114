import MiniDB.Model.Command
import MiniDB.Parsing.Printing
import MiniDB.Statements.Create

/-!
# Parsing undoes printing

* `AstNode.WellFormed`, `AstNode.lexemes`: the statements that can be written down, and how.
* `Facing`: a parser in front of a list of lexemes.
* `Facing.values`, `Facing.selectColumns`, `Facing.assignments`, `Facing.columnDefinitions`: the
  loops over lists.
* `parseStatement_renders`: **a statement that was printed is read back**.
-/

namespace MiniDB

/-! ## Printing -/

/-- The lexemes of a list but for its first element, each behind a comma. -/
def commaTail : List (List Lexeme) → List Lexeme
  | [] => []
  | x :: xs => .symbol .tokenComma :: (x ++ commaTail xs)

/-- The lexemes of a list with single commas. -/
def commaSeparated : List (List Lexeme) → List Lexeme
  | [] => []
  | x :: xs => x ++ commaTail xs

def Expr.lexemes : Expr → List Lexeme
  | .literalInt value => [.number value.toInt.toNat]
  | .literalString text => [.string text]
  | .literalBoolean value => [.keyword (if value then .tokenTrue else .tokenFalse)]
  | .column name => [.name name]
  | .equals left right => left.lexemes ++ .symbol .tokenEqual :: right.lexemes

/-- A literal that can be written down, or a name. -/
def Expr.IsPrimary : Expr → Prop
  | .literalInt value => 0 ≤ value
  | .literalString text => ∀ b ∈ text, b ≠ 39 ∧ b ≠ 0
  | .literalBoolean _ => True
  | .column name => IsName name
  | .equals _ _ => False

/-- A single primary, or a comparison of two. -/
def Expr.IsCondition (e : Expr) : Prop :=
  e.IsPrimary ∨ ∃ left right, e = .equals left right ∧ left.IsPrimary ∧ right.IsPrimary

def whereLexemes : Option Expr → List Lexeme
  | none => []
  | some condition => .keyword .tokenWhere :: condition.lexemes

def ColumnType.keyword : ColumnType → TokenType
  | .columnInteger => .tokenTypeInteger
  | .columnText => .tokenTypeText
  | .columnBoolean => .tokenTypeBoolean

def ColumnDefinition.lexemes (d : ColumnDefinition) : List Lexeme :=
  .name d.name :: .keyword d.columnType.keyword ::
    if d.isPrimary then [.keyword .tokenPrimary, .keyword .tokenKey] else []

def assignmentLexemes (a : Expr × Expr) : List Lexeme :=
  a.1.lexemes ++ .symbol .tokenEqual :: a.2.lexemes

/-- The lexemes of a statement, up to its semicolon. -/
def AstNode.lexemes : AstNode → List Lexeme
  | .select table isStar columns where_ =>
    .keyword .tokenSelect ::
      ((if isStar then [.symbol .tokenStar] else commaSeparated (columns.map Expr.lexemes)) ++
        .keyword .tokenFrom :: .name table :: whereLexemes where_)
  | .insert table values =>
    .keyword .tokenInsert :: .keyword .tokenInto :: .name table :: .keyword .tokenValue ::
      .symbol .tokenLparen ::
        (commaSeparated (values.map Expr.lexemes) ++ [.symbol .tokenRparen])
  | .createTable table definitions =>
    .keyword .tokenCreate :: .keyword .tokenTable :: .name table :: .symbol .tokenLparen ::
      (commaSeparated (definitions.map ColumnDefinition.lexemes) ++ [.symbol .tokenRparen])
  | .updateTable table columns values where_ =>
    .keyword .tokenUpdate :: .name table :: .keyword .tokenSet ::
      (commaSeparated ((columns.zip values).map assignmentLexemes) ++ whereLexemes where_)
  | .deleteTable table where_ =>
    .keyword .tokenDelete :: .keyword .tokenFrom :: .name table :: whereLexemes where_

/-- The names of columns. -/
def AreNames (columns : List Expr) : Prop := ∀ e ∈ columns, ∃ name, e = .column name ∧ IsName name

/-- The statements that can be written down. -/
def AstNode.WellFormed : AstNode → Prop
  | .select table isStar columns where_ =>
    IsName table ∧ (isStar = true ↔ columns = []) ∧ columns.length ≤ maxTableColumns ∧
      AreNames columns ∧ ∀ condition ∈ where_, condition.IsCondition
  | .insert table values =>
    IsName table ∧ values ≠ [] ∧ values.length ≤ maxTableColumns ∧ ∀ e ∈ values, e.IsPrimary
  | .createTable table definitions =>
    IsName table ∧ ValidDefinitions definitions ∧ ∀ d ∈ definitions, IsName d.name
  | .updateTable table columns values where_ =>
    IsName table ∧ columns ≠ [] ∧ columns.length = values.length ∧
      columns.length ≤ maxTableColumns ∧ AreNames columns ∧ (∀ e ∈ values, e.IsPrimary) ∧
      ∃ condition, where_ = some condition ∧ condition.IsCondition
  | .deleteTable table where_ => IsName table ∧ ∀ condition ∈ where_, condition.IsCondition

/-! ## Parsers in front of lexemes -/

/-- The parser has read the first lexeme, and the others follow. -/
def Facing (p : Parser) : List Lexeme → Prop
  | [] => p.current.type = .tokenEof
  | l :: ls => l.Matches p.current ∧ Renders l.isWord ls p.tokenizer.cursor ∧ ∀ l' ∈ ls, l'.Valid

variable {p : Parser} {l : Lexeme} {ls : List Lexeme} {text : List UInt8} {e : Expr}

theorem facing_getNextToken {t : Tokenizer} {afterWord : Bool} (h : Renders afterWord ls t.cursor)
    (hv : ∀ l ∈ ls, l.Valid) (out : Token) :
    Facing ⟨(getNextToken t out).2, (getNextToken t out).1⟩ ls := by
  cases ls with
  | nil => exact getNextToken_renders_nil h out
  | cons l ls =>
    obtain ⟨hmatch, hrest⟩ := getNextToken_renders h hv out
    exact ⟨hmatch, hrest, fun l' hl' => hv l' (List.mem_cons_of_mem _ hl')⟩

theorem Facing.init (h : Renders false ls text) (hv : ∀ l ∈ ls, l.Valid) :
    Facing (parserInit text) ls := facing_getNextToken (t := tokenizerInit text) h hv _

theorem Facing.advance (h : Facing p (l :: ls)) : Facing (parserAdvance p) ls :=
  facing_getNextToken h.2.1 h.2.2 _

theorem Facing.type (h : Facing p (l :: ls)) : p.current.type = l.type := h.1.type

theorem Facing.length_le (h : Facing p (l :: ls)) : ls.length ≤ p.tokenizer.cursor.length :=
  h.2.1.length_le h.2.2

theorem Facing.keyword {type : TokenType} (h : Facing p (.keyword type :: ls)) (expected : String) :
    ∃ p', expectToken p type expected = .ok p' ∧ Facing p' ls :=
  ⟨parserAdvance p, if_pos h.type, h.advance⟩

theorem Facing.symbol {type : TokenType} (h : Facing p (.symbol type :: ls)) (expected : String) :
    ∃ p', expectToken p type expected = .ok p' ∧ Facing p' ls :=
  ⟨parserAdvance p, if_pos h.type, h.advance⟩

theorem Facing.tableName {name : List UInt8} (h : Facing p (.name name :: ls)) :
    ∃ p', parseTableName p = .ok (name, p') ∧ Facing p' ls := by
  refine ⟨parserAdvance p, ?_, h.advance⟩
  have htype : p.current.type = .tokenIdentifier := h.type
  unfold parseTableName
  rw [if_pos htype, h.1.name name rfl]

/-- A name that stands for a column. -/
theorem Facing.column {name : List UInt8} (h : Facing p (.name name :: ls)) :
    parsePrimaryExpression p = .ok (.column name, parserAdvance p) := by
  have htype : p.current.type = .tokenIdentifier := h.type
  unfold parsePrimaryExpression
  rw [htype]
  show Except.ok (Expr.column p.current.text, _) = _
  rw [h.1.name name rfl]

/-- A primary is one lexeme. -/
theorem Expr.IsPrimary.lexemes (he : e.IsPrimary) : ∃ l, e.lexemes = [l] ∧ l.Valid ∧
    l.type ∈ [TokenType.tokenInteger, .tokenString, .tokenIdentifier, .tokenTrue, .tokenFalse] ∧
    ∀ p : Parser, l.Matches p.current → parsePrimaryExpression p = .ok (e, parserAdvance p) := by
  cases e with
  | literalInt value =>
    have hle : (0 : Int64).toInt ≤ value.toInt := Int64.le_iff_toInt_le.mp he
    have hlt := value.toInt_lt
    have hround : (value.toInt.toNat : ℤ) = value.toInt := Int.toNat_of_nonneg hle
    refine ⟨_, rfl, ?_, by simp [Lexeme.type], ?_⟩
    · show value.toInt.toNat < 2 ^ 63
      omega
    · intro p hp
      unfold parsePrimaryExpression
      rw [hp.type]
      show Except.ok (Expr.literalInt p.current.intValue, _) = _
      have heq : Int64.ofNat value.toInt.toNat = value := by
        rw [← Int64.toInt_inj, Int64.toInt_ofNat_of_lt (by omega), hround]
      rw [hp.number _ rfl, heq]
  | literalString text =>
    refine ⟨_, rfl, he, by simp [Lexeme.type], ?_⟩
    intro p hp
    unfold parsePrimaryExpression
    rw [hp.type]
    show Except.ok (Expr.literalString p.current.text, _) = _
    rw [hp.string _ rfl]
  | literalBoolean value =>
    refine ⟨_, rfl, trivial, by cases value <;> decide, ?_⟩
    intro p hp
    unfold parsePrimaryExpression
    rw [hp.type]
    cases value <;> rfl
  | column name =>
    refine ⟨_, rfl, he, by simp [Lexeme.type], ?_⟩
    intro p hp
    unfold parsePrimaryExpression
    rw [hp.type]
    show Except.ok (Expr.column p.current.text, _) = _
    rw [hp.name _ rfl]
  | equals left right => exact he.elim

theorem Facing.primary (he : e.IsPrimary) (h : Facing p (e.lexemes ++ ls)) :
    ∃ p', parsePrimaryExpression p = .ok (e, p') ∧ Facing p' ls := by
  obtain ⟨l, hl, -, -, hparse⟩ := he.lexemes
  rw [hl] at h
  exact ⟨_, hparse p h.1, Facing.advance h⟩

/-- The token that a primary starts with. -/
theorem Facing.primary_type (he : e.IsPrimary) (h : Facing p (e.lexemes ++ ls)) : p.current.type ∈
    [TokenType.tokenInteger, .tokenString, .tokenIdentifier, .tokenTrue, .tokenFalse] := by
  obtain ⟨l, hl, -, htype, -⟩ := he.lexemes
  rw [hl] at h
  rw [Facing.type h]
  exact htype

/-- What may follow a statement. -/
def Follows (ls : List Lexeme) : Prop := ls = [] ∨ ls = [.symbol .tokenSemicolon]

theorem Facing.follows (h : Facing p ls) (hls : Follows ls) :
    p.current.type = .tokenEof ∨ p.current.type = .tokenSemicolon := by
  rcases hls with rfl | rfl
  · exact Or.inl h
  · exact Or.inr h.type

theorem Facing.expression (he : e.IsCondition) (hls : Follows ls) (h : Facing p (e.lexemes ++ ls)) :
    ∃ p', parseExpression p = .ok (e, p') ∧ Facing p' ls := by
  rcases he with he | ⟨left, right, rfl, hleft, hright⟩
  · obtain ⟨p', hparse, h'⟩ := h.primary he
    refine ⟨p', ?_, h'⟩
    unfold parseExpression
    rw [hparse]
    show (if p'.current.type = .tokenEqual then _ else _) = _
    rw [if_neg]
    · rfl
    · rcases h'.follows hls with htype | htype <;> rw [htype] <;> decide
  · rw [Expr.lexemes, List.append_assoc, List.cons_append] at h
    obtain ⟨p₁, hparse₁, h₁⟩ := h.primary hleft
    obtain ⟨p₂, hparse₂, h₂⟩ := h₁.advance.primary hright
    refine ⟨p₂, ?_, h₂⟩
    unfold parseExpression
    rw [hparse₁]
    have htype : p₁.current.type = .tokenEqual := h₁.type
    show (if p₁.current.type = .tokenEqual then _ else _) = _
    rw [if_pos htype, hparse₂]
    rfl

theorem Facing.where_ {where_ : Option Expr} (hw : ∀ condition ∈ where_, condition.IsCondition)
    (hls : Follows ls) (h : Facing p (whereLexemes where_ ++ ls)) :
    ∃ p', parseWhere p = .ok (where_, p') ∧ Facing p' ls := by
  cases where_ with
  | none =>
    refine ⟨p, if_neg ?_, h⟩
    rcases Facing.follows h hls with htype | htype <;> rw [htype] <;> decide
  | some condition =>
    obtain ⟨p', hparse, h'⟩ := (Facing.advance h).expression (hw condition rfl) hls
    refine ⟨p', ?_, h'⟩
    have htype : p.current.type = .tokenWhere := Facing.type h
    unfold parseWhere
    rw [if_pos htype, hparse]
    rfl

/-! ## Lists -/

theorem two_mul_le_commaTail {xs : List (List Lexeme)} (h : ∀ x ∈ xs, x ≠ []) :
    2 * xs.length ≤ (commaTail xs).length := by
  induction xs with
  | nil => exact le_rfl
  | cons x xs ih =>
    have hx : 0 < x.length := List.length_pos_iff.mpr (h x List.mem_cons_self)
    have hle := ih fun y hy => h y (List.mem_cons_of_mem _ hy)
    simp only [commaTail, List.length_cons, List.length_append]
    omega

theorem length_commaSeparated {xs : List (List Lexeme)} (h : ∀ x ∈ xs, x ≠ []) :
    2 * xs.length ≤ (commaSeparated xs).length + 1 := by
  cases xs with
  | nil => exact Nat.zero_le _
  | cons x xs =>
    have hx : 0 < x.length := List.length_pos_iff.mpr (h x List.mem_cons_self)
    have hle := two_mul_le_commaTail fun y hy => h y (List.mem_cons_of_mem _ hy)
    simp only [commaSeparated, List.length_cons, List.length_append]
    omega

/-- The rounds that a loop over a list gets are enough. -/
theorem Facing.rounds {xs : List (List Lexeme)} (hxs : ∀ x ∈ xs, x ≠ [])
    (h : Facing p (commaSeparated xs ++ ls)) : 2 * xs.length ≤ p.rounds := by
  have hlen := length_commaSeparated hxs
  have hrounds : p.rounds = p.tokenizer.cursor.length + maxTableColumns + 2 := rfl
  cases heq : commaSeparated xs ++ ls with
  | nil =>
    rw [List.append_eq_nil_iff.mp heq |>.1, List.length_nil] at hlen
    omega
  | cons l ls' =>
    rw [heq] at h
    have hle := h.length_le
    have htotal := congrArg List.length heq
    simp only [List.length_append, List.length_cons] at htotal
    omega

theorem Expr.IsPrimary.lexemes_ne_nil (he : e.IsPrimary) : e.lexemes ≠ [] := by
  obtain ⟨l, hl, -⟩ := he.lexemes
  rw [hl]
  exact List.cons_ne_nil _ _

/-! ### The values of an `INSERT` -/

/-- One value. -/
theorem Facing.value (he : e.IsPrimary) (values : List Expr)
    (hlen : values.length < maxTableColumns)
    (rounds : ℕ) (h : Facing p (e.lexemes ++ ls)) :
    ∃ p', parseValues (rounds + 1) p values = parseValues rounds p' (values ++ [e]) ∧
      Facing p' ls := by
  obtain ⟨p', hparse, h'⟩ := h.primary he
  have htype := h.primary_type he
  have hother : ∀ type ∈ [TokenType.tokenInteger, .tokenString, .tokenIdentifier, .tokenTrue,
      .tokenFalse], ¬ (type = .tokenEof ∨ type = .tokenRparen) ∧ type ≠ .tokenComma := by decide
  obtain ⟨hend, hcomma⟩ := hother _ htype
  refine ⟨p', ?_, h'⟩
  rw [parseValues, if_neg hend, if_neg hcomma, if_neg (not_le.mpr hlen), hparse]
  rfl

/-- The values behind the first. -/
theorem Facing.values_tail {values : List Expr} (hv : ∀ e ∈ values, e.IsPrimary) (rounds : ℕ)
    (before : List Expr) (hlen : before.length + values.length ≤ maxTableColumns)
    (hrounds : 2 * values.length < rounds)
    (h : Facing p (commaTail (values.map Expr.lexemes) ++ .symbol .tokenRparen :: ls)) :
    ∃ p', parseValues rounds p before = .ok (before ++ values, p') ∧
      Facing p' (.symbol .tokenRparen :: ls) := by
  induction values generalizing p rounds before with
  | nil =>
    obtain ⟨rounds, rfl⟩ : ∃ r, rounds = r + 1 := ⟨rounds - 1, by omega⟩
    have h' : Facing p (.symbol .tokenRparen :: ls) := h
    have htype : p.current.type = .tokenRparen := h'.type
    refine ⟨p, ?_, h'⟩
    rw [parseValues, if_pos (Or.inr htype), List.append_nil]
  | cons e values ih =>
    rw [List.length_cons] at hlen hrounds
    obtain ⟨rounds, rfl⟩ : ∃ r, rounds = r + 1 + 1 := ⟨rounds - 2, by omega⟩
    have htype : p.current.type = .tokenComma := Facing.type h
    have hnext : Facing (parserAdvance p)
        (e.lexemes ++ (commaTail (values.map Expr.lexemes) ++ .symbol .tokenRparen :: ls)) := by
      rw [← List.append_assoc]
      exact Facing.advance h
    obtain ⟨p₁, hstep, h₁⟩ := hnext.value (hv e List.mem_cons_self) before (by omega) rounds
    obtain ⟨p', hrun, h'⟩ := ih (fun e he => hv e (List.mem_cons_of_mem _ he)) rounds
      (before ++ [e]) (by simp only [List.length_append, List.length_singleton]; omega)
      (by omega) h₁
    refine ⟨p', ?_, h'⟩
    rw [parseValues, if_neg (by rw [htype]; decide), if_pos htype, hstep, hrun, List.append_assoc,
      List.singleton_append]

/-- The list of values. -/
theorem Facing.values {values : List Expr} (hne : values ≠ []) (hv : ∀ e ∈ values, e.IsPrimary)
    (hlen : values.length ≤ maxTableColumns)
    (h : Facing p (commaSeparated (values.map Expr.lexemes) ++ .symbol .tokenRparen :: ls)) :
    ∃ p', parseValues p.rounds p [] = .ok (values, p') ∧
      Facing p' (.symbol .tokenRparen :: ls) := by
  have hrounds := h.rounds fun x hx => by
    obtain ⟨e, he, rfl⟩ := List.mem_map.mp hx
    exact (hv e he).lexemes_ne_nil
  rw [List.length_map] at hrounds
  obtain ⟨e, values, rfl⟩ := List.exists_cons_of_ne_nil hne
  rw [List.length_cons] at hlen hrounds
  obtain ⟨rounds, heq⟩ : ∃ r, p.rounds = r + 1 := ⟨p.rounds - 1, by omega⟩
  rw [heq]
  have h₀ : Facing p
      (e.lexemes ++ (commaTail (values.map Expr.lexemes) ++ .symbol .tokenRparen :: ls)) := by
    rw [← List.append_assoc]
    exact h
  obtain ⟨p₁, hstep, h₁⟩ := h₀.value (hv e List.mem_cons_self) [] (by decide) rounds
  obtain ⟨p', hrun, h'⟩ := h₁.values_tail (fun e he => hv e (List.mem_cons_of_mem _ he))
    rounds [e] (by simp only [List.length_singleton]; omega) (by omega)
  exact ⟨p', hstep.trans hrun, h'⟩

/-! ### The columns of a `SELECT` -/

/-- One column. -/
theorem Facing.selectColumn {name : List UInt8} (columns : List Expr)
    (hlen : columns.length < maxTableColumns) (rounds : ℕ) (h : Facing p (.name name :: ls)) :
    ∃ p', parseSelectColumns (rounds + 1) p columns =
        parseSelectColumns rounds p' (columns ++ [.column name]) ∧ Facing p' ls := by
  have htype : p.current.type = .tokenIdentifier := h.type
  refine ⟨parserAdvance p, ?_, h.advance⟩
  rw [parseSelectColumns, if_neg (by rw [htype]; decide), if_neg (by rw [htype]; decide),
    if_neg (not_not.mpr htype), if_neg (not_le.mpr hlen), h.column]
  rfl

/-- The columns behind the first. -/
theorem Facing.selectColumns_tail {columns : List Expr} (hc : AreNames columns) (rounds : ℕ)
    (before : List Expr) (hlen : before.length + columns.length ≤ maxTableColumns)
    (hrounds : 2 * columns.length < rounds)
    (h : Facing p (commaTail (columns.map Expr.lexemes) ++ .keyword .tokenFrom :: ls)) :
    ∃ p', parseSelectColumns rounds p before = .ok (before ++ columns, p') ∧
      Facing p' (.keyword .tokenFrom :: ls) := by
  induction columns generalizing p rounds before with
  | nil =>
    obtain ⟨rounds, rfl⟩ : ∃ r, rounds = r + 1 := ⟨rounds - 1, by omega⟩
    have h' : Facing p (.keyword .tokenFrom :: ls) := h
    have htype : p.current.type = .tokenFrom := h'.type
    refine ⟨p, ?_, h'⟩
    rw [parseSelectColumns, if_pos (Or.inr htype), List.append_nil]
  | cons e columns ih =>
    rw [List.length_cons] at hlen hrounds
    obtain ⟨rounds, rfl⟩ : ∃ r, rounds = r + 1 + 1 := ⟨rounds - 2, by omega⟩
    obtain ⟨name, rfl, -⟩ := hc e List.mem_cons_self
    have htype : p.current.type = .tokenComma := Facing.type h
    have hnext : Facing (parserAdvance p) (.name name ::
        (commaTail (columns.map Expr.lexemes) ++ .keyword .tokenFrom :: ls)) := Facing.advance h
    obtain ⟨p₁, hstep, h₁⟩ := hnext.selectColumn before (by omega) rounds
    obtain ⟨p', hrun, h'⟩ := ih (fun e he => hc e (List.mem_cons_of_mem _ he)) rounds
      (before ++ [.column name])
      (by simp only [List.length_append, List.length_singleton]; omega) (by omega) h₁
    refine ⟨p', ?_, h'⟩
    rw [parseSelectColumns, if_neg (by rw [htype]; decide), if_pos htype, hstep, hrun,
      List.append_assoc, List.singleton_append]

/-- The list of columns. -/
theorem Facing.selectColumns {columns : List Expr} (hne : columns ≠ []) (hc : AreNames columns)
    (hlen : columns.length ≤ maxTableColumns)
    (h : Facing p (commaSeparated (columns.map Expr.lexemes) ++ .keyword .tokenFrom :: ls)) :
    ∃ p', parseSelectColumns p.rounds p [] = .ok (columns, p') ∧
      Facing p' (.keyword .tokenFrom :: ls) := by
  have hrounds := h.rounds fun x hx => by
    obtain ⟨e, he, rfl⟩ := List.mem_map.mp hx
    obtain ⟨name, rfl, -⟩ := hc e he
    exact List.cons_ne_nil _ _
  rw [List.length_map] at hrounds
  obtain ⟨e, columns, rfl⟩ := List.exists_cons_of_ne_nil hne
  obtain ⟨name, rfl, -⟩ := hc e List.mem_cons_self
  rw [List.length_cons] at hlen hrounds
  obtain ⟨rounds, heq⟩ : ∃ r, p.rounds = r + 1 := ⟨p.rounds - 1, by omega⟩
  rw [heq]
  have h₀ : Facing p (.name name ::
      (commaTail (columns.map Expr.lexemes) ++ .keyword .tokenFrom :: ls)) := h
  obtain ⟨p₁, hstep, h₁⟩ := h₀.selectColumn [] (by decide) rounds
  obtain ⟨p', hrun, h'⟩ := h₁.selectColumns_tail (fun e he => hc e (List.mem_cons_of_mem _ he))
    rounds [.column name] (by simp only [List.length_singleton]; omega) (by omega)
  exact ⟨p', hstep.trans hrun, h'⟩

/-- A star, or the list of columns. -/
theorem Facing.selectList {columns : List Expr} {isStar : Bool}
    (hstar : isStar = true ↔ columns = [])
    (hlen : columns.length ≤ maxTableColumns) (hc : AreNames columns)
    (h : Facing p ((if isStar then [.symbol .tokenStar]
      else commaSeparated (columns.map Expr.lexemes)) ++ .keyword .tokenFrom :: ls)) :
    ∃ p', (decide (p.current.type = .tokenStar) = isStar ∧
      (if p.current.type = .tokenStar then pure ([], parserAdvance p)
        else parseSelectColumns p.rounds p []) = (.ok (columns, p') : Parse _)) ∧
      Facing p' (.keyword .tokenFrom :: ls) := by
  cases isStar with
  | true =>
    have htype : p.current.type = .tokenStar := Facing.type h
    rw [hstar.mp rfl]
    exact ⟨parserAdvance p, ⟨decide_eq_true htype, if_pos htype⟩, Facing.advance h⟩
  | false =>
    have hne : columns ≠ [] := fun heq => Bool.false_ne_true (hstar.mpr heq)
    obtain ⟨p', hlist, h'⟩ := Facing.selectColumns hne hc hlen h
    obtain ⟨e, columns, rfl⟩ := List.exists_cons_of_ne_nil hne
    obtain ⟨name, rfl, -⟩ := hc e List.mem_cons_self
    have htype : p.current.type = .tokenIdentifier := Facing.type h
    have hno : p.current.type ≠ .tokenStar := by
      rw [htype]
      decide
    exact ⟨p', ⟨decide_eq_false hno, (if_neg hno).trans hlist⟩, h'⟩

/-! ### The assignments of an `UPDATE` -/

/-- One assignment. -/
theorem Facing.assignment {name : List UInt8} (he : e.IsPrimary) (columns values : List Expr)
    (hc : columns.length < maxTableColumns) (hv : values.length < maxTableColumns) (rounds : ℕ)
    (h : Facing p (assignmentLexemes (.column name, e) ++ ls)) :
    ∃ p', parseAssignments (rounds + 1) p columns values =
        parseAssignments rounds p' (columns ++ [.column name]) (values ++ [e]) ∧ Facing p' ls := by
  have h₀ : Facing p (.name name :: .symbol .tokenEqual :: (e.lexemes ++ ls)) := by
    simpa [assignmentLexemes, Expr.lexemes] using h
  have htype : p.current.type = .tokenIdentifier := h₀.type
  obtain ⟨p₁, hequal, h₁⟩ := h₀.advance.symbol "="
  obtain ⟨p₂, hvalue, h₂⟩ := h₁.primary he
  refine ⟨p₂, ?_, h₂⟩
  rw [parseAssignments, if_neg (by rw [htype]; decide), if_neg (by rw [htype]; decide),
    if_neg (not_not.mpr htype), if_neg (not_le.mpr hc), h₀.column]
  show (expectToken (parserAdvance p) .tokenEqual "=" >>= _) = _
  rw [hequal]
  show (if maxTableColumns ≤ values.length then _ else _) = _
  rw [if_neg (not_le.mpr hv), hvalue]
  rfl

/-- The assignments behind the first. -/
theorem Facing.assignments_tail {columns values : List Expr} (hc : AreNames columns)
    (hv : ∀ e ∈ values, e.IsPrimary) (heq : columns.length = values.length) (rounds : ℕ)
    (columns' values' : List Expr) (heq' : columns'.length = values'.length)
    (hlen : columns'.length + columns.length ≤ maxTableColumns)
    (hrounds : 2 * columns.length < rounds)
    (h : Facing p
      (commaTail ((columns.zip values).map assignmentLexemes) ++ .keyword .tokenWhere :: ls)) :
    ∃ p', parseAssignments rounds p columns' values' =
        .ok (columns' ++ columns, values' ++ values, p') ∧
      Facing p' (.keyword .tokenWhere :: ls) := by
  induction columns generalizing p rounds columns' values' values with
  | nil =>
    obtain rfl : values = [] := List.length_eq_zero_iff.mp heq.symm
    obtain ⟨rounds, rfl⟩ : ∃ r, rounds = r + 1 := ⟨rounds - 1, by omega⟩
    have h' : Facing p (.keyword .tokenWhere :: ls) := h
    have htype : p.current.type = .tokenWhere := h'.type
    refine ⟨p, ?_, h'⟩
    rw [parseAssignments, if_pos (Or.inr htype), List.append_nil, List.append_nil]
  | cons c columns ih =>
    obtain ⟨e, values, rfl⟩ : ∃ e es, values = e :: es := by
      cases values with
      | nil => cases heq
      | cons e es => exact ⟨e, es, rfl⟩
    simp only [List.length_cons, Nat.add_right_cancel_iff] at hlen hrounds heq
    obtain ⟨rounds, rfl⟩ : ∃ r, rounds = r + 1 + 1 := ⟨rounds - 2, by omega⟩
    obtain ⟨name, rfl, -⟩ := hc c List.mem_cons_self
    have htype : p.current.type = .tokenComma := Facing.type h
    have hnext : Facing (parserAdvance p) (assignmentLexemes (.column name, e) ++
        (commaTail ((columns.zip values).map assignmentLexemes) ++
          .keyword .tokenWhere :: ls)) := by
      rw [← List.append_assoc]
      exact Facing.advance h
    obtain ⟨p₁, hstep, h₁⟩ := hnext.assignment (hv e List.mem_cons_self) columns' values'
      (by omega) (by omega) rounds
    obtain ⟨p', hrun, h'⟩ := ih (fun e he => hc e (List.mem_cons_of_mem _ he))
      (fun e he => hv e (List.mem_cons_of_mem _ he)) heq rounds
      (columns' ++ [.column name]) (values' ++ [e]) (by simp [heq'])
      (by simp only [List.length_append, List.length_singleton]; omega) (by omega) h₁
    refine ⟨p', ?_, h'⟩
    rw [parseAssignments, if_neg (by rw [htype]; decide), if_pos htype, hstep, hrun,
      List.append_assoc, List.singleton_append, List.append_assoc, List.singleton_append]

/-- The list of assignments. -/
theorem Facing.assignments {columns values : List Expr} (hne : columns ≠ []) (hc : AreNames columns)
    (hv : ∀ e ∈ values, e.IsPrimary) (heq : columns.length = values.length)
    (hlen : columns.length ≤ maxTableColumns)
    (h : Facing p
      (commaSeparated ((columns.zip values).map assignmentLexemes) ++ .keyword .tokenWhere :: ls)) :
    ∃ p', parseAssignments p.rounds p [] [] = .ok (columns, values, p') ∧
      Facing p' (.keyword .tokenWhere :: ls) := by
  have hrounds := h.rounds fun x hx => by
    obtain ⟨a, -, rfl⟩ := List.mem_map.mp hx
    exact List.append_ne_nil_of_right_ne_nil _ (List.cons_ne_nil _ _)
  rw [List.length_map, List.length_zip, heq, Nat.min_self, ← heq] at hrounds
  obtain ⟨c, columns, rfl⟩ := List.exists_cons_of_ne_nil hne
  obtain ⟨e, values, rfl⟩ : ∃ e es, values = e :: es := by
    cases values with
    | nil => cases heq
    | cons e es => exact ⟨e, es, rfl⟩
  obtain ⟨name, rfl, -⟩ := hc c List.mem_cons_self
  simp only [List.length_cons, Nat.add_right_cancel_iff] at hlen hrounds heq
  obtain ⟨rounds, hr⟩ : ∃ r, p.rounds = r + 1 := ⟨p.rounds - 1, by omega⟩
  rw [hr]
  have h₀ : Facing p (assignmentLexemes (.column name, e) ++
      (commaTail ((columns.zip values).map assignmentLexemes) ++ .keyword .tokenWhere :: ls)) := by
    rw [← List.append_assoc]
    exact h
  obtain ⟨p₁, hstep, h₁⟩ := h₀.assignment (hv e List.mem_cons_self) [] []
    (by decide) (by decide) rounds
  obtain ⟨p', hrun, h'⟩ := h₁.assignments_tail (fun e he => hc e (List.mem_cons_of_mem _ he))
    (fun e he => hv e (List.mem_cons_of_mem _ he)) heq rounds
    [.column name] [e] rfl (by simp only [List.length_singleton]; omega) (by omega)
  exact ⟨p', hstep.trans hrun, h'⟩

/-! ### The columns of a `CREATE TABLE` -/

theorem Facing.columnType {t : ColumnType} (h : Facing p (.keyword t.keyword :: ls)) :
    ∃ p', parseColumnType p = .ok (t, p') ∧ Facing p' ls := by
  refine ⟨parserAdvance p, ?_, h.advance⟩
  have htype : p.current.type = t.keyword := h.type
  unfold parseColumnType
  rw [htype]
  cases t <;> rfl

/-- One column, when what follows is no `PRIMARY`. -/
theorem Facing.columnDefinition {d : ColumnDefinition} (h : Facing p (d.lexemes ++ ls))
    (hls : ∀ l ∈ ls.head?, l.type ≠ .tokenPrimary) (hne : ls ≠ []) :
    ∃ p', parseColumnDefinition p = .ok (d, p') ∧ Facing p' ls := by
  obtain ⟨name, columnType, isPrimary⟩ := d
  have htype : p.current.type = .tokenIdentifier := Facing.type h
  have htext : p.current.text = name := h.1.name name rfl
  obtain ⟨p₁, hcolumn, h₁⟩ := Facing.columnType (Facing.advance h)
  cases isPrimary with
  | true =>
    have htype₁ : p₁.current.type = .tokenPrimary := Facing.type h₁
    obtain ⟨p₂, hkey, h₂⟩ := Facing.keyword (Facing.advance h₁) "KEY"
    refine ⟨p₂, ?_, h₂⟩
    unfold parseColumnDefinition
    rw [if_neg (not_not.mpr htype), hcolumn]
    show (if p₁.current.type = .tokenPrimary then _ else _) = _
    rw [if_pos htype₁, hkey, htext]
    rfl
  | false =>
    have hno : p₁.current.type ≠ .tokenPrimary := by
      obtain ⟨l, ls', rfl⟩ := List.exists_cons_of_ne_nil hne
      have htype₁ : p₁.current.type = l.type := Facing.type h₁
      rw [htype₁]
      exact hls l rfl
    refine ⟨p₁, ?_, h₁⟩
    unfold parseColumnDefinition
    rw [if_neg (not_not.mpr htype), hcolumn]
    show (if p₁.current.type = .tokenPrimary then _ else _) = _
    rw [if_neg hno, htext]
    rfl

/-- What stands behind a column definition. -/
theorem head?_columns_tail (definitions : List ColumnDefinition) (ls : List Lexeme) :
    (∀ l ∈ (commaTail (definitions.map ColumnDefinition.lexemes) ++
      .symbol .tokenRparen :: ls).head?, l.type ≠ .tokenPrimary) ∧
    commaTail (definitions.map ColumnDefinition.lexemes) ++ .symbol .tokenRparen :: ls ≠ [] := by
  cases definitions with
  | nil =>
    refine ⟨?_, List.cons_ne_nil _ _⟩
    rintro _ ⟨⟩
    decide
  | cons d definitions =>
    refine ⟨?_, List.cons_ne_nil _ _⟩
    rintro _ ⟨⟩
    decide

/-- The column definitions behind the first. -/
theorem Facing.columnDefinitions_tail {definitions : List ColumnDefinition} (rounds : ℕ)
    (before : List ColumnDefinition) (hbefore : before ≠ [])
    (hlen : before.length + definitions.length ≤ maxTableColumns)
    (hrounds : definitions.length < rounds)
    (h : Facing p (commaTail (definitions.map ColumnDefinition.lexemes) ++
      .symbol .tokenRparen :: ls)) :
    ∃ p', parseColumnDefinitions rounds p before = .ok (before ++ definitions, p') ∧
      Facing p' (.symbol .tokenRparen :: ls) := by
  induction definitions generalizing p rounds before with
  | nil =>
    obtain ⟨rounds, rfl⟩ : ∃ r, rounds = r + 1 := ⟨rounds - 1, by omega⟩
    have h' : Facing p (.symbol .tokenRparen :: ls) := h
    have htype : p.current.type = .tokenRparen := h'.type
    refine ⟨p, ?_, h'⟩
    rw [parseColumnDefinitions, if_pos (Or.inr htype), List.append_nil]
  | cons d definitions ih =>
    rw [List.length_cons] at hlen hrounds
    obtain ⟨rounds, rfl⟩ : ∃ r, rounds = r + 1 := ⟨rounds - 1, by omega⟩
    have htype : p.current.type = .tokenComma := Facing.type h
    obtain ⟨p₁, hcomma, h₁⟩ := Facing.symbol h "',' or ')'"
    obtain ⟨hhead, hne⟩ := head?_columns_tail definitions ls
    rw [List.append_eq, List.append_assoc] at h₁
    obtain ⟨p₂, hparse, h₂⟩ := h₁.columnDefinition hhead hne
    obtain ⟨p', hrun, h'⟩ := ih rounds (before ++ [d]) (by simp)
      (by simp only [List.length_append, List.length_singleton]; omega) (by omega) h₂
    refine ⟨p', ?_, h'⟩
    have hzero : ¬ before.length = 0 := fun h0 => hbefore (List.length_eq_zero_iff.mp h0)
    rw [parseColumnDefinitions, if_neg (by rw [htype]; decide), if_neg hzero, hcomma]
    show (if maxTableColumns ≤ before.length then _ else _) = _
    rw [if_neg (by omega), hparse]
    show parseColumnDefinitions rounds p₂ (before ++ [d]) = _
    rw [hrun, List.append_assoc, List.singleton_append]

/-- The list of column definitions. -/
theorem Facing.columnDefinitions {definitions : List ColumnDefinition} (hne : definitions ≠ [])
    (hlen : definitions.length ≤ maxTableColumns)
    (h : Facing p (commaSeparated (definitions.map ColumnDefinition.lexemes) ++
      .symbol .tokenRparen :: ls)) :
    ∃ p', parseColumnDefinitions p.rounds p [] = .ok (definitions, p') ∧
      Facing p' (.symbol .tokenRparen :: ls) := by
  have hrounds := h.rounds fun x hx => by
    obtain ⟨d, -, rfl⟩ := List.mem_map.mp hx
    exact List.cons_ne_nil _ _
  rw [List.length_map] at hrounds
  obtain ⟨d, definitions, rfl⟩ := List.exists_cons_of_ne_nil hne
  rw [List.length_cons] at hlen hrounds
  obtain ⟨rounds, heq⟩ : ∃ r, p.rounds = r + 1 := ⟨p.rounds - 1, by omega⟩
  rw [heq]
  have h₀ : Facing p (d.lexemes ++
      (commaTail (definitions.map ColumnDefinition.lexemes) ++ .symbol .tokenRparen :: ls)) := by
    rw [← List.append_assoc]
    exact h
  have htype : p.current.type = .tokenIdentifier := Facing.type h₀
  obtain ⟨hhead, hne'⟩ := head?_columns_tail definitions ls
  obtain ⟨p₁, hparse, h₁⟩ := h₀.columnDefinition hhead hne'
  obtain ⟨p', hrun, h'⟩ := h₁.columnDefinitions_tail rounds [d] (List.cons_ne_nil _ _)
    (by simp only [List.length_singleton]; omega) (by omega)
  have hstep : parseColumnDefinitions (rounds + 1) p [] =
      parseColumnDefinitions rounds p₁ [d] := by
    rw [parseColumnDefinitions, if_neg (by rw [htype]; decide)]
    show (parseColumnDefinition p >>= _) = _
    rw [hparse]
    rfl
  exact ⟨p', hstep.trans hrun, h'⟩

/-! ## Statements -/

theorem valid_commaTail {xs : List (List Lexeme)} (h : ∀ x ∈ xs, ∀ l ∈ x, l.Valid) :
    ∀ l ∈ commaTail xs, l.Valid := by
  induction xs with
  | nil => exact fun l hl => absurd hl List.not_mem_nil
  | cons x xs ih =>
    intro l hl
    rcases List.mem_cons.mp hl with rfl | hl
    · trivial
    · rcases List.mem_append.mp hl with hl | hl
      · exact h x List.mem_cons_self l hl
      · exact ih (fun y hy => h y (List.mem_cons_of_mem _ hy)) l hl

theorem valid_commaSeparated {xs : List (List Lexeme)} (h : ∀ x ∈ xs, ∀ l ∈ x, l.Valid) :
    ∀ l ∈ commaSeparated xs, l.Valid := by
  cases xs with
  | nil => exact fun l hl => absurd hl List.not_mem_nil
  | cons x xs =>
    intro l hl
    rcases List.mem_append.mp hl with hl | hl
    · exact h x List.mem_cons_self l hl
    · exact valid_commaTail (fun y hy => h y (List.mem_cons_of_mem _ hy)) l hl

theorem Expr.IsPrimary.valid (he : e.IsPrimary) : ∀ l ∈ e.lexemes, l.Valid := by
  obtain ⟨l, hl, hv, -⟩ := he.lexemes
  rw [hl]
  intro l' hl'
  rwa [List.mem_singleton.mp hl']

theorem AreNames.primary {columns : List Expr} (h : AreNames columns) :
    ∀ e ∈ columns, e.IsPrimary := by
  intro e he
  obtain ⟨name, rfl, hname⟩ := h e he
  exact hname

theorem valid_primaries {es : List Expr} (h : ∀ e ∈ es, e.IsPrimary) :
    ∀ l ∈ commaSeparated (es.map Expr.lexemes), l.Valid := by
  refine valid_commaSeparated ?_
  intro x hx
  obtain ⟨e, he, rfl⟩ := List.mem_map.mp hx
  exact (h e he).valid

theorem valid_where {where_ : Option Expr} (h : ∀ condition ∈ where_, condition.IsCondition) :
    ∀ l ∈ whereLexemes where_, l.Valid := by
  cases where_ with
  | none => exact fun l hl => absurd hl List.not_mem_nil
  | some condition =>
    intro l hl
    rcases List.mem_cons.mp hl with rfl | hl
    · trivial
    · rcases h condition rfl with he | ⟨left, right, rfl, hleft, hright⟩
      · exact he.valid l hl
      · rcases List.mem_append.mp hl with hl | hl
        · exact hleft.valid l hl
        · rcases List.mem_cons.mp hl with rfl | hl
          · trivial
          · exact hright.valid l hl

/-- The lexemes of a statement can be read back. -/
theorem AstNode.WellFormed.valid {tree : AstNode} (h : tree.WellFormed) :
    ∀ l ∈ tree.lexemes, l.Valid := by
  have happend : ∀ {a b : List Lexeme}, (∀ l ∈ a, l.Valid) → (∀ l ∈ b, l.Valid) →
      ∀ l ∈ a ++ b, l.Valid := fun ha hb l hl =>
    (List.mem_append.mp hl).elim (ha l) (hb l)
  have hcons : ∀ {a : Lexeme} {b : List Lexeme}, a.Valid → (∀ l ∈ b, l.Valid) →
      ∀ l ∈ a :: b, l.Valid := fun ha hb l hl =>
    (List.mem_cons.mp hl).elim (fun heq => heq ▸ ha) (hb l)
  have hnil : ∀ l ∈ ([] : List Lexeme), l.Valid := fun l hl => absurd hl List.not_mem_nil
  cases tree with
  | select table isStar columns where_ =>
    obtain ⟨htable, -, -, hcolumns, hwhere⟩ := h
    refine hcons trivial (happend ?_ (hcons trivial (hcons htable (valid_where hwhere))))
    split
    · exact hcons trivial hnil
    · exact valid_primaries hcolumns.primary
  | insert table values =>
    obtain ⟨htable, -, -, hvalues⟩ := h
    exact hcons trivial (hcons trivial (hcons htable (hcons trivial (hcons trivial
      (happend (valid_primaries hvalues) (hcons trivial hnil))))))
  | createTable table definitions =>
    obtain ⟨htable, -, hnames⟩ := h
    refine hcons trivial (hcons trivial (hcons htable (hcons trivial
      (happend (valid_commaSeparated ?_) (hcons trivial hnil)))))
    intro x hx
    obtain ⟨d, hd, rfl⟩ := List.mem_map.mp hx
    refine hcons (hnames d hd) (hcons trivial ?_)
    split
    · exact hcons trivial (hcons trivial hnil)
    · exact hnil
  | updateTable table columns values where_ =>
    obtain ⟨htable, -, -, -, hcolumns, hvalues, condition, rfl, hcondition⟩ := h
    refine hcons trivial (hcons htable (hcons trivial (happend (valid_commaSeparated ?_)
      (valid_where ?_))))
    · intro x hx
      obtain ⟨⟨c, e⟩, hmem, rfl⟩ := List.mem_map.mp hx
      obtain ⟨hc, he⟩ := List.of_mem_zip hmem
      exact happend (hcolumns.primary c hc).valid (hcons trivial (hvalues e he).valid)
    · rintro _ ⟨⟩
      exact hcondition
  | deleteTable table where_ =>
    obtain ⟨htable, hwhere⟩ := h
    exact hcons trivial (hcons trivial (hcons htable (valid_where hwhere)))

/-- The parse function for the statement reads it. -/
theorem Facing.parseStatement {tree : AstNode} (hw : tree.WellFormed) (hls : Follows ls)
    (h : Facing p (tree.lexemes ++ ls)) :
    ∃ p', MiniDB.parseStatement p = some (.ok (tree, p')) ∧ Facing p' ls := by
  cases tree with
  | select table isStar columns where_ =>
    obtain ⟨-, hstar, hlen, hcolumns, hwhere⟩ := hw
    have htype : p.current.type = .tokenSelect := Facing.type h
    obtain ⟨p₁, hselect, h₁⟩ := Facing.keyword h "SELECT"
    rw [List.append_eq, List.append_assoc] at h₁
    obtain ⟨p₂, hlist, h₂⟩ := Facing.selectList hstar hlen hcolumns h₁
    obtain ⟨p₃, hfrom, h₃⟩ := Facing.keyword h₂ "FROM"
    obtain ⟨p₄, htable, h₄⟩ := Facing.tableName h₃
    obtain ⟨p₅, hwhere', h₅⟩ := Facing.where_ hwhere hls h₄
    refine ⟨p₅, ?_, h₅⟩
    unfold MiniDB.parseStatement
    rw [htype]
    refine congrArg some ?_
    unfold parseSelectStatement
    obtain ⟨hstar', hlist⟩ := hlist
    simp only [hselect, hlist, hfrom, htable, hwhere', bind, Except.bind]
    show Except.ok (AstNode.select table (decide (p₁.current.type = .tokenStar)) columns where_, p₅)
      = _
    rw [hstar']
  | insert table values =>
    obtain ⟨-, hne, hlen, hvalues⟩ := hw
    have htype : p.current.type = .tokenInsert := Facing.type h
    obtain ⟨p₁, hinsert, h₁⟩ := Facing.keyword h "INSERT"
    obtain ⟨p₂, hinto, h₂⟩ := Facing.keyword h₁ "INTO"
    obtain ⟨p₃, htable, h₃⟩ := Facing.tableName h₂
    obtain ⟨p₄, hvalue, h₄⟩ := Facing.keyword h₃ "VALUES"
    obtain ⟨p₅, hlparen, h₅⟩ := Facing.symbol h₄ "'('"
    rw [List.append_eq, List.append_assoc, List.singleton_append] at h₅
    obtain ⟨p₆, hlist, h₆⟩ := h₅.values hne hvalues hlen
    obtain ⟨p₇, hrparen, h₇⟩ := h₆.symbol "')'"
    refine ⟨p₇, ?_, h₇⟩
    unfold MiniDB.parseStatement
    rw [htype]
    refine congrArg some ?_
    unfold parseInsertStatement
    simp only [hinsert, hinto, htable, hvalue, hlparen, hlist, hrparen, bind, Except.bind]
    rfl
  | createTable table definitions =>
    obtain ⟨-, hv, -⟩ := hw
    have htype : p.current.type = .tokenCreate := Facing.type h
    obtain ⟨p₁, hcreate, h₁⟩ := Facing.keyword h "CREATE"
    obtain ⟨p₂, htoken, h₂⟩ := Facing.keyword h₁ "TABLE"
    obtain ⟨p₃, htable, h₃⟩ := Facing.tableName h₂
    obtain ⟨p₄, hlparen, h₄⟩ := Facing.symbol h₃ "'('"
    rw [List.append_eq, List.append_assoc, List.singleton_append] at h₄
    obtain ⟨d, hprimary, hinteger⟩ := hv.primary
    have hne : definitions ≠ [] := by
      rintro rfl
      cases hprimary
    obtain ⟨p₅, hlist, h₅⟩ := h₄.columnDefinitions hne hv.bounded
    obtain ⟨p₆, hrparen, h₆⟩ := h₅.symbol "')'"
    refine ⟨p₆, ?_, h₆⟩
    unfold MiniDB.parseStatement
    rw [htype]
    refine congrArg some ?_
    unfold parseCreateStatement
    simp only [hcreate, htoken, htable, hlparen, hlist, hrparen, bind, Except.bind, hprimary,
      if_pos hinteger]
    rfl
  | updateTable table columns values where_ =>
    obtain ⟨-, hne, heq, hlen, hcolumns, hvalues, condition, rfl, hcondition⟩ := hw
    have htype : p.current.type = .tokenUpdate := Facing.type h
    obtain ⟨p₁, hupdate, h₁⟩ := Facing.keyword h "UPDATE"
    obtain ⟨p₂, htable, h₂⟩ := Facing.tableName h₁
    obtain ⟨p₃, hset, h₃⟩ := Facing.keyword h₂ "SET keyword"
    rw [List.append_eq, List.append_assoc] at h₃
    obtain ⟨p₄, hlist, h₄⟩ := Facing.assignments hne hcolumns hvalues heq hlen h₃
    obtain ⟨p₅, hwhere, h₅⟩ := Facing.keyword h₄ "WHERE keyword"
    obtain ⟨p₆, hcondition', h₆⟩ := h₅.expression hcondition hls
    refine ⟨p₆, ?_, h₆⟩
    have hhead : parseUpdateHead p₁ = .ok (table, columns, values, p₅) := by
      unfold parseUpdateHead
      simp only [htable, hset, hlist, hwhere, bind, Except.bind]
      rfl
    unfold MiniDB.parseStatement
    rw [htype]
    refine congrArg some ?_
    unfold parseUpdateStatement
    simp only [hupdate, hhead, hcondition', bind, Except.bind]
    rfl
  | deleteTable table where_ =>
    obtain ⟨-, hwhere⟩ := hw
    have htype : p.current.type = .tokenDelete := Facing.type h
    obtain ⟨p₁, hdelete, h₁⟩ := Facing.keyword h "DELETE"
    obtain ⟨p₂, hfrom, h₂⟩ := Facing.keyword h₁ "FROM"
    obtain ⟨p₃, htable, h₃⟩ := Facing.tableName h₂
    obtain ⟨p₄, hwhere', h₄⟩ := h₃.where_ hwhere hls
    refine ⟨p₄, ?_, h₄⟩
    unfold MiniDB.parseStatement
    rw [htype]
    refine congrArg some ?_
    unfold parseDeleteStatement
    simp only [hdelete, hfrom, htable, hwhere', bind, Except.bind]
    rfl

/-- **A statement that was printed is read back.** -/
theorem parseStatement_renders {tree : AstNode} (hw : tree.WellFormed) (hls : Follows ls)
    (h : Renders false (tree.lexemes ++ ls) text) :
    ∃ p, parseStatement (parserInit text) = some (.ok (tree, p)) := by
  have hv : ∀ l ∈ tree.lexemes ++ ls, l.Valid := by
    intro l hl
    rcases List.mem_append.mp hl with hl | hl
    · exact hw.valid l hl
    · rcases hls with rfl | rfl
      · exact absurd hl List.not_mem_nil
      · rw [List.mem_singleton.mp hl]
        trivial
  obtain ⟨p, hparse, -⟩ := (Facing.init h hv).parseStatement hw hls
  exact ⟨p, hparse⟩

/-- A `DELETE` with keywords in both cases and few blanks. -/
theorem parseStatement_renders_delete :
    ∃ p, parseStatement (parserInit (ascii "Delete FROM notes where\tid=7 ;")) =
      some (.ok (.deleteTable (ascii "notes")
        (some (.equals (.column (ascii "id")) (.literalInt 7))), p)) := by
  have hid : IsName (ascii "id") := ⟨by decide, by decide, by decide, by decide⟩
  refine parseStatement_renders ⟨?_, ?_⟩ (Or.inr rfl : Follows [.symbol .tokenSemicolon]) ?_
  · exact ⟨by decide, by decide, by decide, by decide⟩
  · rintro _ ⟨⟩
    exact Or.inr ⟨_, _, rfl, hid, (by decide : (0 : Int64) ≤ 7)⟩
  · have htext : ascii "Delete FROM notes where\tid=7 ;" = [] ++ (ascii "Delete" ++ ([32] ++
        (ascii "FROM" ++ ([32] ++ (ascii "notes" ++ ([32] ++ (ascii "where" ++ ([9] ++
          (ascii "id" ++ ([] ++ (ascii "=" ++ ([] ++ (ascii "7" ++ ([32] ++
            (ascii ";" ++ []))))))))))))))) := by decide
    rw [htext]
    refine .cons (by decide) (by decide) ⟨(ascii "DELETE", _), by decide, rfl, by decide⟩ ?_
    refine .cons (by decide) (by decide) ⟨(ascii "FROM", _), by decide, rfl, by decide⟩ ?_
    refine .cons (by decide) (by decide) rfl ?_
    refine .cons (by decide) (by decide) ⟨(ascii "WHERE", _), by decide, rfl, by decide⟩ ?_
    refine .cons (by decide) (by decide) rfl ?_
    refine .cons (by decide) (by decide) ⟨61, rfl, rfl⟩ ?_
    refine .cons (by decide) (by decide) ⟨by decide, by decide, by decide⟩ ?_
    exact .cons (by decide) (by decide) ⟨59, rfl, rfl⟩ (.nil (by decide))

end MiniDB
