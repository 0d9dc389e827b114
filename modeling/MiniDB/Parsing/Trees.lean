import MiniDB.Model.Command
import MiniDB.Parsing.Lexing
import MiniDB.Statements.Create

/-!
# What the parser promises about its trees

* `AstNode.Parsed`: the promise; `parseStatement_parsed`: every tree that the parser returns keeps
  it.
* `AstNode.Scanned`: names are words and texts have no terminator; `parseStatement_scanned`: so they
  are.
-/

namespace MiniDB

/-- The nodes of a list are columns. -/
def AreColumns (columns : List Expr) : Prop := ∀ e ∈ columns, ∃ name, e = .column name

/-- What the commands rely on. -/
def AstNode.Parsed : AstNode → Prop
  | .createTable _ definitions => ValidDefinitions definitions
  | .select _ _ columns _ => AreColumns columns
  | .updateTable _ columns values _ => AreColumns columns ∧ columns.length = values.length
  | .insert _ _ => True
  | .deleteTable _ _ => True

variable {p p' : Parser}

theorem areColumns_append {columns : List Expr} {name : List UInt8} (h : AreColumns columns) :
    AreColumns (columns ++ [.column name]) := by
  intro e he
  rcases List.mem_append.mp he with he | he
  · exact h e he
  · exact ⟨name, List.mem_singleton.mp he⟩

/-- An identifier is parsed as a column. -/
theorem parsePrimaryExpression_identifier (h : p.current.type = .tokenIdentifier) :
    parsePrimaryExpression p = .ok (.column p.current.text, parserAdvance p) := by
  unfold parsePrimaryExpression
  rw [h]

/-! ## `SELECT` -/

theorem parseSelectColumns_columns {rounds : ℕ} {columns columns' : List Expr}
    (h : AreColumns columns) (hrun : parseSelectColumns rounds p columns = .ok (columns', p')) :
    AreColumns columns' := by
  induction rounds generalizing p columns with
  | zero => cases hrun
  | succ rounds ih =>
    rw [parseSelectColumns] at hrun
    split at hrun
    · cases hrun
      exact h
    · split at hrun
      · exact ih h hrun
      · split at hrun
        · cases hrun
        · next htype =>
          split at hrun
          · cases hrun
          · rw [parsePrimaryExpression_identifier (not_not.mp htype)] at hrun
            exact ih (areColumns_append h) hrun

theorem parseSelectStatement_parsed {tree : AstNode}
    (hrun : parseSelectStatement p = .ok (tree, p')) : tree.Parsed := by
  unfold parseSelectStatement at hrun
  obtain ⟨p₁, -, hrun⟩ := bind_eq_ok hrun
  obtain ⟨⟨columns, p₂⟩, hcolumns, hrun⟩ := bind_eq_ok hrun
  obtain ⟨p₃, -, hrun⟩ := bind_eq_ok hrun
  obtain ⟨⟨table, p₄⟩, -, hrun⟩ := bind_eq_ok hrun
  obtain ⟨⟨where_, p₅⟩, -, hrun⟩ := bind_eq_ok hrun
  cases hrun
  show AreColumns columns
  split at hcolumns
  · cases hcolumns
    exact fun e he => absurd he List.not_mem_nil
  · exact parseSelectColumns_columns (fun e he => absurd he List.not_mem_nil) hcolumns

/-! ## `UPDATE` -/

theorem parseAssignments_columns {rounds : ℕ} {columns values columns' values' : List Expr}
    (h : AreColumns columns) (hlen : columns.length = values.length)
    (hrun : parseAssignments rounds p columns values = .ok (columns', values', p')) :
    AreColumns columns' ∧ columns'.length = values'.length := by
  induction rounds generalizing p columns values with
  | zero => cases hrun
  | succ rounds ih =>
    rw [parseAssignments] at hrun
    split at hrun
    · cases hrun
      exact ⟨h, hlen⟩
    · split at hrun
      · exact ih h hlen hrun
      · split at hrun
        · cases hrun
        · next htype =>
          split at hrun
          · cases hrun
          · obtain ⟨⟨column, p₁⟩, hcolumn, hrun⟩ := bind_eq_ok hrun
            rw [parsePrimaryExpression_identifier (not_not.mp htype)] at hcolumn
            cases hcolumn
            obtain ⟨p₂, -, hrun⟩ := bind_eq_ok hrun
            split at hrun
            · cases hrun
            · obtain ⟨⟨value, p₃⟩, -, hrun⟩ := bind_eq_ok hrun
              refine ih (areColumns_append h) ?_ hrun
              simp [hlen]

theorem parseUpdateStatement_parsed {tree : AstNode}
    (hrun : parseUpdateStatement p = .ok (tree, p')) : tree.Parsed := by
  unfold parseUpdateStatement at hrun
  obtain ⟨p₁, -, hrun⟩ := bind_eq_ok hrun
  cases hhead : parseUpdateHead p₁ with
  | error f =>
    rw [hhead] at hrun
    cases hrun
  | ok res =>
    obtain ⟨table, columns, values, p₂⟩ := res
    rw [hhead] at hrun
    obtain ⟨⟨where_, p₃⟩, -, hrun⟩ := bind_eq_ok hrun
    cases hrun
    unfold parseUpdateHead at hhead
    obtain ⟨⟨table', p₄⟩, -, hhead⟩ := bind_eq_ok hhead
    obtain ⟨p₅, -, hhead⟩ := bind_eq_ok hhead
    obtain ⟨⟨columns', values', p₆⟩, hassign, hhead⟩ := bind_eq_ok hhead
    obtain ⟨p₇, -, hhead⟩ := bind_eq_ok hhead
    cases hhead
    exact parseAssignments_columns (fun e he => absurd he List.not_mem_nil) rfl hassign

/-! ## `CREATE TABLE` -/

theorem parseColumnDefinitions_length {rounds : ℕ}
    {definitions definitions' : List ColumnDefinition}
    (h : definitions.length ≤ maxTableColumns)
    (hrun : parseColumnDefinitions rounds p definitions = .ok (definitions', p')) :
    definitions'.length ≤ maxTableColumns := by
  induction rounds generalizing p definitions with
  | zero => cases hrun
  | succ rounds ih =>
    rw [parseColumnDefinitions] at hrun
    split at hrun
    · cases hrun
      exact h
    · obtain ⟨p₁, -, hrun⟩ := bind_eq_ok hrun
      split at hrun
      · cases hrun
      · next hlen =>
        obtain ⟨⟨definition, p₂⟩, -, hrun⟩ := bind_eq_ok hrun
        refine ih ?_ hrun
        rw [List.length_append, List.length_singleton]
        exact not_le.mp hlen

theorem parseCreateStatement_parsed {tree : AstNode}
    (hrun : parseCreateStatement p = .ok (tree, p')) : tree.Parsed := by
  unfold parseCreateStatement at hrun
  obtain ⟨p₁, -, hrun⟩ := bind_eq_ok hrun
  obtain ⟨p₂, -, hrun⟩ := bind_eq_ok hrun
  obtain ⟨⟨table, p₃⟩, -, hrun⟩ := bind_eq_ok hrun
  obtain ⟨p₄, -, hrun⟩ := bind_eq_ok hrun
  obtain ⟨⟨definitions, p₅⟩, hdefinitions, hrun⟩ := bind_eq_ok hrun
  obtain ⟨p₆, -, hrun⟩ := bind_eq_ok hrun
  split at hrun
  · next primary hprimary =>
    split at hrun
    · next htype =>
      cases hrun
      exact ⟨parseColumnDefinitions_length (Nat.zero_le _) hdefinitions, primary, hprimary, htype⟩
    · cases hrun
  · cases hrun

/-! ## All statements -/

/-- **Every tree that the parser returns keeps its promise.** -/
theorem parseStatement_parsed {tree : AstNode}
    (hrun : parseStatement p = some (.ok (tree, p'))) : tree.Parsed := by
  unfold parseStatement at hrun
  split at hrun
  · exact parseSelectStatement_parsed (Option.some_inj.mp hrun)
  · exact parseCreateStatement_parsed (Option.some_inj.mp hrun)
  · have hinsert := Option.some_inj.mp hrun
    unfold parseInsertStatement at hinsert
    obtain ⟨p₁, -, hinsert⟩ := bind_eq_ok hinsert
    obtain ⟨p₂, -, hinsert⟩ := bind_eq_ok hinsert
    obtain ⟨⟨table, p₃⟩, -, hinsert⟩ := bind_eq_ok hinsert
    obtain ⟨p₄, -, hinsert⟩ := bind_eq_ok hinsert
    obtain ⟨p₅, -, hinsert⟩ := bind_eq_ok hinsert
    obtain ⟨⟨values, p₆⟩, -, hinsert⟩ := bind_eq_ok hinsert
    obtain ⟨p₇, -, hinsert⟩ := bind_eq_ok hinsert
    cases hinsert
    trivial
  · exact parseUpdateStatement_parsed (Option.some_inj.mp hrun)
  · have hdelete := Option.some_inj.mp hrun
    unfold parseDeleteStatement at hdelete
    obtain ⟨p₁, -, hdelete⟩ := bind_eq_ok hdelete
    obtain ⟨p₂, -, hdelete⟩ := bind_eq_ok hdelete
    obtain ⟨⟨table, p₃⟩, -, hdelete⟩ := bind_eq_ok hdelete
    obtain ⟨⟨where_, p₄⟩, -, hdelete⟩ := bind_eq_ok hdelete
    cases hdelete
    trivial
  · cases hrun

/-! ## Names and texts -/

/-- A run of word bytes, as every identifier is. -/
def IsWord (name : List UInt8) : Prop := name ≠ [] ∧ ∀ b ∈ name, isWordByte b = true

/-- No string literal holds a terminator. -/
def AreScanned (values : List Expr) : Prop := ∀ text, .literalString text ∈ values → 0 ∉ text

/-- What the lexer promises about a tree. -/
def AstNode.Scanned : AstNode → Prop
  | .createTable name definitions => IsWord name ∧ ∀ d ∈ definitions, IsWord d.name
  | .insert _ values => AreScanned values
  | .updateTable _ _ values _ => AreScanned values
  | .select _ _ _ _ => True
  | .deleteTable _ _ => True

theorem IsWord.zero_notMem {name : List UInt8} (h : IsWord name) : 0 ∉ name := fun h0 =>
  (wordByte_ne (h.2 0 h0)).1 rfl

/-- The token was read by the lexer. -/
def Token.Scanned (token : Token) : Prop := ∃ input rest, Lexed input token rest

theorem scanned_parserAdvance (p : Parser) : (parserAdvance p).current.Scanned :=
  ⟨_, _, getNextToken_lexed _ _⟩

theorem Token.Scanned.identifier {token : Token} (h : token.Scanned)
    (htype : token.type = .tokenIdentifier) : IsWord token.text := by
  obtain ⟨input, rest, hlexed⟩ := h
  exact hlexed.identifier htype

theorem expectToken_scanned {type : TokenType} {expected : String}
    (h : expectToken p type expected = .ok p') : p'.current.Scanned := by
  unfold expectToken at h
  split at h
  · cases h
    exact scanned_parserAdvance p
  · cases h

theorem parseTableName_scanned {name : List UInt8} (hp : p.current.Scanned)
    (h : parseTableName p = .ok (name, p')) : IsWord name ∧ p'.current.Scanned := by
  unfold parseTableName at h
  split at h
  · next htype =>
    cases h
    exact ⟨hp.identifier htype, scanned_parserAdvance p⟩
  · cases h

/-- The text of a literal that was parsed. -/
theorem parsePrimaryExpression_scanned {e : Expr} (hp : p.current.Scanned)
    (h : parsePrimaryExpression p = .ok (e, p')) :
    AreScanned [e] ∧ p'.current.Scanned := by
  obtain ⟨input, rest, hlexed⟩ := hp
  unfold parsePrimaryExpression at h
  split at h <;> cases h
  case h_2 htype =>
    refine ⟨?_, scanned_parserAdvance p⟩
    intro text htext h0
    cases List.mem_singleton.mp htext
    exact (hlexed.stringLiteral htype 0 h0).2 rfl
  all_goals
    refine ⟨?_, scanned_parserAdvance p⟩
    intro text htext
    cases List.mem_singleton.mp htext

theorem areScanned_append {values : List Expr} {e : Expr} (h : AreScanned values)
    (he : AreScanned [e]) : AreScanned (values ++ [e]) := by
  intro text htext
  rcases List.mem_append.mp htext with htext | htext
  · exact h text htext
  · exact he text htext

theorem parseValues_scanned {rounds : ℕ} {values values' : List Expr} (hp : p.current.Scanned)
    (h : AreScanned values) (hrun : parseValues rounds p values = .ok (values', p')) :
    AreScanned values' := by
  induction rounds generalizing p values with
  | zero => cases hrun
  | succ rounds ih =>
    rw [parseValues] at hrun
    split at hrun
    · cases hrun
      exact h
    · split at hrun
      · exact ih (scanned_parserAdvance p) h hrun
      · split at hrun
        · cases hrun
        · obtain ⟨⟨e, p₁⟩, hparse, hrun⟩ := bind_eq_ok hrun
          obtain ⟨he, hp₁⟩ := parsePrimaryExpression_scanned hp hparse
          exact ih hp₁ (areScanned_append h he) hrun

theorem parseAssignments_scanned {rounds : ℕ} {columns values columns' values' : List Expr}
    (hp : p.current.Scanned) (h : AreScanned values)
    (hrun : parseAssignments rounds p columns values = .ok (columns', values', p')) :
    AreScanned values' := by
  induction rounds generalizing p columns values with
  | zero => cases hrun
  | succ rounds ih =>
    rw [parseAssignments] at hrun
    split at hrun
    · cases hrun
      exact h
    · split at hrun
      · exact ih (scanned_parserAdvance p) h hrun
      · split at hrun
        · cases hrun
        · split at hrun
          · cases hrun
          · obtain ⟨⟨column, p₁⟩, -, hrun⟩ := bind_eq_ok hrun
            obtain ⟨p₂, hequal, hrun⟩ := bind_eq_ok hrun
            split at hrun
            · cases hrun
            · obtain ⟨⟨e, p₃⟩, hparse, hrun⟩ := bind_eq_ok hrun
              obtain ⟨he, hp₃⟩ :=
                parsePrimaryExpression_scanned (expectToken_scanned hequal) hparse
              exact ih hp₃ (areScanned_append h he) hrun

theorem parseColumnDefinition_scanned {d : ColumnDefinition} (hp : p.current.Scanned)
    (h : parseColumnDefinition p = .ok (d, p')) : IsWord d.name ∧ p'.current.Scanned := by
  unfold parseColumnDefinition at h
  split at h
  · cases h
  · next htype =>
    have hname := hp.identifier (not_not.mp htype)
    obtain ⟨⟨columnType, p₁⟩, hcolumn, h⟩ := bind_eq_ok h
    have hp₁ : p₁.current.Scanned := by
      unfold parseColumnType at hcolumn
      split at hcolumn <;> cases hcolumn <;> exact scanned_parserAdvance _
    simp only at h
    split at h
    · obtain ⟨p₂, hkey, h⟩ := bind_eq_ok h
      cases h
      exact ⟨hname, expectToken_scanned hkey⟩
    · cases h
      exact ⟨hname, hp₁⟩

theorem parseColumnDefinitions_scanned {rounds : ℕ}
    {definitions definitions' : List ColumnDefinition}
    (hp : p.current.Scanned) (h : ∀ d ∈ definitions, IsWord d.name)
    (hrun : parseColumnDefinitions rounds p definitions = .ok (definitions', p')) :
    ∀ d ∈ definitions', IsWord d.name := by
  induction rounds generalizing p definitions with
  | zero => cases hrun
  | succ rounds ih =>
    rw [parseColumnDefinitions] at hrun
    split at hrun
    · cases hrun
      exact h
    · obtain ⟨p₁, hcomma, hrun⟩ := bind_eq_ok hrun
      have hp₁ : p₁.current.Scanned := by
        split at hcomma
        · cases hcomma
          exact hp
        · exact expectToken_scanned hcomma
      split at hrun
      · cases hrun
      · obtain ⟨⟨d, p₂⟩, hparse, hrun⟩ := bind_eq_ok hrun
        obtain ⟨hd, hp₂⟩ := parseColumnDefinition_scanned hp₁ hparse
        refine ih hp₂ ?_ hrun
        intro c hc
        rcases List.mem_append.mp hc with hc | hc
        · exact h c hc
        · rw [List.mem_singleton.mp hc]
          exact hd

/-- **The names and the texts of every tree come from the lexer.** -/
theorem parseStatement_scanned {tree : AstNode} (hrun : parseStatement p = some (.ok (tree, p'))) :
    tree.Scanned := by
  unfold parseStatement at hrun
  split at hrun
  · -- `SELECT`
    have hselect := Option.some_inj.mp hrun
    unfold parseSelectStatement at hselect
    obtain ⟨p₁, -, hselect⟩ := bind_eq_ok hselect
    obtain ⟨⟨columns, p₂⟩, -, hselect⟩ := bind_eq_ok hselect
    obtain ⟨p₃, -, hselect⟩ := bind_eq_ok hselect
    obtain ⟨⟨table, p₄⟩, -, hselect⟩ := bind_eq_ok hselect
    obtain ⟨⟨where_, p₅⟩, -, hselect⟩ := bind_eq_ok hselect
    cases hselect
    trivial
  · -- `CREATE TABLE`
    have hcreate := Option.some_inj.mp hrun
    unfold parseCreateStatement at hcreate
    obtain ⟨p₁, -, hcreate⟩ := bind_eq_ok hcreate
    obtain ⟨p₂, htable, hcreate⟩ := bind_eq_ok hcreate
    obtain ⟨⟨name, p₃⟩, hname, hcreate⟩ := bind_eq_ok hcreate
    obtain ⟨p₄, hlparen, hcreate⟩ := bind_eq_ok hcreate
    obtain ⟨⟨definitions, p₅⟩, hdefinitions, hcreate⟩ := bind_eq_ok hcreate
    obtain ⟨p₆, -, hcreate⟩ := bind_eq_ok hcreate
    have hscanned : IsWord name ∧ ∀ d ∈ definitions, IsWord d.name :=
      ⟨(parseTableName_scanned (expectToken_scanned htable) hname).1,
        parseColumnDefinitions_scanned (expectToken_scanned hlparen)
          (fun d hd => absurd hd List.not_mem_nil) hdefinitions⟩
    split at hcreate
    · split at hcreate
      · cases hcreate
        exact hscanned
      · cases hcreate
    · cases hcreate
  · -- `INSERT`
    have hinsert := Option.some_inj.mp hrun
    unfold parseInsertStatement at hinsert
    obtain ⟨p₁, -, hinsert⟩ := bind_eq_ok hinsert
    obtain ⟨p₂, -, hinsert⟩ := bind_eq_ok hinsert
    obtain ⟨⟨table, p₃⟩, -, hinsert⟩ := bind_eq_ok hinsert
    obtain ⟨p₄, -, hinsert⟩ := bind_eq_ok hinsert
    obtain ⟨p₅, hlparen, hinsert⟩ := bind_eq_ok hinsert
    obtain ⟨⟨values, p₆⟩, hvalues, hinsert⟩ := bind_eq_ok hinsert
    obtain ⟨p₇, -, hinsert⟩ := bind_eq_ok hinsert
    cases hinsert
    exact parseValues_scanned (expectToken_scanned hlparen)
      (fun text htext => absurd htext List.not_mem_nil) hvalues
  · -- `UPDATE`
    have hupdate := Option.some_inj.mp hrun
    unfold parseUpdateStatement at hupdate
    obtain ⟨p₁, -, hupdate⟩ := bind_eq_ok hupdate
    cases hhead : parseUpdateHead p₁ with
    | error f =>
      rw [hhead] at hupdate
      cases hupdate
    | ok res =>
      obtain ⟨table, columns, values, p₂⟩ := res
      rw [hhead] at hupdate
      obtain ⟨⟨where_, p₃⟩, -, hupdate⟩ := bind_eq_ok hupdate
      cases hupdate
      unfold parseUpdateHead at hhead
      obtain ⟨⟨table', p₄⟩, -, hhead⟩ := bind_eq_ok hhead
      obtain ⟨p₅, hset, hhead⟩ := bind_eq_ok hhead
      obtain ⟨⟨columns', values', p₆⟩, hassign, hhead⟩ := bind_eq_ok hhead
      obtain ⟨p₇, -, hhead⟩ := bind_eq_ok hhead
      cases hhead
      exact parseAssignments_scanned (expectToken_scanned hset)
        (fun text htext => absurd htext List.not_mem_nil) hassign
  · -- `DELETE`
    have hdelete := Option.some_inj.mp hrun
    unfold parseDeleteStatement at hdelete
    obtain ⟨p₁, -, hdelete⟩ := bind_eq_ok hdelete
    obtain ⟨p₂, -, hdelete⟩ := bind_eq_ok hdelete
    obtain ⟨⟨table, p₃⟩, -, hdelete⟩ := bind_eq_ok hdelete
    obtain ⟨⟨where_, p₄⟩, -, hdelete⟩ := bind_eq_ok hdelete
    cases hdelete
    trivial
  · cases hrun

end MiniDB
