import MiniDB.Parsing.Soundness

/-!
# The loops of the parser come to an end

A byte that starts no token is answered by tokens of no bytes, again and again, so what has been
read is no measure for the loops over lists.  A round that passes over a comma moves on to another
token, and then the end, or such an empty token, is worth less than a comma was; a round that does
not pass over a comma fills a slot, of which there are eight.

* `Parser.unread`: what is left to read, and one more unless the token has no bytes.
* `Answers`: a parse that gives a tree or an error.
* `parseSelectColumns_answers` and its kin: the loops do.
* `statementParsers_end`: **every statement comes to an end**, and has lists of at most eight
  elements.
-/

namespace MiniDB

variable {p p' : Parser} {rounds : ℕ}

/-! ## Progress -/

/-- The token has no bytes: the end of the text, or the answer to a byte that starts no token. -/
def Token.Empty (token : Token) : Prop :=
  token.type = .tokenEof ∨ (token.type = .tokenInteger ∧ token.text = [])

instance (token : Token) : Decidable token.Empty := inferInstanceAs (Decidable (_ ∨ _))

/-- **The measure.** The bytes that are left, and one more unless the token has no bytes. -/
def Parser.unread (p : Parser) : ℕ :=
  p.tokenizer.cursor.length + if p.current.Empty then 0 else 1

/-- A call reads a token of no bytes, or moves on. -/
theorem Lexed.moves {input rest : List UInt8} {token : Token} (h : Lexed input token rest) :
    (token.Empty ∧ rest.length ≤ input.length) ∨ rest.length < input.length := by
  cases h with
  | eof _ htype => exact Or.inl ⟨Or.inl htype, le_rfl⟩
  | stuck _ _ _ _ _ htype htext => exact Or.inl ⟨Or.inr ⟨htype, htext⟩, le_rfl⟩
  | symbol => exact Or.inr (Nat.lt_succ_self _)
  | string =>
    refine Or.inr ?_
    rw [List.length_cons, List.length_append, List.length_cons]
    omega
  | invalid =>
    refine Or.inr ?_
    rw [List.length_cons, List.length_append]
    omega
  | word hne =>
    have hpos := List.length_pos_iff.mpr hne
    refine Or.inr ?_
    rw [List.length_append]
    omega

/-- Behind `parser_advance` no more is left than there were bytes. -/
theorem unread_parserAdvance (p : Parser) :
    (parserAdvance p).unread ≤ p.tokenizer.cursor.length := by
  have hle := (List.dropWhile_suffix (l := p.tokenizer.cursor) isBlank).length_le
  have hmoves := (getNextToken_lexed p.tokenizer { p.current with type := .tokenNone }).moves
  change (parserAdvance p).current.Empty ∧ (parserAdvance p).tokenizer.cursor.length ≤ _ ∨
    (parserAdvance p).tokenizer.cursor.length < _ at hmoves
  unfold Parser.unread
  rcases hmoves with ⟨hempty, hrest⟩ | hrest
  · rw [if_pos hempty]
    omega
  · split <;> omega

theorem length_le_unread (p : Parser) : p.tokenizer.cursor.length ≤ p.unread :=
  Nat.le_add_right _ _

theorem unread_parserAdvance_le (p : Parser) : (parserAdvance p).unread ≤ p.unread :=
  (unread_parserAdvance p).trans (length_le_unread p)

/-- Passing over a comma is progress. -/
theorem unread_comma (hcomma : p.current.type = .tokenComma) :
    (parserAdvance p).unread < p.unread := by
  have hempty : ¬ p.current.Empty := by
    rintro (h | ⟨h, -⟩)
    · rw [hcomma] at h
      cases h
    · rw [hcomma] at h
      cases h
  have hle := unread_parserAdvance p
  have heq : p.unread = p.tokenizer.cursor.length + 1 := by
    unfold Parser.unread
    rw [if_neg hempty]
  omega

/-- The rounds that a loop gets are enough for all that is left and for all slots. -/
theorem unread_lt_rounds (p : Parser) : p.unread + maxTableColumns < p.rounds := by
  unfold Parser.unread Parser.rounds
  split <;> omega

/-! ## Parses that come to an end -/

/-- A tree or an error: no loop has run out of its rounds, and nothing undefined was done. -/
def Answers {α : Type} (r : Parse α) : Prop := ∀ f, r ≠ .error (.fault f)

section Answers

variable {α β : Type} {r : Parse α} {f : α → Parse β}

theorem Answers.ok (a : α) : Answers (.ok a : Parse α) := by
  intro f h
  cases h

theorem Answers.setError (p : Parser) (expected : String) :
    Answers (parserSetError p expected : Parse α) := by
  intro f h
  cases h

theorem Answers.bind (hr : Answers r) (hf : ∀ a, r = .ok a → Answers (f a)) :
    Answers (r >>= f) := by
  cases r with
  | error e =>
    intro g h
    cases h
    exact hr g rfl
  | ok a => exact hf a rfl

theorem answers_expectToken (p : Parser) (type : TokenType) (expected : String) :
    Answers (expectToken p type expected) := by
  unfold expectToken
  split
  · exact Answers.ok _
  · exact Answers.setError p expected

theorem answers_parseTableName (p : Parser) : Answers (parseTableName p) := by
  unfold parseTableName
  split
  · exact Answers.ok _
  · exact Answers.setError p _

theorem answers_parsePrimaryExpression (p : Parser) : Answers (parsePrimaryExpression p) := by
  unfold parsePrimaryExpression
  split
  · exact Answers.ok _
  · exact Answers.ok _
  · exact Answers.ok _
  · exact Answers.ok _
  · exact Answers.ok _
  · exact Answers.setError p _

theorem answers_parseExpression (p : Parser) : Answers (parseExpression p) := by
  refine (answers_parsePrimaryExpression p).bind fun a _ => ?_
  dsimp only
  split
  · exact (answers_parsePrimaryExpression _).bind fun b _ => Answers.ok _
  · exact Answers.ok _

theorem answers_parseWhere (p : Parser) : Answers (parseWhere p) := by
  unfold parseWhere
  split
  · exact (answers_parseExpression _).bind fun a _ => Answers.ok _
  · exact Answers.ok _

end Answers

/-! ## Loops -/

theorem parseSelectColumns_answers {columns : List Expr}
    (h : p.unread + (maxTableColumns - columns.length) < rounds) :
    Answers (parseSelectColumns rounds p columns) := by
  induction rounds generalizing p columns with
  | zero => exact absurd h (Nat.not_lt_zero _)
  | succ rounds ih =>
    unfold parseSelectColumns
    split
    · exact Answers.ok _
    split
    · next hcomma =>
      have hlt := unread_comma hcomma
      exact ih (by omega)
    split
    · exact Answers.setError p _
    split
    · exact Answers.setError p _
    next hroom =>
      refine (answers_parsePrimaryExpression p).bind ?_
      rintro ⟨column, p₁⟩ hprimary
      obtain ⟨-, rfl⟩ := parsePrimaryExpression_spells hprimary
      have hle := unread_parserAdvance_le p
      refine ih ?_
      rw [List.length_append, List.length_singleton]
      omega

theorem parseAssignments_answers {columns values : List Expr}
    (h : p.unread + (maxTableColumns - columns.length) < rounds) :
    Answers (parseAssignments rounds p columns values) := by
  induction rounds generalizing p columns values with
  | zero => exact absurd h (Nat.not_lt_zero _)
  | succ rounds ih =>
    unfold parseAssignments
    split
    · exact Answers.ok _
    split
    · next hcomma =>
      have hlt := unread_comma hcomma
      exact ih (by omega)
    split
    · exact Answers.setError p _
    split
    · exact Answers.setError p _
    next hroom =>
      refine (answers_parsePrimaryExpression p).bind ?_
      rintro ⟨column, p₁⟩ hprimary
      obtain ⟨-, rfl⟩ := parsePrimaryExpression_spells hprimary
      refine (answers_expectToken _ _ _).bind fun p₂ hequal => ?_
      obtain ⟨-, rfl⟩ := expectToken_eq_ok hequal
      split
      · exact Answers.setError _ _
      refine (answers_parsePrimaryExpression _).bind ?_
      rintro ⟨value, p₃⟩ hvalue
      obtain ⟨-, rfl⟩ := parsePrimaryExpression_spells hvalue
      have hle₁ := unread_parserAdvance_le p
      have hle₂ := unread_parserAdvance_le (parserAdvance p)
      have hle₃ := unread_parserAdvance_le (parserAdvance (parserAdvance p))
      refine ih ?_
      rw [List.length_append, List.length_singleton]
      omega

theorem parseValues_answers {values : List Expr}
    (h : p.unread + (maxTableColumns - values.length) < rounds) :
    Answers (parseValues rounds p values) := by
  induction rounds generalizing p values with
  | zero => exact absurd h (Nat.not_lt_zero _)
  | succ rounds ih =>
    unfold parseValues
    split
    · exact Answers.ok _
    split
    · next hcomma =>
      have hlt := unread_comma hcomma
      exact ih (by omega)
    split
    · exact Answers.setError p _
    next hroom =>
      refine (answers_parsePrimaryExpression p).bind ?_
      rintro ⟨value, p₁⟩ hprimary
      obtain ⟨-, rfl⟩ := parsePrimaryExpression_spells hprimary
      have hle := unread_parserAdvance_le p
      refine ih ?_
      rw [List.length_append, List.length_singleton]
      omega

/-! ## Column definitions -/

theorem answers_parseColumnType (p : Parser) : Answers (parseColumnType p) := by
  unfold parseColumnType
  split
  · exact Answers.ok _
  · exact Answers.ok _
  · exact Answers.ok _
  · exact Answers.setError p _

theorem answers_parseColumnDefinition (p : Parser) : Answers (parseColumnDefinition p) := by
  unfold parseColumnDefinition
  split
  · exact Answers.setError p _
  refine (answers_parseColumnType _).bind fun a _ => ?_
  dsimp only
  split
  · exact (answers_expectToken _ _ _).bind fun q _ => Answers.ok _
  · exact Answers.ok _

/-- Tokens that are stepped over leave no more behind. -/
theorem Advances.unread_le {ts : List Token} (h : Advances p ts p') : p'.unread ≤ p.unread := by
  induction h with
  | refl => exact le_rfl
  | step _ ih => exact ih.trans (unread_parserAdvance_le _)

theorem parseColumnDefinitions_answers {definitions : List ColumnDefinition}
    (h : p.unread + (maxTableColumns - definitions.length) < rounds) :
    Answers (parseColumnDefinitions rounds p definitions) := by
  induction rounds generalizing p definitions with
  | zero => exact absurd h (Nat.not_lt_zero _)
  | succ rounds ih =>
    unfold parseColumnDefinitions
    split
    · exact Answers.ok _
    have hcomma : ∀ q, (if definitions.length = 0 then pure p else
        expectToken p .tokenComma "',' or ')'") = .ok q → q.unread ≤ p.unread := by
      intro q hq
      split at hq
      · cases hq
        exact le_rfl
      · obtain ⟨-, rfl⟩ := expectToken_eq_ok hq
        exact unread_parserAdvance_le p
    have hends : Answers (if definitions.length = 0 then pure p else
        expectToken p .tokenComma "',' or ')'") := by
      split
      · exact Answers.ok _
      · exact answers_expectToken _ _ _
    refine hends.bind fun q hq => ?_
    have hle := hcomma q hq
    split
    · exact Answers.setError q _
    next hroom =>
      refine (answers_parseColumnDefinition q).bind ?_
      rintro ⟨definition, p₁⟩ hdefinition
      obtain ⟨ts, hadv, -⟩ := parseColumnDefinition_spells hdefinition
      have hle' := hadv.unread_le
      refine ih ?_
      rw [List.length_append, List.length_singleton]
      omega

/-! ## Lists -/

/-- The lists of a statement have at most eight elements. -/
def AstNode.ListsFit : AstNode → Prop
  | .insert _ values => values.length ≤ maxTableColumns
  | .select _ _ columns _ => columns.length ≤ maxTableColumns
  | .createTable _ definitions => definitions.length ≤ maxTableColumns
  | .updateTable _ columns values _ =>
    columns.length ≤ maxTableColumns ∧ values.length ≤ maxTableColumns
  | .deleteTable _ _ => True

/-- A slot was free. -/
theorem length_append_le {α : Type} {xs : List α} (x : α) (h : ¬ maxTableColumns ≤ xs.length) :
    (xs ++ [x]).length ≤ maxTableColumns := by
  rw [List.length_append, List.length_singleton]
  omega

theorem parseSelectColumns_length {columns columns' : List Expr}
    (h : columns.length ≤ maxTableColumns)
    (hrun : parseSelectColumns rounds p columns = .ok (columns', p')) :
    columns'.length ≤ maxTableColumns := by
  induction rounds generalizing p columns with
  | zero => cases hrun
  | succ rounds ih =>
    rw [parseSelectColumns] at hrun
    split at hrun
    · cases hrun
      exact h
    split at hrun
    · exact ih h hrun
    split at hrun
    · cases hrun
    split at hrun
    · cases hrun
    next hroom =>
      obtain ⟨⟨column, p₁⟩, -, hrun⟩ := bind_eq_ok hrun
      exact ih (length_append_le column hroom) hrun

theorem parseAssignments_length {columns values columns' values' : List Expr}
    (h : columns.length ≤ maxTableColumns) (h' : values.length ≤ maxTableColumns)
    (hrun : parseAssignments rounds p columns values = .ok (columns', values', p')) :
    columns'.length ≤ maxTableColumns ∧ values'.length ≤ maxTableColumns := by
  induction rounds generalizing p columns values with
  | zero => cases hrun
  | succ rounds ih =>
    rw [parseAssignments] at hrun
    split at hrun
    · cases hrun
      exact ⟨h, h'⟩
    split at hrun
    · exact ih h h' hrun
    split at hrun
    · cases hrun
    split at hrun
    · cases hrun
    next hroom =>
      obtain ⟨⟨column, p₁⟩, -, hrun⟩ := bind_eq_ok hrun
      obtain ⟨p₂, -, hrun⟩ := bind_eq_ok hrun
      split at hrun
      · cases hrun
      next hroom' =>
        obtain ⟨⟨value, p₃⟩, -, hrun⟩ := bind_eq_ok hrun
        exact ih (length_append_le column hroom) (length_append_le value hroom') hrun

theorem parseValues_length {values values' : List Expr} (h : values.length ≤ maxTableColumns)
    (hrun : parseValues rounds p values = .ok (values', p')) :
    values'.length ≤ maxTableColumns := by
  induction rounds generalizing p values with
  | zero => cases hrun
  | succ rounds ih =>
    rw [parseValues] at hrun
    split at hrun
    · cases hrun
      exact h
    split at hrun
    · exact ih h hrun
    split at hrun
    · cases hrun
    next hroom =>
      obtain ⟨⟨value, p₁⟩, -, hrun⟩ := bind_eq_ok hrun
      exact ih (length_append_le value hroom) hrun

/-! ## Statements -/

theorem parseSelectStatement_answers (p : Parser) : Answers (parseSelectStatement p) := by
  have hlist : ∀ q : Parser, Answers (if q.current.type = .tokenStar then
      pure ([], parserAdvance q) else parseSelectColumns q.rounds q []) := by
    intro q
    split
    · exact Answers.ok _
    · exact parseSelectColumns_answers (unread_lt_rounds q)
  refine (answers_expectToken _ _ _).bind fun p₁ _ => (hlist p₁).bind fun a _ => ?_
  refine (answers_expectToken _ _ _).bind fun p₂ _ => (answers_parseTableName _).bind fun b _ => ?_
  exact (answers_parseWhere _).bind fun c _ => Answers.ok _

theorem parseInsertStatement_answers (p : Parser) : Answers (parseInsertStatement p) := by
  refine (answers_expectToken _ _ _).bind fun p₁ _ => ?_
  refine (answers_expectToken _ _ _).bind fun p₂ _ => ?_
  refine (answers_parseTableName _).bind fun a _ => (answers_expectToken _ _ _).bind fun p₃ _ => ?_
  refine (answers_expectToken _ _ _).bind fun p₄ _ => ?_
  refine (parseValues_answers (unread_lt_rounds p₄)).bind fun b _ => ?_
  exact (answers_expectToken _ _ _).bind fun p₅ _ => Answers.ok _

theorem parseUpdateHead_answers (p : Parser) : Answers (parseUpdateHead p) := by
  refine (answers_parseTableName p).bind fun a _ => (answers_expectToken _ _ _).bind fun p₁ _ => ?_
  refine (parseAssignments_answers (unread_lt_rounds p₁)).bind fun b _ => ?_
  exact (answers_expectToken _ _ _).bind fun p₂ _ => Answers.ok _

theorem parseDeleteStatement_answers (p : Parser) : Answers (parseDeleteStatement p) := by
  refine (answers_expectToken _ _ _).bind fun p₁ _ => ?_
  refine (answers_expectToken _ _ _).bind fun p₂ _ => (answers_parseTableName _).bind fun a _ => ?_
  exact (answers_parseWhere _).bind fun b _ => Answers.ok _

theorem parseCreateStatement_answers (p : Parser) : Answers (parseCreateStatement p) := by
  refine (answers_expectToken _ _ _).bind fun p₁ _ => ?_
  refine (answers_expectToken _ _ _).bind fun p₂ _ => (answers_parseTableName _).bind fun a _ => ?_
  refine (answers_expectToken _ _ _).bind fun p₃ _ => ?_
  refine (parseColumnDefinitions_answers (unread_lt_rounds p₃)).bind fun b _ => ?_
  refine (answers_expectToken _ _ _).bind fun p₄ _ => ?_
  split
  · split
    · exact Answers.ok _
    · exact Answers.setError _ _
  · exact Answers.setError _ _

/-- The parse comes to an end, and a tree that it answers has lists that fit. -/
structure EndsFitting (r : Parse (AstNode × Parser)) : Prop where
  ends : r ≠ .error (.fault .endless)
  lists : ∀ tree p', r = .ok (tree, p') → tree.ListsFit

theorem parseSelectStatement_ends (p : Parser) : EndsFitting (parseSelectStatement p) := by
  refine ⟨parseSelectStatement_answers p _, fun tree p' hrun => ?_⟩
  unfold parseSelectStatement at hrun
  obtain ⟨p₁, -, hrun⟩ := bind_eq_ok hrun
  obtain ⟨⟨columns, p₂⟩, hcolumns, hrun⟩ := bind_eq_ok hrun
  obtain ⟨p₃, -, hrun⟩ := bind_eq_ok hrun
  obtain ⟨⟨table, p₄⟩, -, hrun⟩ := bind_eq_ok hrun
  obtain ⟨⟨where_, p₅⟩, -, hrun⟩ := bind_eq_ok hrun
  cases hrun
  split at hcolumns
  · cases hcolumns
    exact Nat.zero_le _
  · exact parseSelectColumns_length (Nat.zero_le _) hcolumns

theorem parseInsertStatement_ends (p : Parser) : EndsFitting (parseInsertStatement p) := by
  refine ⟨parseInsertStatement_answers p _, fun tree p' hrun => ?_⟩
  unfold parseInsertStatement at hrun
  obtain ⟨p₁, -, hrun⟩ := bind_eq_ok hrun
  obtain ⟨p₂, -, hrun⟩ := bind_eq_ok hrun
  obtain ⟨⟨table, p₃⟩, -, hrun⟩ := bind_eq_ok hrun
  obtain ⟨p₄, -, hrun⟩ := bind_eq_ok hrun
  obtain ⟨p₅, -, hrun⟩ := bind_eq_ok hrun
  obtain ⟨⟨values, p₆⟩, hvalues, hrun⟩ := bind_eq_ok hrun
  obtain ⟨p₇, -, hrun⟩ := bind_eq_ok hrun
  cases hrun
  exact parseValues_length (Nat.zero_le _) hvalues

theorem parseUpdateHead_length {table : List UInt8} {columns values : List Expr}
    (hrun : parseUpdateHead p = .ok (table, columns, values, p')) :
    columns.length ≤ maxTableColumns ∧ values.length ≤ maxTableColumns := by
  unfold parseUpdateHead at hrun
  obtain ⟨⟨table', p₁⟩, -, hrun⟩ := bind_eq_ok hrun
  obtain ⟨p₂, -, hrun⟩ := bind_eq_ok hrun
  obtain ⟨⟨columns', values', p₃⟩, hassign, hrun⟩ := bind_eq_ok hrun
  obtain ⟨p₄, -, hrun⟩ := bind_eq_ok hrun
  cases hrun
  exact parseAssignments_length (Nat.zero_le _) (Nat.zero_le _) hassign

theorem parseUpdateStatement_ends (p : Parser) : EndsFitting (parseUpdateStatement p) := by
  constructor
  · intro hrun
    unfold parseUpdateStatement at hrun
    rcases bind_eq_error hrun with hexpect | ⟨p₁, -, hrun⟩
    · exact answers_expectToken p _ _ _ hexpect
    · cases hhead : parseUpdateHead p₁ with
      | error f =>
        rw [hhead] at hrun
        cases hrun
      | ok a =>
        rw [hhead] at hrun
        exact (answers_parseExpression _).bind (fun b _ => Answers.ok _) _ hrun
  · intro tree p' hrun
    unfold parseUpdateStatement at hrun
    obtain ⟨p₁, -, hrun⟩ := bind_eq_ok hrun
    cases hhead : parseUpdateHead p₁ with
    | error f =>
      rw [hhead] at hrun
      cases hrun
    | ok a =>
      rw [hhead] at hrun
      obtain ⟨⟨where_, p₂⟩, -, hrun⟩ := bind_eq_ok hrun
      cases hrun
      exact parseUpdateHead_length hhead

theorem parseDeleteStatement_ends (p : Parser) : EndsFitting (parseDeleteStatement p) := by
  refine ⟨parseDeleteStatement_answers p _, fun tree p' hrun => ?_⟩
  unfold parseDeleteStatement at hrun
  obtain ⟨p₁, -, hrun⟩ := bind_eq_ok hrun
  obtain ⟨p₂, -, hrun⟩ := bind_eq_ok hrun
  obtain ⟨⟨table, p₃⟩, -, hrun⟩ := bind_eq_ok hrun
  obtain ⟨⟨where_, p₄⟩, -, hrun⟩ := bind_eq_ok hrun
  cases hrun
  trivial

theorem parseCreateStatement_ends (p : Parser) : EndsFitting (parseCreateStatement p) := by
  refine ⟨parseCreateStatement_answers p _, fun tree p' hrun => ?_⟩
  unfold parseCreateStatement at hrun
  obtain ⟨p₁, -, hrun⟩ := bind_eq_ok hrun
  obtain ⟨p₂, -, hrun⟩ := bind_eq_ok hrun
  obtain ⟨⟨table, p₃⟩, -, hrun⟩ := bind_eq_ok hrun
  obtain ⟨p₄, -, hrun⟩ := bind_eq_ok hrun
  obtain ⟨⟨definitions, p₅⟩, hdefinitions, hrun⟩ := bind_eq_ok hrun
  obtain ⟨p₆, -, hrun⟩ := bind_eq_ok hrun
  split at hrun
  · split at hrun
    · cases hrun
      exact parseColumnDefinitions_length (Nat.zero_le _) hdefinitions
    · cases hrun
  · cases hrun

/-- **Every statement comes to an end**, with lists of at most eight elements, whatever the text is.
The loop of an `UPDATE` has ended as well where its error path does something undefined. -/
theorem statementParsers_end (p : Parser) :
    (∀ parse ∈ statementParsers, EndsFitting (parse.2 p)) ∧ Answers (parseUpdateHead p) := by
  refine ⟨?_, parseUpdateHead_answers p⟩
  intro parse hparse
  simp only [statementParsers, List.mem_cons, List.not_mem_nil, or_false] at hparse
  rcases hparse with rfl | rfl | rfl | rfl | rfl
  · exact parseSelectStatement_ends p
  · exact parseInsertStatement_ends p
  · exact parseUpdateStatement_ends p
  · exact parseDeleteStatement_ends p
  · exact parseCreateStatement_ends p

/-- The values of an `INSERT` behind which a byte stands that starts no token. -/
theorem statementParsers_end_stuck :
    EndsFitting (parseInsertStatement (parserInit (ascii "INSERT INTO notes VALUES (1, @"))) ∧
      Answers (parseUpdateHead (parserInit (ascii "INSERT INTO notes VALUES (1, @"))) := by
  obtain ⟨hall, hhead⟩ := statementParsers_end (parserInit (ascii "INSERT INTO notes VALUES (1, @"))
  exact ⟨hall (.tokenInsert, parseInsertStatement) (by simp [statementParsers]), hhead⟩

end MiniDB
