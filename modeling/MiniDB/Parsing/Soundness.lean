import MiniDB.Parsing.Grammar
import MiniDB.Parsing.Trees

/-!
# What an accepted text begins with

* `parsePrimaryExpression_spells`, `parseExpression_spells`: the tokens of an expression.
* `parseSelectColumns_spells`, `parseAssignments_spells`, `parseValues_spells`: the loops that pass
  over commas.
* `parseColumnDefinitions_spells`: the loop that does not.
* `statementParsers_spelled`: **a statement that is returned was spelled out**, up to commas.
* `not_isStatement`: it need not be documented so, nor the whole text.
-/

namespace MiniDB

variable {p p' : Parser} {tree : AstNode}

/-! ## Expressions -/

theorem expectToken_eq_ok {type : TokenType} {expected : String}
    (h : expectToken p type expected = .ok p') : p.current.type = type ∧ p' = parserAdvance p := by
  unfold expectToken at h
  split at h
  next htype =>
    cases h
    exact ⟨htype, rfl⟩
  · cases h

theorem parseTableName_eq_ok {table : List UInt8} (h : parseTableName p = .ok (table, p')) :
    p.current.type = .tokenIdentifier ∧ table = p.current.text ∧ p' = parserAdvance p := by
  unfold parseTableName at h
  split at h
  next htype =>
    cases h
    exact ⟨htype, rfl, rfl⟩
  · cases h

/-- **A literal or a column is one token.** -/
theorem parsePrimaryExpression_spells {e : Expr} (h : parsePrimaryExpression p = .ok (e, p')) :
    SpellsPrimary e p.current ∧ p' = parserAdvance p := by
  unfold parsePrimaryExpression at h
  split at h
  next htype =>
    cases h
    exact ⟨.integer htype, rfl⟩
  next htype =>
    cases h
    exact ⟨.string htype, rfl⟩
  next htype =>
    cases h
    exact ⟨.column htype, rfl⟩
  next htype =>
    cases h
    exact ⟨.true htype, rfl⟩
  next htype =>
    cases h
    exact ⟨.false htype, rfl⟩
  · cases h

/-- **A condition** is read as far as it goes. -/
theorem parseExpression_spells {e : Expr} (h : parseExpression p = .ok (e, p')) :
    ∃ ts, Advances p ts p' ∧ SpellsCondition p'.current e ts := by
  unfold parseExpression at h
  obtain ⟨⟨left, p₁⟩, hleft, h⟩ := bind_eq_ok h
  obtain ⟨hspells, rfl⟩ := parsePrimaryExpression_spells hleft
  dsimp only at h
  split at h
  next heq =>
    obtain ⟨⟨right, p₂⟩, hright, h⟩ := bind_eq_ok h
    obtain ⟨hspells', rfl⟩ := parsePrimaryExpression_spells hright
    cases h
    exact ⟨_, .step (.step (.one _)), .equals hspells heq hspells'⟩
  next hne =>
    cases h
    exact ⟨_, .one p, .primary hspells hne⟩

theorem parseWhere_spells {where_ : Option Expr} (h : parseWhere p = .ok (where_, p')) :
    ∃ ts, Advances p ts p' ∧ SpellsWhere p'.current where_ ts := by
  unfold parseWhere at h
  split at h
  next htype =>
    obtain ⟨⟨e, p₁⟩, hcondition, h⟩ := bind_eq_ok h
    cases h
    obtain ⟨ts, hadv, hspells⟩ := parseExpression_spells hcondition
    exact ⟨_, .step hadv, .some htype hspells⟩
  next htype =>
    cases h
    exact ⟨[], .refl p, .none htype⟩

/-! ## Loops -/

theorem parseSelectColumns_spells {rounds : ℕ} {columns columns' : List Expr}
    (h : parseSelectColumns rounds p columns = .ok (columns', p')) :
    ∃ xs ts, columns' = columns ++ xs ∧ Advances p ts p' ∧ Scattered SpellsColumn xs ts := by
  induction rounds generalizing p columns with
  | zero => cases h
  | succ rounds ih =>
    rw [parseSelectColumns] at h
    split at h
    · cases h
      exact ⟨[], [], (List.append_nil _).symm, .refl _, .nil⟩
    · split at h
      next hcomma =>
        obtain ⟨xs, ts, hxs, hadv, hspells⟩ := ih h
        exact ⟨xs, _, hxs, .step hadv, .comma hcomma hspells⟩
      · split at h
        · cases h
        next htype =>
          split at h
          · cases h
          · rw [parsePrimaryExpression_identifier (not_not.mp htype)] at h
            obtain ⟨xs, ts, hxs, hadv, hspells⟩ := ih h
            rw [List.append_assoc] at hxs
            exact ⟨_, _, hxs, (Advances.one p).trans hadv, .cons (.mk (not_not.mp htype)) hspells⟩

theorem parseAssignments_spells {rounds : ℕ} {columns values columns' values' : List Expr}
    (h : parseAssignments rounds p columns values = .ok (columns', values', p')) :
    ∃ (xs : List (Expr × Expr)) (ts : List Token), columns' = columns ++ xs.map Prod.fst ∧
      values' = values ++ xs.map Prod.snd ∧ Advances p ts p' ∧
        Scattered SpellsAssignment xs ts := by
  induction rounds generalizing p columns values with
  | zero => cases h
  | succ rounds ih =>
    rw [parseAssignments] at h
    split at h
    · cases h
      exact ⟨[], [], (List.append_nil _).symm, (List.append_nil _).symm, .refl _, .nil⟩
    · split at h
      next hcomma =>
        obtain ⟨xs, ts, hxs, hxs', hadv, hspells⟩ := ih h
        exact ⟨xs, _, hxs, hxs', .step hadv, .comma hcomma hspells⟩
      · split at h
        · cases h
        next htype =>
          split at h
          · cases h
          · obtain ⟨⟨column, p₁⟩, hrun, h⟩ := bind_eq_ok h
            rw [parsePrimaryExpression_identifier (not_not.mp htype)] at hrun
            cases hrun
            obtain ⟨p₂, hrun, h⟩ := bind_eq_ok h
            obtain ⟨hequal, rfl⟩ := expectToken_eq_ok hrun
            split at h
            · cases h
            · obtain ⟨⟨value, p₃⟩, hrun, h⟩ := bind_eq_ok h
              obtain ⟨hvalue, rfl⟩ := parsePrimaryExpression_spells hrun
              obtain ⟨xs, ts, hxs, hxs', hadv, hspells⟩ := ih h
              rw [List.append_assoc] at hxs hxs'
              have hone : Advances p [p.current, _, _] _ := .step (.step (.one _))
              exact ⟨(_, value) :: xs, _, hxs, hxs', hone.trans hadv,
                .cons (.mk (not_not.mp htype) hequal hvalue) hspells⟩

theorem parseValues_spells {rounds : ℕ} {values values' : List Expr}
    (h : parseValues rounds p values = .ok (values', p')) :
    ∃ xs ts, values' = values ++ xs ∧ Advances p ts p' ∧ Scattered SpellsValue xs ts := by
  induction rounds generalizing p values with
  | zero => cases h
  | succ rounds ih =>
    rw [parseValues] at h
    split at h
    · cases h
      exact ⟨[], [], (List.append_nil _).symm, .refl _, .nil⟩
    · split at h
      next hcomma =>
        obtain ⟨xs, ts, hxs, hadv, hspells⟩ := ih h
        exact ⟨xs, _, hxs, .step hadv, .comma hcomma hspells⟩
      · split at h
        · cases h
        · obtain ⟨⟨value, p₁⟩, hrun, h⟩ := bind_eq_ok h
          obtain ⟨hvalue, rfl⟩ := parsePrimaryExpression_spells hrun
          obtain ⟨xs, ts, hxs, hadv, hspells⟩ := ih h
          rw [List.append_assoc] at hxs
          exact ⟨_, _, hxs, (Advances.one p).trans hadv, .cons (.mk hvalue) hspells⟩

theorem parseColumnType_spells {columnType : ColumnType}
    (h : parseColumnType p = .ok (columnType, p')) :
    SpellsType columnType p.current ∧ p' = parserAdvance p := by
  unfold parseColumnType at h
  split at h
  next htype =>
    cases h
    exact ⟨htype, rfl⟩
  next htype =>
    cases h
    exact ⟨htype, rfl⟩
  next htype =>
    cases h
    exact ⟨htype, rfl⟩
  · cases h

theorem parseColumnDefinition_spells {definition : ColumnDefinition}
    (h : parseColumnDefinition p = .ok (definition, p')) :
    ∃ ts, Advances p ts p' ∧ SpellsDefinition definition ts := by
  unfold parseColumnDefinition at h
  split at h
  · cases h
  next htype =>
    obtain ⟨⟨columnType, p₁⟩, hcolumn, h⟩ := bind_eq_ok h
    obtain ⟨hspells, rfl⟩ := parseColumnType_spells hcolumn
    dsimp only at h
    split at h
    next hprimary =>
      obtain ⟨p₂, hrun, h⟩ := bind_eq_ok h
      obtain ⟨hkey, rfl⟩ := expectToken_eq_ok hrun
      cases h
      exact ⟨_, .step (.step (.step (.one _))),
        .primary (not_not.mp htype) hspells hprimary hkey⟩
    · cases h
      exact ⟨_, .step (.one _), .plain (not_not.mp htype) hspells⟩

/-- Behind the first definition each further one has a comma in front of it. -/
theorem parseColumnDefinitions_commaEach {rounds : ℕ}
    {definitions definitions' : List ColumnDefinition}
    (hne : definitions ≠ [])
    (h : parseColumnDefinitions rounds p definitions = .ok (definitions', p')) :
    ∃ xs ts, definitions' = definitions ++ xs ∧ Advances p ts p' ∧
      CommaEach SpellsDefinition xs ts := by
  induction rounds generalizing p definitions with
  | zero => cases h
  | succ rounds ih =>
    rw [parseColumnDefinitions] at h
    split at h
    · cases h
      exact ⟨[], [], (List.append_nil _).symm, .refl _, .nil⟩
    · rw [if_neg fun hlen => hne (List.length_eq_zero_iff.mp hlen)] at h
      obtain ⟨p₁, hrun, h⟩ := bind_eq_ok h
      obtain ⟨hcomma, rfl⟩ := expectToken_eq_ok hrun
      dsimp only at h
      split at h
      · cases h
      · obtain ⟨⟨definition, p₂⟩, hdefinition, h⟩ := bind_eq_ok h
        obtain ⟨us, hadv, hspells⟩ := parseColumnDefinition_spells hdefinition
        obtain ⟨xs, ts, hxs, hadv', hrest⟩ := ih (by simp) h
        rw [List.append_assoc] at hxs
        exact ⟨_, _, hxs, .step (hadv.trans hadv'), .cons hcomma hspells hrest⟩

/-- **The definitions are separated by commas.** -/
theorem parseColumnDefinitions_spells {rounds : ℕ} {definitions : List ColumnDefinition}
    (h : parseColumnDefinitions rounds p [] = .ok (definitions, p')) :
    definitions = [] ∨ ∃ ts, Advances p ts p' ∧ Separated SpellsDefinition definitions ts := by
  cases rounds with
  | zero => cases h
  | succ rounds =>
    rw [parseColumnDefinitions] at h
    split at h
    · cases h
      exact Or.inl rfl
    · rw [if_pos List.length_nil] at h
      obtain ⟨p₁, hp₁, h⟩ := bind_eq_ok h
      cases hp₁
      dsimp only at h
      split at h
      · cases h
      · obtain ⟨⟨definition, p₂⟩, hdefinition, h⟩ := bind_eq_ok h
        obtain ⟨us, hadv, hspells⟩ := parseColumnDefinition_spells hdefinition
        obtain ⟨xs, ts, rfl, hadv', hrest⟩ := parseColumnDefinitions_commaEach (by simp) h
        exact Or.inr ⟨_, hadv.trans hadv', .mk hspells hrest⟩

/-! ## Statements -/

theorem parseSelectStatement_spelled (h : parseSelectStatement p = .ok (tree, p')) :
    ∃ ts, Advances p ts p' ∧ tree.Spelled @Scattered p'.current ts := by
  unfold parseSelectStatement at h
  obtain ⟨p₁, hrun, h⟩ := bind_eq_ok h
  obtain ⟨hselect, rfl⟩ := expectToken_eq_ok hrun
  obtain ⟨⟨columns, p₂⟩, hcolumns, h⟩ := bind_eq_ok h
  obtain ⟨p₃, hrun, h⟩ := bind_eq_ok h
  obtain ⟨hfrom, rfl⟩ := expectToken_eq_ok hrun
  obtain ⟨⟨table, p₄⟩, hrun, h⟩ := bind_eq_ok h
  obtain ⟨htable, rfl, rfl⟩ := parseTableName_eq_ok hrun
  obtain ⟨⟨where_, p₅⟩, hwhere, h⟩ := bind_eq_ok h
  obtain ⟨ws, hadv, hspells⟩ := parseWhere_spells hwhere
  cases h
  by_cases hstar : (parserAdvance p).current.type = .tokenStar
  · simp only [hstar, decide_true, if_true] at hcolumns ⊢
    cases hcolumns
    exact ⟨_, .step (.step (.step (.step hadv))), .star hselect hstar hfrom htable hspells⟩
  · simp only [hstar, if_false, decide_false] at hcolumns ⊢
    obtain ⟨xs, cs, hxs, hadv', hlist⟩ := parseSelectColumns_spells hcolumns
    obtain rfl : columns = xs := hxs
    exact ⟨_, .step (hadv'.trans (.step (.step hadv))),
      .select hselect hlist hfrom htable hspells⟩

theorem parseInsertStatement_spelled (h : parseInsertStatement p = .ok (tree, p')) :
    ∃ ts, Advances p ts p' ∧ tree.Spelled @Scattered p'.current ts := by
  unfold parseInsertStatement at h
  obtain ⟨p₁, hrun, h⟩ := bind_eq_ok h
  obtain ⟨hinsert, rfl⟩ := expectToken_eq_ok hrun
  obtain ⟨p₂, hrun, h⟩ := bind_eq_ok h
  obtain ⟨hinto, rfl⟩ := expectToken_eq_ok hrun
  obtain ⟨⟨table, p₃⟩, hrun, h⟩ := bind_eq_ok h
  obtain ⟨htable, rfl, rfl⟩ := parseTableName_eq_ok hrun
  obtain ⟨p₄, hrun, h⟩ := bind_eq_ok h
  obtain ⟨hvalue, rfl⟩ := expectToken_eq_ok hrun
  obtain ⟨p₅, hrun, h⟩ := bind_eq_ok h
  obtain ⟨hlparen, rfl⟩ := expectToken_eq_ok hrun
  obtain ⟨⟨values, p₆⟩, hvalues, h⟩ := bind_eq_ok h
  obtain ⟨xs, vs, hxs, hadv, hlist⟩ := parseValues_spells hvalues
  obtain rfl : values = xs := hxs
  obtain ⟨p₇, hrun, h⟩ := bind_eq_ok h
  obtain ⟨hrparen, rfl⟩ := expectToken_eq_ok hrun
  cases h
  exact ⟨_, .step (.step (.step (.step (.step (hadv.trans (.one _)))))),
    .insert hinsert hinto htable hvalue hlparen hlist hrparen⟩

theorem parseUpdateStatement_spelled (h : parseUpdateStatement p = .ok (tree, p')) :
    ∃ ts, Advances p ts p' ∧ tree.Spelled @Scattered p'.current ts := by
  unfold parseUpdateStatement at h
  obtain ⟨p₁, hrun, h⟩ := bind_eq_ok h
  obtain ⟨hupdate, rfl⟩ := expectToken_eq_ok hrun
  cases hhead : parseUpdateHead (parserAdvance p) with
  | error f =>
    rw [hhead] at h
    cases h
  | ok res =>
    obtain ⟨table, columns, values, p₂⟩ := res
    rw [hhead] at h
    obtain ⟨⟨where_, p₃⟩, hwhere, h⟩ := bind_eq_ok h
    obtain ⟨ws, hadv, hspells⟩ := parseExpression_spells hwhere
    cases h
    unfold parseUpdateHead at hhead
    obtain ⟨⟨table', p₄⟩, hrun, hhead⟩ := bind_eq_ok hhead
    obtain ⟨htable, rfl, rfl⟩ := parseTableName_eq_ok hrun
    obtain ⟨p₅, hrun, hhead⟩ := bind_eq_ok hhead
    obtain ⟨hset, rfl⟩ := expectToken_eq_ok hrun
    obtain ⟨⟨columns', values', p₆⟩, hassign, hhead⟩ := bind_eq_ok hhead
    obtain ⟨xs, vs, hxs, hxs', hadv', hlist⟩ := parseAssignments_spells hassign
    obtain ⟨p₇, hrun, hhead⟩ := bind_eq_ok hhead
    obtain ⟨hwhere', rfl⟩ := expectToken_eq_ok hrun
    cases hhead
    rw [List.nil_append] at hxs hxs'
    subst hxs hxs'
    exact ⟨_, .step (.step (.step (hadv'.trans (.step hadv)))),
      .updateTable hupdate htable hset hlist hwhere' hspells⟩

theorem parseDeleteStatement_spelled (h : parseDeleteStatement p = .ok (tree, p')) :
    ∃ ts, Advances p ts p' ∧ tree.Spelled @Scattered p'.current ts := by
  unfold parseDeleteStatement at h
  obtain ⟨p₁, hrun, h⟩ := bind_eq_ok h
  obtain ⟨hdelete, rfl⟩ := expectToken_eq_ok hrun
  obtain ⟨p₂, hrun, h⟩ := bind_eq_ok h
  obtain ⟨hfrom, rfl⟩ := expectToken_eq_ok hrun
  obtain ⟨⟨table, p₃⟩, hrun, h⟩ := bind_eq_ok h
  obtain ⟨htable, rfl, rfl⟩ := parseTableName_eq_ok hrun
  obtain ⟨⟨where_, p₄⟩, hwhere, h⟩ := bind_eq_ok h
  obtain ⟨ws, hadv, hspells⟩ := parseWhere_spells hwhere
  cases h
  exact ⟨_, .step (.step (.step hadv)), .deleteTable hdelete hfrom htable hspells⟩

theorem parseCreateStatement_spelled (h : parseCreateStatement p = .ok (tree, p')) :
    ∃ ts, Advances p ts p' ∧ tree.Spelled @Scattered p'.current ts := by
  unfold parseCreateStatement at h
  obtain ⟨p₁, hrun, h⟩ := bind_eq_ok h
  obtain ⟨hcreate, rfl⟩ := expectToken_eq_ok hrun
  obtain ⟨p₂, hrun, h⟩ := bind_eq_ok h
  obtain ⟨htable', rfl⟩ := expectToken_eq_ok hrun
  obtain ⟨⟨table, p₃⟩, hrun, h⟩ := bind_eq_ok h
  obtain ⟨htable, rfl, rfl⟩ := parseTableName_eq_ok hrun
  obtain ⟨p₄, hrun, h⟩ := bind_eq_ok h
  obtain ⟨hlparen, rfl⟩ := expectToken_eq_ok hrun
  obtain ⟨⟨definitions, p₅⟩, hdefinitions, h⟩ := bind_eq_ok h
  obtain ⟨p₆, hrun, h⟩ := bind_eq_ok h
  obtain ⟨hrparen, rfl⟩ := expectToken_eq_ok hrun
  split at h
  next primary hprimary =>
    split at h
    next htype =>
      cases h
      rcases parseColumnDefinitions_spells hdefinitions with rfl | ⟨ds, hadv, hlist⟩
      · cases hprimary
      · exact ⟨_, .step (.step (.step (.step (hadv.trans (.one _))))),
          .createTable hcreate htable' htable hlparen hlist hrparen ⟨primary, hprimary, htype⟩⟩
    · cases h
  · cases h

/-- The functions of the parser, with the token that a statement of each begins with. -/
def statementParsers : List (TokenType × (Parser → Parse (AstNode × Parser))) :=
  [(.tokenSelect, parseSelectStatement), (.tokenInsert, parseInsertStatement),
    (.tokenUpdate, parseUpdateStatement), (.tokenDelete, parseDeleteStatement),
    (.tokenCreate, parseCreateStatement)]

/-- **A statement that is returned was spelled out**, token by token, at the front of the text: all
of its keywords, names, literals and signs are there, in their order, and a condition that follows
it was read.  Where a comma stands in a list is not checked, except in a `CREATE TABLE`; the lists
of the others may be empty. -/
theorem statementParsers_spelled {type : TokenType} {parse : Parser → Parse (AstNode × Parser)}
    (hparse : (type, parse) ∈ statementParsers) {text : List UInt8}
    (h : parse (parserInit text) = .ok (tree, p')) :
    (parserInit text).current.type = type ∧
      ∃ ts, Advances (parserInit text) ts p' ∧ tree.Spelled @Scattered p'.current ts := by
  have hfirst : ∀ {q : Parser} {type : TokenType} {expected : String}
      {rest : Parser → Parse (AstNode × Parser)},
      (expectToken q type expected >>= rest) = .ok (tree, p') → q.current.type = type := by
    intro q type expected rest hrun
    obtain ⟨q', hexpect, -⟩ := bind_eq_ok hrun
    exact (expectToken_eq_ok hexpect).1
  simp only [statementParsers, List.mem_cons, List.not_mem_nil, or_false, Prod.mk.injEq] at hparse
  rcases hparse with ⟨rfl, rfl⟩ | ⟨rfl, rfl⟩ | ⟨rfl, rfl⟩ | ⟨rfl, rfl⟩ | ⟨rfl, rfl⟩
  · exact ⟨hfirst h, parseSelectStatement_spelled h⟩
  · exact ⟨hfirst h, parseInsertStatement_spelled h⟩
  · exact ⟨hfirst h, parseUpdateStatement_spelled h⟩
  · exact ⟨hfirst h, parseDeleteStatement_spelled h⟩
  · exact ⟨hfirst h, parseCreateStatement_spelled h⟩

/-- The `DELETE` of one row. -/
theorem statementParsers_spelled_delete :
    ∃ tree p' ts, parseDeleteStatement (parserInit (ascii "DELETE FROM notes WHERE id = 2")) =
        .ok (tree, p') ∧ Advances (parserInit (ascii "DELETE FROM notes WHERE id = 2")) ts p' ∧
      tree.Spelled @Scattered p'.current ts := by
  obtain ⟨p', hrun⟩ : ∃ p', parseDeleteStatement
      (parserInit (ascii "DELETE FROM notes WHERE id = 2")) =
        .ok (.deleteTable (ascii "notes")
          (some (.equals (.column (ascii "id")) (.literalInt 2))), p') := ⟨_, by rfl⟩
  have hmem : (TokenType.tokenDelete, parseDeleteStatement) ∈ statementParsers := by
    simp [statementParsers]
  obtain ⟨-, ts, hadv, hspelled⟩ := statementParsers_spelled hmem hrun
  exact ⟨_, p', ts, hrun, hadv, hspelled⟩

/-! ## What is accepted besides -/

variable {q : Parser} {t : Token} {ts : List Token}

theorem Advances.head (h : Advances p (t :: ts) q) : t = p.current := by
  cases h
  rfl

theorem Advances.tail (h : Advances p (t :: ts) q) : Advances (parserAdvance p) ts q := by
  cases h with
  | step h => exact h

/-- A misspelt `WHERE` leaves a `DELETE` of all rows. -/
theorem not_isStatement_trailing :
    ¬ IsStatement (ascii "DELETE FROM notes WHER id = 2") tree := by
  rintro ⟨ts, q, hadv, hspelled, hend⟩
  cases hspelled with
  | deleteTable h₁ h₂ h hw =>
    have hrest := hadv.tail.tail.tail
    cases hw with
    | none _ =>
      cases hrest
      rcases hend with heof | ⟨hsemicolon, -⟩
      · exact absurd heof (by decide)
      · exact absurd hsemicolon (by decide)
    | some hwhere _ => exact absurd (hrest.head ▸ hwhere) (by decide)
  | star h₁ _ _ _ _ => exact absurd (hadv.head ▸ h₁) (by decide)
  | select h₁ _ _ _ _ => exact absurd (hadv.head ▸ h₁) (by decide)
  | insert h₁ _ _ _ _ _ _ => exact absurd (hadv.head ▸ h₁) (by decide)
  | updateTable h₁ _ _ _ _ _ => exact absurd (hadv.head ▸ h₁) (by decide)
  | createTable h₁ _ _ _ _ _ _ => exact absurd (hadv.head ▸ h₁) (by decide)

/-- Two values without a comma between them. -/
theorem not_isStatement_comma : ¬ IsStatement (ascii "INSERT INTO notes VALUES (1 2)") tree := by
  rintro ⟨ts, q, hadv, hspelled, -⟩
  cases hspelled with
  | insert h₁ h₂ h h₃ h₄ hlist h₅ =>
    obtain ⟨⟨hx⟩, hmore⟩ := hlist
    have hrest := hadv.tail.tail.tail.tail.tail.tail
    cases hmore with
    | nil => exact absurd (hrest.head ▸ h₅) (by decide)
    | cons hcomma _ _ => exact absurd (hrest.head ▸ hcomma) (by decide)
  | deleteTable h₁ _ _ _ => exact absurd (hadv.head ▸ h₁) (by decide)
  | star h₁ _ _ _ _ => exact absurd (hadv.head ▸ h₁) (by decide)
  | select h₁ _ _ _ _ => exact absurd (hadv.head ▸ h₁) (by decide)
  | updateTable h₁ _ _ _ _ _ => exact absurd (hadv.head ▸ h₁) (by decide)
  | createTable h₁ _ _ _ _ _ _ => exact absurd (hadv.head ▸ h₁) (by decide)

/-- A `SELECT` of no columns. -/
theorem not_isStatement_empty : ¬ IsStatement (ascii "SELECT FROM notes") tree := by
  rintro ⟨ts, q, hadv, hspelled, -⟩
  cases hspelled with
  | star _ h₂ _ _ _ => exact absurd (hadv.tail.head ▸ h₂) (by decide)
  | select _ hlist _ _ _ =>
    obtain ⟨⟨hx⟩, -⟩ := hlist
    exact absurd (hadv.tail.head ▸ hx) (by decide)
  | insert h₁ _ _ _ _ _ _ => exact absurd (hadv.head ▸ h₁) (by decide)
  | deleteTable h₁ _ _ _ => exact absurd (hadv.head ▸ h₁) (by decide)
  | updateTable h₁ _ _ _ _ _ => exact absurd (hadv.head ▸ h₁) (by decide)
  | createTable h₁ _ _ _ _ _ _ => exact absurd (hadv.head ▸ h₁) (by decide)

/-- Texts that are no statement are executed: a tail is not read, commas are not asked for, and
lists may be empty. -/
theorem not_isStatement :
    (∃ tree p', parseDeleteStatement (parserInit (ascii "DELETE FROM notes WHER id = 2")) =
        .ok (tree, p') ∧ ∀ tree', ¬ IsStatement (ascii "DELETE FROM notes WHER id = 2") tree') ∧
      (∃ tree p', parseInsertStatement (parserInit (ascii "INSERT INTO notes VALUES (1 2)")) =
        .ok (tree, p') ∧ ∀ tree', ¬ IsStatement (ascii "INSERT INTO notes VALUES (1 2)") tree') ∧
      ∃ tree p', parseSelectStatement (parserInit (ascii "SELECT FROM notes")) = .ok (tree, p') ∧
        ∀ tree', ¬ IsStatement (ascii "SELECT FROM notes") tree' := by
  refine ⟨⟨.deleteTable (ascii "notes") none, _, by rfl, fun _ => not_isStatement_trailing⟩,
    ⟨.insert (ascii "notes") [.literalInt 1, .literalInt 2], _, by rfl,
      fun _ => not_isStatement_comma⟩,
    ⟨.select (ascii "notes") false [] none, _, by rfl, fun _ => not_isStatement_empty⟩⟩

end MiniDB
