import MiniDB.Results
import MiniDB.Parsing.Ending
import MiniDB.Statements.Names

/-!
# Lines in lower case

Keywords and names are compared without regard to case, and numbers hold no letters: only in string
literals does a letter stand for itself.

* `lowered`: a line whose letters outside of string literals are small.
* `getNextToken_lowered`: **it has the same tokens**, in lower case.
* `parseStatement_related`: **lines that are the same in lower case** are both parsed, to the same
  tree in lower case, or both refused with the same message.
-/

namespace MiniDB

open Results

variable {b c : UInt8} {bs text rest : List UInt8}

/-! ## Bytes -/

/-- A byte that is no letter is what only itself is in lower case. -/
theorem tolower_eq_iff (hc : ¬ (65 ≤ c ∧ c ≤ 90) ∧ ¬ (97 ≤ c ∧ c ≤ 122)) :
    tolower b = c ↔ b = c := by
  unfold tolower
  simp only [UInt8.le_iff_toNat_le, ← UInt8.toNat_inj] at hc ⊢
  split
  · next hupper =>
    rw [UInt8.toNat_add]
    simp only [UInt8.reduceToNat] at hc hupper ⊢
    omega
  · rfl

theorem tolower_tolower (b : UInt8) : tolower (tolower b) = tolower b := by
  by_cases hupper : 65 ≤ b ∧ b ≤ 90
  · have hlower : ¬ (65 ≤ b + 32 ∧ b + 32 ≤ 90) := by
      simp only [UInt8.le_iff_toNat_le, UInt8.toNat_add, UInt8.reduceToNat] at hupper ⊢
      omega
    unfold tolower
    rw [if_pos hupper, if_neg hlower]
  · have hsame : tolower b = b := if_neg hupper
    rw [hsame, hsame]

theorem isWordByte_tolower (b : UInt8) : isWordByte (tolower b) = isWordByte b := by
  rw [Bool.eq_iff_iff, isWordByte_iff, isWordByte_iff]
  unfold tolower
  split
  · next hupper =>
    simp only [UInt8.le_iff_toNat_le, ← UInt8.toNat_inj, UInt8.toNat_add,
      UInt8.reduceToNat] at hupper ⊢
    omega
  · rfl

theorem symbolType_tolower (b : UInt8) : symbolType (tolower b) = symbolType b := by
  have hsymbol : ∀ c ∈ [(44 : UInt8), 59, 40, 41, 61, 42], (tolower b = c ↔ b = c) := by
    intro c hc
    refine tolower_eq_iff ?_
    revert c
    decide
  unfold symbolType
  simp only [hsymbol _ (by decide : (44 : UInt8) ∈ _), hsymbol _ (by decide : (59 : UInt8) ∈ _),
    hsymbol _ (by decide : (40 : UInt8) ∈ _), hsymbol _ (by decide : (41 : UInt8) ∈ _),
    hsymbol _ (by decide : (61 : UInt8) ∈ _), hsymbol _ (by decide : (42 : UInt8) ∈ _)]

/-! ## Words -/

theorem lowercase_append (text text' : List UInt8) :
    lowercase (text ++ text') = lowercase text ++ lowercase text' :=
  List.map_append

theorem lowercase_lowercase (text : List UInt8) : lowercase (lowercase text) = lowercase text := by
  unfold lowercase
  rw [List.map_map]
  exact List.map_congr_left fun b _ => tolower_tolower b

theorem isKeyword_lowercase (text kw : List UInt8) :
    isKeyword (lowercase text) kw = isKeyword text kw := by
  unfold isKeyword
  rw [length_lowercase]
  exact congrArg (fun l => text.length == kw.length && l == kw.map tolower)
    (lowercase_lowercase text)

/-- Digits are no letters. -/
theorem isDigit_tolower (b : UInt8) : isDigit (tolower b) = isDigit b := by
  unfold tolower
  split
  · next hupper =>
    have hrange : ∀ b : UInt8, isDigit b = true ↔ 48 ≤ b ∧ b ≤ 57 := by simp [isDigit]
    rw [Bool.eq_iff_iff, hrange, hrange]
    simp only [UInt8.le_iff_toNat_le, UInt8.toNat_add, UInt8.reduceToNat] at hupper ⊢
    omega
  · rfl

theorem isDigits_lowercase (text : List UInt8) : isDigits (lowercase text) = isDigits text := by
  unfold isDigits lowercase
  rw [List.all_map]
  exact congrArg text.all (funext isDigit_tolower)

theorem lowercase_of_isDigits (h : isDigits text = true) : lowercase text = text := by
  unfold lowercase
  refine (List.map_congr_left fun b hb => ?_).trans (List.map_id _)
  have hdigit : 48 ≤ b ∧ b ≤ 57 := by simpa [isDigit] using List.all_eq_true.mp h b hb
  refine if_neg fun hupper => ?_
  exact absurd (UInt8.le_trans hupper.1 hdigit.2) (by decide)

theorem wordType_lowercase (text : List UInt8) : wordType (lowercase text) = wordType text := by
  unfold wordType
  rw [isDigits_lowercase]
  simp only [isKeyword_lowercase]

/-! ## Lines -/

/-- A line in lower case: letters outside of string literals are small.  Nothing behind a terminator
is read. -/
def lowered : (inString : Bool) → List UInt8 → List UInt8
  | _, [] => []
  | inString, b :: bs =>
    if b = 0 then b :: bs
    else if b = 39 then b :: lowered (!inString) bs
    else (if inString then b else tolower b) :: lowered inString bs

theorem length_lowered (inString : Bool) (bs : List UInt8) :
    (lowered inString bs).length = bs.length := by
  induction bs generalizing inString with
  | nil => rfl
  | cons b bs ih =>
    unfold lowered
    split
    · rfl
    split
    · rw [List.length_cons, ih, List.length_cons]
    · rw [List.length_cons, ih, List.length_cons]

theorem lowered_cons (h : b ≠ 0 ∧ b ≠ 39) (bs : List UInt8) :
    lowered false (b :: bs) = tolower b :: lowered false bs := by
  rw [lowered, if_neg h.1, if_neg h.2]
  rfl

/-- Inside of a string literal. -/
theorem lowered_string (h : ∀ b ∈ text, b ≠ 39 ∧ b ≠ 0) (rest : List UInt8) :
    lowered true (text ++ rest) = text ++ lowered true rest := by
  induction text with
  | nil => rfl
  | cons b text ih =>
    obtain ⟨hquote, hterm⟩ := h b List.mem_cons_self
    rw [List.cons_append, lowered, if_neg hterm, if_neg hquote,
      ih fun c hc => h c (List.mem_cons_of_mem _ hc)]
    rfl

/-! ## Tokens -/

/-- A token in lower case. -/
def Token.lowered (t : Token) : Token :=
  if t.type = .tokenString ∨ t.type = .tokenInvalid then t else { t with text := lowercase t.text }

/-- A tokenizer in front of a token. -/
def Tokenizer.lowered (t : Tokenizer) : Tokenizer :=
  { t with cursor := MiniDB.lowered false t.cursor }

/-- Blanks are no letters. -/
theorem skipBlanks_lowered (bs : List UInt8) (offset line column : ℕ) :
    skipBlanks (lowered false bs) offset line column =
      (skipBlanks bs offset line column).lowered := by
  induction bs generalizing offset line column with
  | nil => rfl
  | cons b bs ih =>
    by_cases hend : b = 0
    · subst hend
      rfl
    by_cases hquote : b = 39
    · subst hquote
      rfl
    rw [lowered_cons ⟨hend, hquote⟩]
    unfold skipBlanks
    simp only [tolower_eq_iff (by decide : ¬ (65 ≤ (10 : UInt8) ∧ _) ∧ _),
      tolower_eq_iff (by decide : ¬ (65 ≤ (32 : UInt8) ∧ _) ∧ _),
      tolower_eq_iff (by decide : ¬ (65 ≤ (9 : UInt8) ∧ _) ∧ _),
      tolower_eq_iff (by decide : ¬ (65 ≤ (13 : UInt8) ∧ _) ∧ _)]
    split
    · exact ih _ _ _
    split
    · exact ih _ _ _
    · unfold Tokenizer.lowered
      rw [lowered_cons ⟨hend, hquote⟩]

variable {t : Tokenizer} {out out' : Token}

/-- The word in front of a line. -/
theorem takeWhile_lowered (bs : List UInt8) :
    (lowered false bs).takeWhile isWordByte = lowercase (bs.takeWhile isWordByte) := by
  induction bs with
  | nil => rfl
  | cons b bs ih =>
    by_cases hword : isWordByte b = true
    · rw [lowered_cons (wordByte_ne hword), List.takeWhile_cons_of_pos hword,
        List.takeWhile_cons_of_pos ((isWordByte_tolower b).trans hword), ih]
      rfl
    · rw [List.takeWhile_cons_of_neg hword]
      by_cases hend : b = 0
      · subst hend
        rfl
      by_cases hquote : b = 39
      · subst hquote
        rfl
      rw [lowered_cons ⟨hend, hquote⟩, List.takeWhile_cons_of_neg]
      · rfl
      · rwa [isWordByte_tolower]

/-- What is behind it. -/
theorem drop_lowered (bs : List UInt8) :
    (lowered false bs).drop (bs.takeWhile isWordByte).length =
      lowered false (bs.drop (bs.takeWhile isWordByte).length) := by
  induction bs with
  | nil => rfl
  | cons b bs ih =>
    by_cases hword : isWordByte b = true
    · rw [List.takeWhile_cons_of_pos hword, lowered_cons (wordByte_ne hword), List.length_cons,
        List.drop_succ_cons, ih, List.drop_succ_cons]
    · rw [List.takeWhile_cons_of_neg hword]
      rfl

theorem wordToken_lowered (t : Tokenizer) (out : Token) :
    wordToken t.lowered out = ((wordToken t out).1.lowered, (wordToken t out).2.lowered) := by
  obtain ⟨-, hstring, hinvalid⟩ := wordType_ne (t.cursor.takeWhile isWordByte)
  unfold wordToken Token.lowered
  dsimp only [Tokenizer.lowered, Tokenizer.skip]
  rw [takeWhile_lowered, wordType_lowercase, length_lowercase, drop_lowered,
    if_neg (not_or.mpr ⟨hstring, hinvalid⟩)]
  congr 2
  split
  · next htype =>
    -- the digits of a number are no letters
    rcases wordType_cases (t.cursor.takeWhile isWordByte) with ⟨kw, hkw, -, heq⟩ | ⟨-, heq⟩
    · exact absurd (heq.symm.trans htype) (keywords_types kw hkw).2.2.2.2
    · rw [heq] at htype
      split at htype
      · next hdigits => rw [lowercase_of_isDigits hdigits]
      · cases htype
  · rfl

theorem lowered_skip {n : ℕ} (unread : List UInt8) (h : t.cursor.drop n = unread)
    (h' : t.lowered.cursor.drop n = MiniDB.lowered false unread) :
    t.lowered.skip n = (t.skip n).lowered := by
  unfold Tokenizer.skip Tokenizer.lowered
  rw [h]
  exact congrArg (fun cursor => (⟨cursor, t.offset + n, t.line, t.column + n⟩ : Tokenizer)) h'

/-- A string literal, by what ends its text. -/
theorem stringToken_eq (hcursor : t.cursor = 39 :: (text ++ rest))
    (htext : ∀ b ∈ text, b ≠ 39 ∧ b ≠ 0) (hrest : ∀ b ∈ rest.head?, b = 39 ∨ b = 0) (out : Token) :
    stringToken t out =
      if rest.head? = some 39 then
        ({ out with type := .tokenString, text := text }, t.skip (text.length + 2))
      else ({ out with type := .tokenInvalid, text := text }, t.skip (text.length + 1)) := by
  have hbody : t.cursor.drop 1 = text ++ rest := by
    rw [hcursor]
    rfl
  have hnone : rest.takeWhile (fun b => b != 39 && b != 0) = [] := by
    cases rest with
    | nil => rfl
    | cons b rest =>
      refine List.takeWhile_cons_of_neg ?_
      rcases hrest b rfl with rfl | rfl <;> decide
  have htake : (text ++ rest).takeWhile (fun b => b != 39 && b != 0) = text := by
    rw [List.takeWhile_append_of_pos (by simpa using htext), hnone, List.append_nil]
  unfold stringToken
  dsimp only
  rw [hbody, htake, List.drop_left]
  split
  · next hhead => rw [if_pos hhead]
  · next hhead => rw [if_neg hhead]

theorem stringToken_lowered {body : List UInt8} (hcursor : t.cursor = 39 :: body) (out : Token) :
    stringToken t.lowered out = ((stringToken t out).1.lowered, (stringToken t out).2.lowered) := by
  obtain ⟨text, rest, rfl, htext, hrest⟩ : ∃ text rest, body = text ++ rest ∧
      (∀ b ∈ text, b ≠ 39 ∧ b ≠ 0) ∧ ∀ b ∈ rest.head?, b = 39 ∨ b = 0 := by
    refine ⟨body.takeWhile fun b => b != 39 && b != 0, body.dropWhile fun b => b != 39 && b != 0,
      List.takeWhile_append_dropWhile.symm, fun b hb => ?_, fun b hb => ?_⟩
    · simpa using List.mem_takeWhile_imp hb
    · have hstop := head?_dropWhile _ b hb
      by_contra hne
      rw [not_or] at hne
      simp [hne.1, hne.2] at hstop
  have hlowered : t.lowered.cursor = 39 :: (text ++ lowered true rest) := by
    show MiniDB.lowered false t.cursor = _
    rw [hcursor, ← lowered_string htext]
    rfl
  have hhead : (lowered true rest).head? = rest.head? := by
    cases rest with
    | nil => rfl
    | cons b rest => rcases hrest b rfl with rfl | rfl <;> rfl
  rw [stringToken_eq hcursor htext hrest, stringToken_eq hlowered htext (hhead ▸ hrest), hhead]
  split
  · next hclosed =>
    obtain ⟨behind, rfl⟩ : ∃ behind, rest = 39 :: behind := by
      cases rest with
      | nil => cases hclosed
      | cons b behind => exact ⟨behind, by rw [Option.some_inj.mp hclosed]⟩
    refine Prod.ext rfl (lowered_skip behind ?_ ?_)
    · rw [hcursor]
      simp
    · rw [hlowered]
      simp [lowered]
  · next hopen =>
    refine Prod.ext rfl (lowered_skip rest ?_ ?_)
    · rw [hcursor]
      simp
    · rw [hlowered, List.drop_succ_cons, List.drop_left]
      cases rest with
      | nil => rfl
      | cons b rest =>
        rcases hrest b rfl with rfl | rfl
        · exact absurd rfl hopen
        · rfl

/-- Only the number of the token that is overwritten can show. -/
theorem getNextToken_congr (t : Tokenizer) (h : out.intValue = out'.intValue) :
    getNextToken t out = getNextToken t out' := by
  obtain ⟨type, text, intValue, byteOffset, line, column⟩ := out
  obtain ⟨type', text', intValue', byteOffset', line', column'⟩ := out'
  obtain rfl : intValue = intValue' := h
  rfl

/-- **The tokens of a line in lower case** are those of the line, in lower case. -/
theorem getNextToken_lowered (t : Tokenizer) (out : Token) :
    getNextToken t.lowered out =
      ((getNextToken t out).1.lowered, (getNextToken t out).2.lowered) := by
  have hskip : skipBlanks t.lowered.cursor t.lowered.offset t.lowered.line t.lowered.column =
      (skipBlanks t.cursor t.offset t.line t.column).lowered := skipBlanks_lowered _ _ _ _
  unfold getNextToken
  dsimp only
  rw [hskip]
  obtain ⟨cursor, offset, line, column⟩ := skipBlanks t.cursor t.offset t.line t.column
  cases cursor with
  | nil => rfl
  | cons b bs =>
    by_cases hend : b = 0
    · subst hend
      rfl
    by_cases hquote : b = 39
    · subst hquote
      exact stringToken_lowered (t := ⟨39 :: bs, offset, line, column⟩) rfl _
    have hcursor : MiniDB.lowered false (b :: bs) = tolower b :: MiniDB.lowered false bs :=
      lowered_cons ⟨hend, hquote⟩ bs
    have hword := wordToken_lowered ⟨b :: bs, offset, line, column⟩
      { out with byteOffset := offset, line := line, column := column }
    dsimp only [Tokenizer.lowered] at hword ⊢
    rw [hcursor] at hword ⊢
    dsimp only
    rw [if_neg hend, if_neg (mt (tolower_eq_iff (by decide)).mp hend), symbolType_tolower]
    cases hsymbol : symbolType b with
    | some type =>
      have hkind : ∀ type ∈ [TokenType.tokenComma, .tokenSemicolon, .tokenLparen, .tokenRparen,
          .tokenEqual, .tokenStar], ¬ (type = .tokenString ∨ type = .tokenInvalid) := by decide
      dsimp only [Token.lowered]
      rw [if_neg (hkind type (symbolType_eq_some hsymbol).2)]
      rfl
    | none =>
      dsimp only
      rw [if_neg hquote, if_neg (mt (tolower_eq_iff (by decide)).mp hquote)]
      exact hword

/-! ## Trees -/

/-- An expression whose names are in lower case. -/
def Expr.lowered : Expr → Expr
  | .literalInt n => .literalInt n
  | .literalString text => .literalString text
  | .literalBoolean b => .literalBoolean b
  | .column name => .column (lowercase name)
  | .equals left right => .equals left.lowered right.lowered

/-- A statement whose names are in lower case; the names that a `CREATE TABLE` stores stay as they
are. -/
def AstNode.lowered : AstNode → AstNode
  | .insert table values => .insert (lowercase table) (values.map Expr.lowered)
  | .select table isStar columns where_ =>
    .select (lowercase table) isStar (columns.map Expr.lowered) (where_.map Expr.lowered)
  | .createTable table definitions => .createTable table definitions
  | .updateTable table columns values where_ =>
    .updateTable (lowercase table) (columns.map Expr.lowered) (values.map Expr.lowered)
      (where_.map Expr.lowered)
  | .deleteTable table where_ => .deleteTable (lowercase table) (where_.map Expr.lowered)

/-! ## Parsers -/

variable {p p' : Parser}

/-- The same, in lower case. -/
structure Parser.Alike (p p' : Parser) : Prop where
  tokenizer : p.tokenizer.lowered = p'.tokenizer.lowered
  current : p.current.lowered = p'.current.lowered

/-- The same message, in lower case, or the same fault. -/
inductive ParseFailure.Alike : ParseFailure → ParseFailure → Prop
  | error {e e' : ParseError} : lowercase e.text = lowercase e'.text → Alike (.error e) (.error e')
  | fault (f : Fault) : Alike (.fault f) (.fault f)

/-- Results that are the same in lower case. -/
abbrev AlikeBy {α β : Type} (f : α → β) : Parse (α × Parser) → Parse (α × Parser) → Prop :=
  Related ParseFailure.Alike fun r r' => f r.1 = f r'.1 ∧ r.2.Alike r'.2

@[simp] theorem Token.lowered_type (t : Token) : t.lowered.type = t.type := by
  unfold Token.lowered
  split <;> rfl

/-- Assignments that are the same in lower case. -/
abbrev AlikeAssignments : Parse (List Expr × List Expr × Parser) →
    Parse (List Expr × List Expr × Parser) → Prop :=
  Related ParseFailure.Alike fun r r' => r.1.map Expr.lowered = r'.1.map Expr.lowered ∧
    r.2.1.map Expr.lowered = r'.2.1.map Expr.lowered ∧ r.2.2.Alike r'.2.2

theorem length_eq_of_lowered {xs xs' : List Expr} (h : xs.map Expr.lowered = xs'.map Expr.lowered) :
    xs.length = xs'.length := by
  rw [← List.length_map Expr.lowered, h, List.length_map]

/-- A list with one element more. -/
theorem lowered_append_eq {xs xs' : List Expr} {e e' : Expr}
    (h : xs.map Expr.lowered = xs'.map Expr.lowered) (he : e.lowered = e'.lowered) :
    (xs ++ [e]).map Expr.lowered = (xs' ++ [e']).map Expr.lowered := by
  rw [List.map_append, List.map_append, h, List.map_singleton, List.map_singleton, he]

/-- The name of a token in lower case. -/
theorem lowercase_tokenTypeName (t : Token) :
    lowercase (tokenTypeName t.lowered) = lowercase (tokenTypeName t) := by
  obtain ⟨type, text, intValue, byteOffset, line, column⟩ := t
  by_cases hident : type = .tokenIdentifier
  · subst hident
    have htext : (⟨.tokenIdentifier, text, intValue, byteOffset, line, column⟩ : Token).lowered =
        ⟨.tokenIdentifier, lowercase text, intValue, byteOffset, line, column⟩ := rfl
    rw [htext]
    unfold tokenTypeName lowercase
    dsimp only
    rw [List.map_take, List.map_take]
    simp only [List.map_append]
    congr 3
    exact lowercase_lowercase text
  · cases type <;> first | rfl | exact absurd rfl hident

namespace Parser.Alike

theorem type (h : p.Alike p') : p.current.type = p'.current.type := by
  have htype := congrArg Token.type h.current
  rwa [Token.lowered_type, Token.lowered_type] at htype

theorem position (h : p.Alike p') :
    p.current.line = p'.current.line ∧ p.current.column = p'.current.column := by
  have hfield : ∀ t : Token, t.lowered.line = t.line ∧ t.lowered.column = t.column := by
    intro t
    unfold Token.lowered
    split <;> exact ⟨rfl, rfl⟩
  rw [← (hfield p.current).1, ← (hfield p.current).2, h.current]
  exact hfield p'.current

theorem intValue (h : p.Alike p') : p.current.intValue = p'.current.intValue := by
  have hfield : ∀ t : Token, t.lowered.intValue = t.intValue := by
    intro t
    unfold Token.lowered
    split <;> rfl
  rw [← hfield, h.current, hfield]

/-- The text of a token that is no string literal. -/
theorem name (h : p.Alike p') (htype : p.current.type = .tokenIdentifier) :
    lowercase p.current.text = lowercase p'.current.text := by
  have hfield : ∀ t : Token, t.type = .tokenIdentifier → t.lowered.text = lowercase t.text := by
    intro t ht
    unfold Token.lowered
    rw [if_neg (by rw [ht]; decide)]
  rw [← hfield _ htype, h.current, hfield _ (h.type ▸ htype)]

/-- The text of a string literal. -/
theorem string (h : p.Alike p') (htype : p.current.type = .tokenString) :
    p.current.text = p'.current.text := by
  have hfield : ∀ t : Token, t.type = .tokenString → t.lowered.text = t.text := by
    intro t ht
    unfold Token.lowered
    rw [if_pos (Or.inl ht)]
  rw [← hfield _ htype, h.current, hfield _ (h.type ▸ htype)]

theorem rounds (h : p.Alike p') : p.rounds = p'.rounds := by
  have hlength := congrArg (fun t => t.cursor.length) h.tokenizer
  simp only [Tokenizer.lowered, length_lowered] at hlength
  unfold Parser.rounds
  rw [hlength]

/-- **The next tokens** are the same as well. -/
theorem advance (h : p.Alike p') : (parserAdvance p).Alike (parserAdvance p') := by
  have hnext : getNextToken p.tokenizer.lowered { p.current with type := .tokenNone } =
      getNextToken p'.tokenizer.lowered { p'.current with type := .tokenNone } := by
    rw [h.tokenizer]
    exact getNextToken_congr _ h.intValue
  rw [getNextToken_lowered, getNextToken_lowered, Prod.mk.injEq] at hnext
  exact ⟨hnext.2, hnext.1⟩

/-! ## The functions of the parser -/

theorem setError {α : Type} {R : α → α → Prop} (h : p.Alike p') (expected : String) :
    Related ParseFailure.Alike R (parserSetError p expected) (parserSetError p' expected) := by
  refine .error (.error ?_)
  have hfound : lowercase (tokenTypeName p.current) = lowercase (tokenTypeName p'.current) := by
    rw [← lowercase_tokenTypeName, h.current, lowercase_tokenTypeName]
  unfold ParseError.text
  dsimp only
  rw [h.position.1, h.position.2]
  unfold lowercase at hfound ⊢
  rw [List.map_take, List.map_take, List.map_append, List.map_append, hfound]

theorem expectToken (h : p.Alike p') (type : TokenType) (expected : String) :
    Related ParseFailure.Alike Parser.Alike (MiniDB.expectToken p type expected)
      (MiniDB.expectToken p' type expected) := by
  unfold MiniDB.expectToken
  rw [h.type]
  exact .ite Iff.rfl (fun _ => .ok h.advance) fun _ => h.setError expected

theorem parsePrimaryExpression (h : p.Alike p') :
    AlikeBy Expr.lowered (MiniDB.parsePrimaryExpression p) (MiniDB.parsePrimaryExpression p') := by
  unfold MiniDB.parsePrimaryExpression
  rw [← h.type, ← h.intValue]
  cases htype : p.current.type with
  | tokenInteger => exact .ok ⟨rfl, h.advance⟩
  | tokenString => exact .ok ⟨congrArg Expr.literalString (h.string htype), h.advance⟩
  | tokenIdentifier => exact .ok ⟨congrArg Expr.column (h.name htype), h.advance⟩
  | tokenTrue => exact .ok ⟨rfl, h.advance⟩
  | tokenFalse => exact .ok ⟨rfl, h.advance⟩
  | _ => exact h.setError _

theorem parseExpression (h : p.Alike p') :
    AlikeBy Expr.lowered (MiniDB.parseExpression p) (MiniDB.parseExpression p') := by
  refine h.parsePrimaryExpression.bind fun left left' hleft => ?_
  dsimp only
  rw [hleft.2.type]
  refine .ite Iff.rfl (fun _ => ?_) fun _ => .ok hleft
  refine hleft.2.advance.parsePrimaryExpression.bind fun right right' hright => ?_
  exact .ok ⟨congrArg₂ Expr.equals hleft.1 hright.1, hright.2⟩

theorem parseTableName (h : p.Alike p') :
    AlikeBy lowercase (MiniDB.parseTableName p) (MiniDB.parseTableName p') := by
  unfold MiniDB.parseTableName
  exact .ite (h.type ▸ Iff.rfl) (fun htype => .ok ⟨h.name htype, h.advance⟩) fun _ => h.setError _

theorem parseWhere (h : p.Alike p') :
    AlikeBy (Option.map Expr.lowered) (MiniDB.parseWhere p) (MiniDB.parseWhere p') := by
  unfold MiniDB.parseWhere
  refine .ite (h.type ▸ Iff.rfl) (fun _ => ?_) fun _ => .ok ⟨rfl, h⟩
  refine h.advance.parseExpression.bind fun e e' he => ?_
  exact .ok ⟨congrArg some he.1, he.2⟩

theorem parseSelectColumns (rounds : ℕ) {xs xs' : List Expr} (h : p.Alike p')
    (hxs : xs.map Expr.lowered = xs'.map Expr.lowered) :
    AlikeBy (List.map Expr.lowered) (MiniDB.parseSelectColumns rounds p xs)
      (MiniDB.parseSelectColumns rounds p' xs') := by
  induction rounds generalizing p p' xs xs' with
  | zero => exact .error (.fault _)
  | succ rounds ih =>
    unfold MiniDB.parseSelectColumns
    rw [h.type, length_eq_of_lowered hxs]
    refine .ite Iff.rfl (fun _ => .ok ⟨hxs, h⟩) fun _ => ?_
    refine .ite Iff.rfl (fun _ => ih h.advance hxs) fun _ => ?_
    refine .ite Iff.rfl (fun _ => h.setError _) fun _ => ?_
    refine .ite Iff.rfl (fun _ => h.setError _) fun _ => ?_
    refine h.parsePrimaryExpression.bind fun e e' he => ?_
    exact ih he.2 (lowered_append_eq hxs he.1)

theorem parseValues (rounds : ℕ) {xs xs' : List Expr} (h : p.Alike p')
    (hxs : xs.map Expr.lowered = xs'.map Expr.lowered) :
    AlikeBy (List.map Expr.lowered) (MiniDB.parseValues rounds p xs)
      (MiniDB.parseValues rounds p' xs') := by
  induction rounds generalizing p p' xs xs' with
  | zero => exact .error (.fault _)
  | succ rounds ih =>
    unfold MiniDB.parseValues
    rw [h.type, length_eq_of_lowered hxs]
    refine .ite Iff.rfl (fun _ => .ok ⟨hxs, h⟩) fun _ => ?_
    refine .ite Iff.rfl (fun _ => ih h.advance hxs) fun _ => ?_
    refine .ite Iff.rfl (fun _ => h.setError _) fun _ => ?_
    refine h.parsePrimaryExpression.bind fun e e' he => ?_
    exact ih he.2 (lowered_append_eq hxs he.1)

theorem parseAssignments (rounds : ℕ) {xs xs' ys ys' : List Expr} (h : p.Alike p')
    (hxs : xs.map Expr.lowered = xs'.map Expr.lowered)
    (hys : ys.map Expr.lowered = ys'.map Expr.lowered) :
    AlikeAssignments (MiniDB.parseAssignments rounds p xs ys)
      (MiniDB.parseAssignments rounds p' xs' ys') := by
  induction rounds generalizing p p' xs xs' ys ys' with
  | zero => exact .error (.fault _)
  | succ rounds ih =>
    unfold MiniDB.parseAssignments
    rw [h.type, length_eq_of_lowered hxs, length_eq_of_lowered hys]
    refine .ite Iff.rfl (fun _ => .ok ⟨hxs, hys, h⟩) fun _ => ?_
    refine .ite Iff.rfl (fun _ => ih h.advance hxs hys) fun _ => ?_
    refine .ite Iff.rfl (fun _ => h.setError _) fun _ => ?_
    refine .ite Iff.rfl (fun _ => h.setError _) fun _ => ?_
    refine h.parsePrimaryExpression.bind fun column column' hcolumn => ?_
    refine (hcolumn.2.expectToken _ _).bind fun q q' hq => ?_
    refine .ite Iff.rfl (fun _ => hq.setError _) fun _ => ?_
    refine hq.parsePrimaryExpression.bind fun value value' hvalue => ?_
    exact ih hvalue.2 (lowered_append_eq hxs hcolumn.1) (lowered_append_eq hys hvalue.1)

theorem parseSelectStatement (h : p.Alike p') :
    AlikeBy AstNode.lowered (MiniDB.parseSelectStatement p) (MiniDB.parseSelectStatement p') := by
  refine (h.expectToken _ _).bind fun q q' hq => ?_
  rw [hq.type, hq.rounds]
  have hcolumns : AlikeBy (List.map Expr.lowered)
      (if q'.current.type = .tokenStar then pure ([], parserAdvance q)
        else MiniDB.parseSelectColumns q'.rounds q [])
      (if q'.current.type = .tokenStar then pure ([], parserAdvance q')
        else MiniDB.parseSelectColumns q'.rounds q' []) :=
    .ite Iff.rfl (fun _ => .ok ⟨rfl, hq.advance⟩) fun _ => hq.parseSelectColumns _ rfl
  refine hcolumns.bind fun columns columns' hcolumns => ?_
  refine (hcolumns.2.expectToken _ _).bind fun q q' hq => ?_
  refine hq.parseTableName.bind fun table table' htable => ?_
  refine htable.2.parseWhere.bind fun where_ where' hwhere => ?_
  refine .ok ⟨?_, hwhere.2⟩
  simp only [AstNode.lowered]
  rw [htable.1, hcolumns.1, hwhere.1]

theorem parseInsertStatement (h : p.Alike p') :
    AlikeBy AstNode.lowered (MiniDB.parseInsertStatement p) (MiniDB.parseInsertStatement p') := by
  refine (h.expectToken _ _).bind fun q q' hq => ?_
  refine (hq.expectToken _ _).bind fun q q' hq => ?_
  refine hq.parseTableName.bind fun table table' htable => ?_
  refine (htable.2.expectToken _ _).bind fun q q' hq => ?_
  refine (hq.expectToken _ _).bind fun q q' hq => ?_
  rw [hq.rounds]
  refine (hq.parseValues _ rfl).bind fun values values' hvalues => ?_
  refine (hvalues.2.expectToken _ _).bind fun q q' hq => ?_
  refine .ok ⟨?_, hq⟩
  simp only [AstNode.lowered]
  rw [htable.1, hvalues.1]

theorem parseUpdateStatement (h : p.Alike p') :
    AlikeBy AstNode.lowered (MiniDB.parseUpdateStatement p) (MiniDB.parseUpdateStatement p') := by
  have hhead : ∀ {q q' : Parser}, q.Alike q' → Related ParseFailure.Alike
      (fun r r' => lowercase r.1 = lowercase r'.1 ∧
        r.2.1.map Expr.lowered = r'.2.1.map Expr.lowered ∧
        r.2.2.1.map Expr.lowered = r'.2.2.1.map Expr.lowered ∧ r.2.2.2.Alike r'.2.2.2)
      (parseUpdateHead q) (parseUpdateHead q') := by
    intro q q' hq
    refine hq.parseTableName.bind fun table table' htable => ?_
    refine (htable.2.expectToken _ _).bind fun q q' hq => ?_
    rw [hq.rounds]
    refine (hq.parseAssignments _ rfl rfl).bind fun as as' has => ?_
    refine (has.2.2.expectToken _ _).bind fun q q' hq => ?_
    exact .ok ⟨htable.1, has.1, has.2.1, hq⟩
  refine (h.expectToken _ _).bind fun q q' hq => ?_
  have hparsed := hhead hq
  dsimp only
  generalize parseUpdateHead q = x at hparsed ⊢
  generalize parseUpdateHead q' = x' at hparsed ⊢
  cases hparsed with
  | error _ => exact .error (.fault _)
  | ok has =>
    refine has.2.2.2.parseExpression.bind fun where_ where' hwhere => ?_
    refine .ok ⟨?_, hwhere.2⟩
    simp only [AstNode.lowered, Option.map_some]
    rw [has.1, has.2.1, has.2.2.1, hwhere.1]

theorem parseDeleteStatement (h : p.Alike p') :
    AlikeBy AstNode.lowered (MiniDB.parseDeleteStatement p) (MiniDB.parseDeleteStatement p') := by
  refine (h.expectToken _ _).bind fun q q' hq => ?_
  refine (hq.expectToken _ _).bind fun q q' hq => ?_
  refine hq.parseTableName.bind fun table table' htable => ?_
  refine htable.2.parseWhere.bind fun where_ where' hwhere => ?_
  refine .ok ⟨?_, hwhere.2⟩
  simp only [AstNode.lowered]
  rw [htable.1, hwhere.1]

end Parser.Alike

/-! ## Lines -/

/-- Lines that are the same in lower case. -/
theorem alike_parserInit {sql sql' : List UInt8} (h : lowered false sql = lowered false sql') :
    (parserInit sql).Alike (parserInit sql') := by
  have htokenizer : (tokenizerInit sql).lowered = (tokenizerInit sql').lowered := by
    unfold Tokenizer.lowered tokenizerInit
    rw [h]
  have hnext : getNextToken (tokenizerInit sql).lowered ⟨.tokenNone, [], 0, 0, 0, 0⟩ =
      getNextToken (tokenizerInit sql').lowered ⟨.tokenNone, [], 0, 0, 0, 0⟩ := by
    rw [htokenizer]
  rw [getNextToken_lowered, getNextToken_lowered, Prod.mk.injEq] at hnext
  exact ⟨hnext.2, hnext.1⟩

/-- **Lines that are the same in lower case** are both parsed, to the same tree in lower case, or
both refused with the same message; a `CREATE TABLE` is left aside. -/
theorem parseStatement_related {sql sql' : List UInt8} (h : lowered false sql = lowered false sql')
    (hcreate : (parserInit sql).current.type ≠ .tokenCreate) :
    (parseStatement (parserInit sql) = none ∧ parseStatement (parserInit sql') = none) ∨
      ∃ r r', parseStatement (parserInit sql) = some r ∧
        parseStatement (parserInit sql') = some r' ∧
        AlikeBy AstNode.lowered r r' := by
  have halike := alike_parserInit h
  unfold parseStatement
  rw [← halike.type]
  split
  · exact Or.inr ⟨_, _, rfl, rfl, halike.parseSelectStatement⟩
  · next htype => exact absurd htype hcreate
  · exact Or.inr ⟨_, _, rfl, rfl, halike.parseInsertStatement⟩
  · exact Or.inr ⟨_, _, rfl, rfl, halike.parseUpdateStatement⟩
  · exact Or.inr ⟨_, _, rfl, rfl, halike.parseDeleteStatement⟩
  · exact Or.inl ⟨rfl, rfl⟩

end MiniDB
