import MiniDB.Parsing.Lexing

/-!
# Does the lexer reach the end?

The callers of `get_next_token` loop on the type of the token alone, so they come to an end only if
every call moves the cursor.  A byte outside of the string literals that no token starts with stops
the lexer for good.

* `ReadsTo`, `readTokens`: the states that calls lead to.
* `LexerProgress`: every call moves on, and the loops come to an end.
* `lexerProgress_iff`: **this is so exactly on readable texts**.
-/

namespace MiniDB

/-- The states of the tokenizer that calls on a text lead to. -/
inductive ReadsTo (text : List UInt8) : Tokenizer → Prop
  | init : ReadsTo text (tokenizerInit text)
  | next {t : Tokenizer} (out : Token) : ReadsTo text t → ReadsTo text (getNextToken t out).2

/-- The token and the state after a number of calls. -/
def readTokens : ℕ → Tokenizer → Token → Token × Tokenizer
  | 0, t, out => (out, t)
  | k + 1, t, out => readTokens k (getNextToken t out).2 (getNextToken t out).1

/-- The length of a C string: the bytes in front of its terminator. -/
def textLength (text : List UInt8) : ℕ := (text.takeWhile (· != 0)).length

/-- The lexer moves over the text, token by token, until it reaches the end. -/
structure LexerProgress (text : List UInt8) : Prop where
  /-- a call reads the end, or moves over blanks and the bytes of its token, of which there are
  some -/
  moves : ∀ t, ReadsTo text t → ∀ out, (getNextToken t out).1.type ≠ .tokenEof →
    ∃ blanks, (∀ b ∈ blanks, isBlank b = true) ∧
      t.cursor = blanks ++ ((getNextToken t out).1.lexeme ++ (getNextToken t out).2.cursor) ∧
      (getNextToken t out).1.lexeme ≠ []
  ends : ∃ k ≤ textLength text + 1,
    (readTokens k (tokenizerInit text) Token.cleared).1.type = .tokenEof
  debugTokens : ∃ rounds names, debugTokens rounds text = .ok names
  findIdentifier : ∃ rounds token,
    findIdentifier rounds (tokenizerInit text) Token.cleared = .ok token

variable {text : List UInt8} {t : Tokenizer} {out : Token}

/-- A call leaves a readable text behind exactly when it is called on one. -/
theorem readable_getNextToken (t : Tokenizer) (out : Token) :
    readable false (getNextToken t out).2.cursor = readable false t.cursor := by
  have hlexed := getNextToken_lexed t out
  rw [readable_blanks t.cursor]
  cases hread : readable false (t.cursor.dropWhile isBlank) with
  | false => exact (hlexed.unreadable hread).2
  | true =>
    rcases hlexed.readable hread with ⟨-, heq⟩ | ⟨-, -, -, hrest⟩
    · rw [heq]
      exact hread
    · exact hrest

theorem ReadsTo.readable (h : ReadsTo text t) :
    MiniDB.readable false t.cursor = MiniDB.readable false text := by
  induction h with
  | init => rfl
  | next out _ ih => rw [readable_getNextToken, ih]

/-! ## Readable texts -/

theorem textLength_append {bs : List UInt8} (rest : List UInt8) (h : ∀ b ∈ bs, b ≠ 0) :
    textLength (bs ++ rest) = bs.length + textLength rest := by
  unfold textLength
  rw [List.takeWhile_append_of_pos, List.length_append]
  intro b hb
  simpa using h b hb

/-- A call on a readable text. -/
theorem getNextToken_moves (hread : readable false t.cursor = true) (out : Token) :
    (getNextToken t out).1.type = .tokenEof ∨
      ((∃ blanks, (∀ b ∈ blanks, isBlank b = true) ∧
        t.cursor = blanks ++ ((getNextToken t out).1.lexeme ++ (getNextToken t out).2.cursor) ∧
        (getNextToken t out).1.lexeme ≠ []) ∧
      textLength (getNextToken t out).2.cursor < textLength t.cursor) := by
  rw [readable_blanks] at hread
  rcases (getNextToken_lexed t out).readable hread with ⟨htype, -⟩ | ⟨heq, hne, hterm, -⟩
  · exact Or.inl htype
  · have hblanks : ∀ b ∈ t.cursor.takeWhile isBlank, isBlank b = true := fun b hb =>
      List.mem_takeWhile_imp hb
    have hsplit : t.cursor = t.cursor.takeWhile isBlank ++
        ((getNextToken t out).1.lexeme ++ (getNextToken t out).2.cursor) := by
      rw [← heq, List.takeWhile_append_dropWhile]
    refine Or.inr ⟨⟨_, hblanks, hsplit, hne⟩, ?_⟩
    have hlen : 0 < (getNextToken t out).1.lexeme.length := List.length_pos_iff.mpr hne
    conv_rhs => rw [hsplit]
    rw [textLength_append _ fun b hb => (blank_ne (hblanks b hb)).1, textLength_append _ hterm]
    omega

/-- The end is reached. -/
theorem exists_eof {n : ℕ} (hread : readable false t.cursor = true)
    (hn : textLength t.cursor < n) (out : Token) :
    ∃ k ≤ n, (readTokens k t out).1.type = .tokenEof := by
  induction n generalizing t out with
  | zero => exact absurd hn (Nat.not_lt_zero _)
  | succ n ih =>
    rcases getNextToken_moves hread out with htype | ⟨-, hlt⟩
    · exact ⟨1, by omega, htype⟩
    · obtain ⟨k, hk, htype⟩ := ih (by rw [readable_getNextToken, hread])
        (lt_of_lt_of_le hlt (Nat.lt_succ_iff.mp hn)) (getNextToken t out).1
      exact ⟨k + 1, Nat.succ_le_succ hk, htype⟩

/-- A loop that stops at the end comes to an end. -/
theorem debugTokensFrom_ok {k : ℕ} (h : (readTokens k t out).1.type = .tokenEof) :
    ∃ names, debugTokensFrom (k + 1) t out = .ok names := by
  induction k generalizing t out with
  | zero => exact ⟨[], if_pos h⟩
  | succ k ih =>
    obtain ⟨names, hnames⟩ := ih h
    unfold debugTokensFrom
    split
    · exact ⟨[], rfl⟩
    · refine ⟨tokenTypeName (getNextToken t out).1 :: names, ?_⟩
      simp only [hnames, bind, Except.bind]
      rfl

theorem findIdentifier_ok {k : ℕ} (h : (readTokens k t out).1.type = .tokenEof) :
    ∃ token, findIdentifier (k + 1) t out = .ok token := by
  induction k generalizing t out with
  | zero => exact ⟨out, if_pos (Or.inr h)⟩
  | succ k ih =>
    unfold findIdentifier
    split
    · exact ⟨out, rfl⟩
    · exact ih h

theorem LexerProgress.of_readable (hread : readable false text = true) : LexerProgress text := by
  obtain ⟨k, hk, htype⟩ := exists_eof (t := tokenizerInit text) hread
    (Nat.lt_succ_self (textLength text)) Token.cleared
  refine ⟨?_, ⟨k, hk, htype⟩, ⟨_, debugTokensFrom_ok htype⟩, ⟨_, findIdentifier_ok htype⟩⟩
  intro t ht out hne
  have ht' : readable false t.cursor = true := ht.readable.trans hread
  exact ((getNextToken_moves ht' out).resolve_left hne).1

/-! ## Other texts -/

/-- On a text that is not readable no call ever reads the end. -/
theorem readTokens_unreadable (hread : readable false t.cursor = false) {k : ℕ}
    (hout : out.type ≠ .tokenEof) : (readTokens k t out).1.type ≠ .tokenEof := by
  induction k generalizing t out with
  | zero => exact hout
  | succ k ih =>
    refine ih (by rw [readable_getNextToken, hread]) ?_
    rw [readable_blanks] at hread
    exact ((getNextToken_lexed t out).unreadable hread).1

theorem LexerProgress.readable (h : LexerProgress text) : MiniDB.readable false text = true := by
  obtain ⟨k, -, htype⟩ := h.ends
  by_contra hread
  exact readTokens_unreadable (eq_false_of_ne_true hread) (by decide) htype

/-- **The lexer reaches the end exactly when the text is readable.** -/
theorem lexerProgress_iff (text : List UInt8) :
    LexerProgress text ↔ readable false text = true :=
  ⟨LexerProgress.readable, LexerProgress.of_readable⟩

/-- A byte that starts no token. -/
theorem not_lexerProgress_at : ¬ LexerProgress (ascii "SELECT @") := fun h =>
  absurd h.readable (by decide)

end MiniDB
