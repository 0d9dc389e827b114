import MiniDB.Parsing.Lexing

/-!
# Where the tokens stand

A token carries the line and the column that `parser_set_error` reports.  The lexer keeps them by
counting: the loop over blanks starts a new line at each newline byte, and every token that is read
adds its length to the column.  A string literal may hold newline bytes as well, and these are
counted as columns.

* `lineBehind`, `columnBehind`: the place behind a piece of text.
* `InStep`: the place of the tokenizer in the text, and how many newlines its counters have missed.
* `newlinesOutside`: no string literal that is read holds a newline.
* `positionsRight_iff`: **exactly then every token points at its place**.
-/

namespace MiniDB

variable {text before input rest consumed : List UInt8} {t : Tokenizer} {token : Token}
  {missed : ℕ}

/-! ## Places in a text -/

/-- The line of the place behind `before`: one more than there are newline bytes. -/
def lineBehind (before : List UInt8) : ℕ := 1 + before.count 10

/-- The column of the place behind `before`: one more than there are bytes in its last line. -/
def columnBehind (before : List UInt8) : ℕ := 1 + (before.reverse.takeWhile (· != 10)).length

theorem lineBehind_append (before bs : List UInt8) :
    lineBehind (before ++ bs) = lineBehind before + bs.count 10 := by
  unfold lineBehind
  rw [List.count_append]
  omega

theorem columnBehind_newline (before : List UInt8) : columnBehind (before ++ [10]) = 1 := by
  unfold columnBehind
  rw [List.reverse_append, List.reverse_singleton, List.singleton_append,
    List.takeWhile_cons_of_neg (by decide), List.length_nil]

theorem columnBehind_append {bs : List UInt8} (before : List UInt8) (h : 10 ∉ bs) :
    columnBehind (before ++ bs) = columnBehind before + bs.length := by
  unfold columnBehind
  rw [List.reverse_append, List.takeWhile_append_of_pos, List.length_append, List.length_reverse]
  · omega
  · intro b hb
    have hne : b ≠ 10 := by
      rintro rfl
      exact h (List.mem_reverse.mp hb)
    simpa using hne

/-- The token has the line and the column of the place that it gives. -/
def PointsRight (text : List UInt8) (token : Token) : Prop :=
  token.line = lineBehind (text.take token.byteOffset) ∧
    token.column = columnBehind (text.take token.byteOffset)

/-- The states of the tokenizer that calls on a text lead to, up to the one that reads the end. -/
inductive ReadsOn (text : List UInt8) : Tokenizer → Prop
  | init : ReadsOn text (tokenizerInit text)
  | next {t : Tokenizer} (out : Token) : ReadsOn text t →
      (getNextToken t out).1.type ≠ .tokenEof → ReadsOn text (getNextToken t out).2

/-- Every token up to the first `TOKEN_EOF` points at its place. -/
def PositionsRight (text : List UInt8) : Prop :=
  ∀ t, ReadsOn text t → ∀ out, PointsRight text (getNextToken t out).1

/-! ## The counters -/

/-- **The invariant.** The bytes `before` have been read, and the counters have missed `missed` of
their newlines. -/
structure InStep (text before : List UInt8) (missed : ℕ) (t : Tokenizer) : Prop where
  split : text = before ++ t.cursor
  offset : t.offset = before.length
  line : t.line + missed = lineBehind before
  column : missed = 0 → t.column = columnBehind before

theorem inStep_tokenizerInit (text : List UInt8) : InStep text [] 0 (tokenizerInit text) :=
  ⟨rfl, rfl, rfl, fun _ => rfl⟩

/-- The loop over blanks counts every newline. -/
theorem inStep_skipBlanks {bs : List UInt8} {offset line column : ℕ}
    (h : InStep text before missed ⟨bs, offset, line, column⟩) :
    ∃ blanks, InStep text (before ++ blanks) missed (skipBlanks bs offset line column) := by
  induction bs generalizing before offset line column with
  | nil => exact ⟨[], by rwa [List.append_nil]⟩
  | cons b bs ih =>
    obtain ⟨hsplit, hoffset, hline, hcolumn⟩ := h
    dsimp only at hsplit hoffset hline hcolumn
    have hsplit' : text = (before ++ [b]) ++ bs := by rw [hsplit, List.append_cons]
    have hoffset' : offset + 1 = (before ++ [b]).length := by
      rw [hoffset, List.length_append, List.length_singleton]
    unfold skipBlanks
    split
    · next hnewline =>
      subst hnewline
      have hline' : line + 1 + missed = lineBehind (before ++ [10]) := by
        rw [lineBehind_append, ← hline, List.count_singleton_self]
        omega
      have hstep : InStep text (before ++ [10]) missed ⟨bs, offset + 1, line + 1, 1⟩ :=
        ⟨hsplit', hoffset', hline', fun _ => (columnBehind_newline _).symm⟩
      obtain ⟨blanks, hblanks⟩ := ih hstep
      exact ⟨10 :: blanks, by rwa [List.append_cons]⟩
    · next hb =>
      have hmem : 10 ∉ [b] := fun hmem => hb (List.mem_singleton.mp hmem).symm
      have hline' : line + missed = lineBehind (before ++ [b]) := by
        rw [lineBehind_append, List.count_eq_zero.mpr hmem, hline, Nat.add_zero]
      have hcolumn' : missed = 0 → column + 1 = columnBehind (before ++ [b]) := fun h0 => by
        rw [columnBehind_append _ hmem, hcolumn h0, List.length_singleton]
      split
      · obtain ⟨blanks, hblanks⟩ := ih ⟨hsplit', hoffset', hline', hcolumn'⟩
        exact ⟨b :: blanks, by rwa [List.append_cons]⟩
      · exact ⟨[], by rw [List.append_nil]; exact ⟨hsplit, hoffset, hline, hcolumn⟩⟩

/-- The bytes of a token are counted as columns: its newlines are missed. -/
theorem InStep.skip (h : InStep text before missed t) (hcursor : t.cursor = consumed ++ rest) :
    InStep text (before ++ consumed) (missed + consumed.count 10) (t.skip consumed.length) where
  split := by
    rw [h.split, Tokenizer.skip, hcursor, List.drop_left, List.append_assoc]
  offset := by
    rw [Tokenizer.skip, h.offset, List.length_append]
  line := by
    rw [lineBehind_append, ← h.line, Nat.add_assoc]
    rfl
  column := by
    intro h0
    obtain ⟨hmissed, hcount⟩ := Nat.add_eq_zero_iff.mp h0
    rw [columnBehind_append _ (List.count_eq_zero.mp hcount), ← h.column hmissed]
    rfl

/-- The state that a call has after the blanks. -/
def Tokenizer.atToken (t : Tokenizer) : Tokenizer := skipBlanks t.cursor t.offset t.line t.column

theorem InStep.atToken (h : InStep text before missed t) :
    ∃ blanks, InStep text (before ++ blanks) missed t.atToken := inStep_skipBlanks h

/-- The token is given the place behind the blanks. -/
theorem getNextToken_position (t : Tokenizer) (out : Token) :
    (getNextToken t out).1.byteOffset = t.atToken.offset ∧
      (getNextToken t out).1.line = t.atToken.line ∧
      (getNextToken t out).1.column = t.atToken.column := by
  unfold getNextToken Tokenizer.atToken
  dsimp only
  split
  · exact ⟨rfl, rfl, rfl⟩
  · split
    · exact ⟨rfl, rfl, rfl⟩
    · split
      · exact ⟨rfl, rfl, rfl⟩
      · split
        · unfold stringToken
          dsimp only
          split <;> exact ⟨rfl, rfl, rfl⟩
        · exact ⟨rfl, rfl, rfl⟩

/-- **The token points at its place exactly when no newline was missed.** -/
theorem InStep.pointsRight_iff (h : InStep text before missed t) (out : Token) :
    PointsRight text (getNextToken t out).1 ↔ missed = 0 := by
  obtain ⟨blanks, hsplit, hoffset, hline, hcolumn⟩ := h.atToken
  obtain ⟨hoffset', hline', hcolumn'⟩ := getNextToken_position t out
  have htake : text.take (getNextToken t out).1.byteOffset = before ++ blanks := by
    rw [hoffset', hoffset, hsplit, List.take_left]
  unfold PointsRight
  rw [htake, hline', hcolumn', ← hline]
  refine ⟨fun hright => by omega, fun h0 => ⟨by omega, hcolumn h0⟩⟩

/-- Behind the blanks a call moves over the bytes of the token, and counts them as columns. -/
theorem getNextToken_skip (t : Tokenizer) (out : Token) : ∃ n ≤ t.atToken.cursor.length,
    (getNextToken t out).2 = t.atToken.skip n := by
  have hzero : ∀ t : Tokenizer, t = t.skip 0 := fun t => rfl
  unfold getNextToken
  rw [← Tokenizer.atToken]
  dsimp only
  split
  · exact ⟨0, Nat.zero_le _, hzero _⟩
  · next b rest hcursor =>
    have hpos : 1 ≤ t.atToken.cursor.length := by rw [hcursor]; exact Nat.succ_pos _
    split
    · exact ⟨0, Nat.zero_le _, hzero _⟩
    · split
      · exact ⟨1, hpos, rfl⟩
      · split
        · obtain ⟨body, hbody⟩ : ∃ body, body = t.atToken.cursor.drop 1 := ⟨_, rfl⟩
          have hlen : body.length + 1 = t.atToken.cursor.length := by
            rw [hbody, List.length_drop]
            omega
          have hle : (body.takeWhile fun b => b != 39 && b != 0).length ≤ body.length :=
            (List.takeWhile_prefix _).length_le
          unfold stringToken
          dsimp only
          rw [← hbody]
          split
          · next hquote =>
            refine ⟨_, ?_, rfl⟩
            have hlt : (body.takeWhile fun b => b != 39 && b != 0).length < body.length := by
              rw [List.head?_drop] at hquote
              exact (List.getElem?_eq_some_iff.mp hquote).1
            omega
          · exact ⟨_, by omega, rfl⟩
        · exact ⟨_, (List.takeWhile_prefix _).length_le, rfl⟩

/-! ## Newlines in string literals -/

/-- No string literal holds a newline, up to the end of the text or the first byte outside of the
literals that starts no token. -/
def newlinesOutside : (inString : Bool) → List UInt8 → Bool
  | _, [] => true
  | inString, b :: bs =>
    if b = 0 then true
    else if b = 39 then newlinesOutside (! inString) bs
    else if inString then b != 10 && newlinesOutside true bs
    else if isBlank b || isWordByte b || (symbolType b).isSome then newlinesOutside false bs
    else true

theorem newlinesOutside_of_head {inString : Bool} {bs : List UInt8} (h : ∀ b ∈ bs.head?, b = 0) :
    newlinesOutside inString bs = true := by
  cases bs with
  | nil => rfl
  | cons b bs => exact if_pos (h b rfl)

/-- Bytes that can stand outside of string literals. -/
theorem newlinesOutside_append {bs : List UInt8} (rest : List UInt8) (h : ∀ b ∈ bs, b ≠ 0 ∧
    b ≠ 39 ∧ (isBlank b || isWordByte b || (symbolType b).isSome) = true) :
    newlinesOutside false (bs ++ rest) = newlinesOutside false rest := by
  induction bs with
  | nil => rfl
  | cons b bs ih =>
    obtain ⟨h0, hquote, hstart⟩ := h b List.mem_cons_self
    rw [List.cons_append, newlinesOutside, if_neg h0, if_neg hquote, if_neg Bool.false_ne_true,
      if_pos hstart]
    exact ih fun c hc => h c (List.mem_cons_of_mem _ hc)

/-- Bytes of a string literal. -/
theorem newlinesOutside_string {bs : List UInt8} (rest : List UInt8)
    (h : ∀ b ∈ bs, b ≠ 39 ∧ b ≠ 0) : newlinesOutside true (bs ++ rest) = true ↔
      10 ∉ bs ∧ newlinesOutside true rest = true := by
  induction bs with
  | nil => simp
  | cons b bs ih =>
    obtain ⟨hquote, h0⟩ := h b List.mem_cons_self
    rw [List.cons_append, newlinesOutside, if_neg h0, if_neg hquote, if_pos rfl, Bool.and_eq_true,
      ih fun c hc => h c (List.mem_cons_of_mem _ hc), List.mem_cons, not_or, and_assoc, bne_iff_ne,
      ne_comm]

theorem newlinesOutside_blanks (bs : List UInt8) :
    newlinesOutside false (bs.dropWhile isBlank) = newlinesOutside false bs := by
  conv_rhs => rw [← List.takeWhile_append_dropWhile (p := isBlank) (l := bs)]
  exact (newlinesOutside_append _ (blanks_outside bs)).symm

/-- **What a call moves over.** -/
theorem Lexed.newlinesOutside (h : Lexed input token rest) : ∃ consumed, input = consumed ++ rest ∧
    (MiniDB.newlinesOutside false input = true ↔
      10 ∉ consumed ∧ MiniDB.newlinesOutside false rest = true) ∧
    (consumed = [] → MiniDB.newlinesOutside false input = true) := by
  cases h with
  | eof hend =>
    have htrue : MiniDB.newlinesOutside false input = true := newlinesOutside_of_head hend
    exact ⟨[], rfl, by simp [htrue], fun _ => htrue⟩
  | @symbol b _ _ h0 hsymbol =>
    have hmem := (symbolType_eq_some hsymbol).1
    have hquote : b ≠ 39 := by
      rintro rfl
      exact absurd hmem (by decide)
    have hline : b ≠ 10 := by
      rintro rfl
      exact absurd hmem (by decide)
    refine ⟨[b], rfl, ?_, fun hnil => absurd hnil (List.cons_ne_nil _ _)⟩
    have hskip : MiniDB.newlinesOutside false ([b] ++ rest) =
        MiniDB.newlinesOutside false rest := by
      refine newlinesOutside_append rest fun c hc => ?_
      rw [List.mem_singleton.mp hc, hsymbol]
      exact ⟨h0, hquote, by simp⟩
    rw [List.singleton_append] at hskip
    rw [hskip, List.mem_singleton]
    exact ⟨fun hrest => ⟨fun heq => hline heq.symm, hrest⟩, And.right⟩
  | @string text _ _ hgood =>
    refine ⟨39 :: (text ++ [39]), by simp, ?_, fun hnil => absurd hnil (List.cons_ne_nil _ _)⟩
    rw [MiniDB.newlinesOutside, if_neg (by decide), if_pos rfl, Bool.not_false,
      newlinesOutside_string _ hgood, MiniDB.newlinesOutside, if_neg (by decide), if_pos rfl]
    simp
  | @invalid text _ _ hgood hend =>
    refine ⟨39 :: text, rfl, ?_, fun hnil => absurd hnil (List.cons_ne_nil _ _)⟩
    rw [MiniDB.newlinesOutside, if_neg (by decide), if_pos rfl, Bool.not_false,
      newlinesOutside_string _ hgood, newlinesOutside_of_head hend, newlinesOutside_of_head hend]
    simp
  | @word text _ _ hne hword =>
    refine ⟨text, rfl, ?_, fun hnil => absurd hnil hne⟩
    rw [newlinesOutside_append rest (word_outside hword)]
    refine ⟨fun hrest => ⟨fun hline => ?_, hrest⟩, And.right⟩
    exact absurd (hword 10 hline) (by decide)
  | @stuck b rest _ h0 hquote hblank hsymbol hword =>
    have htrue : MiniDB.newlinesOutside false (b :: rest) = true := by
      rw [MiniDB.newlinesOutside, if_neg h0, if_neg hquote, if_neg Bool.false_ne_true, if_neg]
      rw [hblank, hsymbol, hword]
      decide
    exact ⟨[], rfl, by simp [htrue], fun _ => htrue⟩

/-- At the end of the text there is no literal left. -/
theorem Lexed.newlinesOutside_of_eof (h : Lexed input token rest) (heof : token.type = .tokenEof) :
    MiniDB.newlinesOutside false input = true := by
  cases h with
  | eof hend => exact newlinesOutside_of_head hend
  | symbol _ hsymbol =>
    rw [heof] at hsymbol
    exact absurd (symbolType_eq_some hsymbol).2 (by decide)
  | word _ _ _ htype => exact absurd (htype.symm.trans heof) (wordType_ne _).1
  | string _ htype | invalid _ _ htype | stuck _ _ _ _ _ htype =>
    rw [heof] at htype
    cases htype

/-! ## Calls -/

/-- **One call**: the newlines of the token are missed, and what the condition says. -/
theorem InStep.getNextToken (h : InStep text before missed t) (out : Token) :
    ∃ before' consumed : List UInt8,
      InStep text before' (missed + consumed.count 10) (MiniDB.getNextToken t out).2 ∧
      (MiniDB.newlinesOutside false t.cursor = true ↔ 10 ∉ consumed ∧
        MiniDB.newlinesOutside false (MiniDB.getNextToken t out).2.cursor = true) ∧
      (MiniDB.newlinesOutside false t.cursor = false →
        (MiniDB.getNextToken t out).2.cursor.length < t.cursor.length) := by
  have hcursor : t.atToken.cursor = t.cursor.dropWhile isBlank := skipBlanks_cursor ..
  obtain ⟨consumed, hsplit, hiff, hnil⟩ := (getNextToken_lexed t out).newlinesOutside
  rw [newlinesOutside_blanks] at hiff hnil
  obtain ⟨n, hn, hskip⟩ := getNextToken_skip t out
  have hall := congrArg List.length hsplit
  rw [List.length_append] at hall
  have hlen : consumed.length = n := by
    have hrest := congrArg List.length (congrArg Tokenizer.cursor hskip)
    rw [Tokenizer.skip, List.length_drop] at hrest
    rw [hcursor] at hrest hn
    omega
  obtain ⟨blanks, hblanks⟩ := h.atToken
  refine ⟨before ++ blanks ++ consumed, consumed, ?_, hiff, fun hfalse => ?_⟩
  · rw [hskip, ← hlen]
    exact hblanks.skip (hcursor.trans hsplit)
  · have hpos : consumed ≠ [] := fun heq => by
      rw [hnil heq] at hfalse
      cases hfalse
    have hpos' := List.length_pos_iff.mpr hpos
    have hle := (List.dropWhile_suffix (l := t.cursor) isBlank).length_le
    omega

/-- As long as no literal holds a newline, none is missed. -/
theorem ReadsOn.inStep (h : ReadsOn text t) (hout : newlinesOutside false text = true) :
    (∃ before, InStep text before 0 t) ∧ newlinesOutside false t.cursor = true := by
  induction h with
  | init => exact ⟨⟨[], inStep_tokenizerInit text⟩, hout⟩
  | @next t out _ _ ih =>
    obtain ⟨⟨before, hstep⟩, hright⟩ := ih
    obtain ⟨before', consumed, hstep', hiff, -⟩ := hstep.getNextToken out
    obtain ⟨hline, hrest⟩ := hiff.mp hright
    rw [List.count_eq_zero.mpr hline] at hstep'
    exact ⟨⟨before', hstep'⟩, hrest⟩

/-- A literal with a newline is reached, and the token behind it points at another line. -/
theorem ReadsOn.newlinesOutside {n : ℕ} (h : ReadsOn text t) (hright : PositionsRight text)
    (hstep : InStep text before 0 t) (hn : t.cursor.length ≤ n) :
    MiniDB.newlinesOutside false t.cursor = true := by
  induction n generalizing t before with
  | zero =>
    rw [List.length_eq_zero_iff.mp (Nat.le_zero.mp hn)]
    rfl
  | succ n ih =>
    by_contra hfalse
    rw [Bool.not_eq_true] at hfalse
    obtain ⟨before', consumed, hstep', hiff, hlt⟩ := hstep.getNextToken Token.cleared
    have hnext : ReadsOn text (getNextToken t Token.cleared).2 := by
      refine h.next _ fun heof => ?_
      have htrue := (getNextToken_lexed t Token.cleared).newlinesOutside_of_eof heof
      rw [newlinesOutside_blanks, hfalse] at htrue
      cases htrue
    have hzero : consumed.count 10 = 0 := by
      have hmissed := (hstep'.pointsRight_iff Token.cleared).mp (hright _ hnext Token.cleared)
      omega
    rw [hzero] at hstep'
    have hrest := ih hnext hstep' (by have := hlt hfalse; omega)
    rw [hiff.mpr ⟨List.count_eq_zero.mp hzero, hrest⟩] at hfalse
    cases hfalse

/-- **Every token points at its place exactly when no string literal that is read holds a newline
byte.** -/
theorem positionsRight_iff (text : List UInt8) :
    PositionsRight text ↔ newlinesOutside false text = true := by
  constructor
  · intro hright
    exact ReadsOn.init.newlinesOutside hright (inStep_tokenizerInit text) le_rfl
  · intro hout t ht out
    obtain ⟨⟨before, hstep⟩, -⟩ := ht.inStep hout
    exact (hstep.pointsRight_iff out).mpr rfl

/-- The token behind a literal of two lines is on the second one. -/
theorem not_positionsRight_literal : ¬ PositionsRight [39, 10, 39, 97] := fun h => by
  have hright := h _ (.next Token.cleared .init (by decide)) Token.cleared
  exact absurd hright.1 (by decide)

end MiniDB
