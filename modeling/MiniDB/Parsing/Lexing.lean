import MiniDB.Model.Lexer
import Mathlib.Data.List.TakeWhile

/-!
# What the lexer reads

A call of `get_next_token` passes over blanks and reads one token.  Every kind of token is cut from
the input in its own way, and a byte that none of them can start with is where the lexer stays.

* `Lexed`: what a call reads, kind by kind; `getNextToken_lexed`: **every call reads so**.
* `readable`: every byte outside of the string literals can stand there.
* `Lexed.readable`, `Lexed.unreadable`: a call on a readable text, and on one that is not.
-/

namespace MiniDB

/-! ## Blanks -/

def isBlank (b : UInt8) : Bool := b == 10 || b == 32 || b == 9 || b == 13

theorem skipBlanks_cursor (bs : List UInt8) (offset line column : ℕ) :
    (skipBlanks bs offset line column).cursor = bs.dropWhile isBlank := by
  induction bs generalizing offset line column with
  | nil => rfl
  | cons b bs ih =>
    unfold skipBlanks
    by_cases h₁ : b = 10
    · rw [if_pos h₁, ih, List.dropWhile_cons_of_pos (by simp [isBlank, h₁])]
    · rw [if_neg h₁]
      by_cases h₂ : b = 32 ∨ b = 9 ∨ b = 13
      · rw [if_pos h₂, ih, List.dropWhile_cons_of_pos]
        simpa [isBlank, h₁, or_assoc] using h₂
      · rw [if_neg h₂, List.dropWhile_cons_of_neg]
        simpa [isBlank, h₁, or_assoc] using h₂

/-! ## Bytes -/

theorem isWordByte_iff {b : UInt8} : isWordByte b = true ↔
    (48 ≤ b ∧ b ≤ 57) ∨ (65 ≤ b ∧ b ≤ 90) ∨ (97 ≤ b ∧ b ≤ 122) ∨ b = 95 := by
  simp [isWordByte, isAlnum, isDigit, or_assoc]

theorem symbolType_eq_some {b : UInt8} {type : TokenType} (h : symbolType b = some type) :
    b ∈ [(44 : UInt8), 59, 40, 41, 61, 42] ∧
      type ∈ [TokenType.tokenComma, .tokenSemicolon, .tokenLparen, .tokenRparen, .tokenEqual,
        .tokenStar] := by
  unfold symbolType at h
  split_ifs at h with h₁ h₂ h₃ h₄ h₅ h₆ <;> cases h <;> simp [*]

theorem symbolType_wordByte {b : UInt8} (h : isWordByte b = true) : symbolType b = none := by
  cases hs : symbolType b with
  | none => rfl
  | some type =>
    have hmem := (symbolType_eq_some hs).1
    have hnone : ∀ c ∈ [(44 : UInt8), 59, 40, 41, 61, 42], isWordByte c = false := by decide
    rw [hnone b hmem] at h
    cases h

theorem isBlank_wordByte {b : UInt8} (h : isWordByte b = true) : isBlank b = false := by
  unfold isBlank
  by_contra hb
  have hb' : b = 10 ∨ b = 32 ∨ b = 9 ∨ b = 13 := by
    rw [Bool.not_eq_false] at hb
    simpa [or_assoc] using hb
  revert h
  rcases hb' with rfl | rfl | rfl | rfl <;> decide

/-! ## Words -/

/-- The types that a word can have. -/
theorem wordType_cases (text : List UInt8) :
    (∃ kw ∈ keywords, isKeyword text kw.1 = true ∧ wordType text = kw.2) ∨
      ((∀ kw ∈ keywords, isKeyword text kw.1 = false) ∧
        wordType text = if isDigits text then .tokenInteger else .tokenIdentifier) := by
  unfold wordType
  cases hfind : keywords.find? fun kw => isKeyword text kw.1 with
  | some kw =>
    exact Or.inl ⟨kw, List.mem_of_find?_eq_some hfind, by simpa using List.find?_some hfind, rfl⟩
  | none =>
    refine Or.inr ⟨?_, rfl⟩
    intro kw hkw
    exact eq_false_of_ne_true (List.find?_eq_none.mp hfind kw hkw)

/-- The types of keywords. -/
theorem keywords_types : ∀ kw ∈ keywords, kw.2 ≠ .tokenEof ∧ kw.2 ≠ .tokenString ∧
    kw.2 ≠ .tokenInvalid ∧ kw.2 ≠ .tokenIdentifier ∧ kw.2 ≠ .tokenInteger := by decide

theorem wordType_ne (text : List UInt8) :
    wordType text ≠ .tokenEof ∧ wordType text ≠ .tokenString ∧ wordType text ≠ .tokenInvalid := by
  rcases wordType_cases text with ⟨kw, hkw, -, heq⟩ | ⟨-, heq⟩
  · rw [heq]
    obtain ⟨h₁, h₂, h₃, -⟩ := keywords_types kw hkw
    exact ⟨h₁, h₂, h₃⟩
  · rw [heq]
    split <;> decide

/-! ## Tokens -/

/-- What a call reads: the token `token` at the front of `input`, and the input behind it. -/
inductive Lexed : (input : List UInt8) → (token : Token) → (rest : List UInt8) → Prop
  | eof {input : List UInt8} {token : Token} : (∀ b ∈ input.head?, b = 0) →
      token.type = .tokenEof → token.text = [] → Lexed input token input
  | symbol {b : UInt8} {rest : List UInt8} {token : Token} : b ≠ 0 →
      symbolType b = some token.type → token.text = [b] → Lexed (b :: rest) token rest
  | string {text rest : List UInt8} {token : Token} : (∀ b ∈ text, b ≠ 39 ∧ b ≠ 0) →
      token.type = .tokenString → token.text = text → Lexed (39 :: (text ++ 39 :: rest)) token rest
  | invalid {text rest : List UInt8} {token : Token} : (∀ b ∈ text, b ≠ 39 ∧ b ≠ 0) →
      (∀ b ∈ rest.head?, b = 0) → token.type = .tokenInvalid → token.text = text →
      Lexed (39 :: (text ++ rest)) token rest
  | word {text rest : List UInt8} {token : Token} : text ≠ [] → (∀ b ∈ text, isWordByte b = true) →
      (∀ b ∈ rest.head?, isWordByte b = false) → token.type = wordType text → token.text = text →
      (token.type = .tokenInteger → token.intValue = strtol text) → Lexed (text ++ rest) token rest
  /-- a byte that starts no token: the lexer answers an empty number and stays where it is -/
  | stuck {b : UInt8} {rest : List UInt8} {token : Token} : b ≠ 0 → b ≠ 39 →
      isBlank b = false → symbolType b = none → isWordByte b = false →
      token.type = .tokenInteger → token.text = [] →
      Lexed (b :: rest) token (b :: rest)

/-- The bytes of the input that a token stands for. -/
def Token.lexeme (token : Token) : List UInt8 :=
  match token.type with
  | .tokenString => 39 :: (token.text ++ [39])
  | .tokenInvalid => 39 :: token.text
  | _ => token.text

theorem head?_dropWhile {p : UInt8 → Bool} (bs : List UInt8) :
    ∀ b ∈ (bs.dropWhile p).head?, p b = false := by
  intro b hb
  have hnot := List.head?_dropWhile_not p bs
  rw [Option.mem_def.mp hb] at hnot
  simpa using hnot

theorem stringToken_lexed {t : Tokenizer} {body : List UInt8} (h : t.cursor = 39 :: body)
    (out : Token) : Lexed t.cursor (stringToken t out).1 (stringToken t out).2.cursor := by
  obtain ⟨p, hp⟩ : ∃ p : UInt8 → Bool, p = fun b => b != 39 && b != 0 := ⟨_, rfl⟩
  obtain ⟨text, htext⟩ : ∃ text, text = body.takeWhile p := ⟨_, rfl⟩
  have hsplit : body = text ++ body.dropWhile p := by
    rw [htext, List.takeWhile_append_dropWhile]
  have hrest : body.drop text.length = body.dropWhile p := by
    conv_lhs => rw [hsplit]
    rw [List.drop_left]
  have hgood : ∀ b ∈ text, b ≠ 39 ∧ b ≠ 0 := by
    intro b hb
    rw [htext] at hb
    have hpb := List.mem_takeWhile_imp hb
    rw [hp] at hpb
    simpa using hpb
  have hhead := head?_dropWhile (p := p) body
  have hclosed : (body.dropWhile p).head? = some 39 → stringToken t out =
      ({ out with type := .tokenString, text := text }, t.skip (text.length + 2)) := by
    intro hquote
    unfold stringToken
    simp only [h, List.drop_one, List.tail_cons, ← hp, ← htext, hrest, hquote]
  have hopen : (body.dropWhile p).head? ≠ some 39 → stringToken t out =
      ({ out with type := .tokenInvalid, text := text }, t.skip (text.length + 1)) := by
    intro hquote
    unfold stringToken
    simp only [h, List.drop_one, List.tail_cons, ← hp, ← htext, hrest]
  have hskip : ∀ k, (t.skip (text.length + (k + 1))).cursor = (body.dropWhile p).drop k := by
    intro k
    show t.cursor.drop _ = _
    rw [h, ← Nat.add_assoc, List.drop_succ_cons, ← List.drop_drop, hrest]
  rw [h]
  conv => arg 1; rw [hsplit]
  cases hcase : body.dropWhile p with
  | nil =>
    have hcursor := hskip 0
    rw [hcase] at hcursor
    rw [hopen (by rw [hcase]; exact Option.some_ne_none _ ∘ Eq.symm)]
    dsimp only
    rw [hcursor]
    exact .invalid hgood (by simp) rfl rfl
  | cons b rest =>
    rw [hcase] at hhead
    have hb : b = 39 ∨ b = 0 := by
      have hb := hhead b rfl
      rw [hp] at hb
      by_contra hne
      push Not at hne
      simp [hne.1, hne.2] at hb
    rcases hb with rfl | rfl
    · have hcursor := hskip 1
      rw [hcase] at hcursor
      rw [hclosed (by rw [hcase, List.head?_cons])]
      dsimp only
      rw [hcursor]
      exact .string hgood rfl rfl
    · have hcursor := hskip 0
      rw [hcase] at hcursor
      rw [hopen (by rw [hcase]; exact fun hquote => absurd (Option.some_inj.mp hquote) (by decide))]
      dsimp only
      rw [hcursor]
      exact .invalid hgood (by simp) rfl rfl

theorem wordToken_lexed {t : Tokenizer} {b : UInt8} {rest : List UInt8} (h : t.cursor = b :: rest)
    (h0 : b ≠ 0) (hquote : b ≠ 39) (hblank : isBlank b = false) (hsymbol : symbolType b = none)
    (out : Token) :
    Lexed t.cursor (wordToken t out).1 (wordToken t out).2.cursor := by
  have hskip : (wordToken t out).2.cursor = t.cursor.dropWhile isWordByte := by
    show t.cursor.drop (t.cursor.takeWhile isWordByte).length = _
    conv_lhs => rw [← List.takeWhile_append_dropWhile (p := isWordByte) (l := t.cursor)]
    rw [List.takeWhile_append_dropWhile]
    conv_lhs => arg 2; rw [← List.takeWhile_append_dropWhile (p := isWordByte) (l := t.cursor)]
    rw [List.drop_left]
  rw [hskip]
  by_cases hword : isWordByte b = true
  · have hlexed : Lexed (t.cursor.takeWhile isWordByte ++ t.cursor.dropWhile isWordByte)
        (wordToken t out).1 (t.cursor.dropWhile isWordByte) := by
      refine .word ?_ (fun c hc => List.mem_takeWhile_imp hc) (head?_dropWhile _) rfl rfl ?_
      · rw [h, List.takeWhile_cons_of_pos hword]
        exact List.cons_ne_nil _ _
      · intro htype
        exact if_pos htype
    rwa [List.takeWhile_append_dropWhile] at hlexed
  · have htext : t.cursor.takeWhile isWordByte = [] := by
      rw [h, List.takeWhile_cons_of_neg hword]
    rw [h, List.dropWhile_cons_of_neg hword]
    refine .stuck h0 hquote hblank hsymbol (eq_false_of_ne_true hword) ?_ ?_
    · show wordType (t.cursor.takeWhile isWordByte) = _
      rw [htext]
      decide
    · exact htext

/-- **Every call reads a token.** -/
theorem getNextToken_lexed (t : Tokenizer) (out : Token) :
    Lexed (t.cursor.dropWhile isBlank) (getNextToken t out).1 (getNextToken t out).2.cursor := by
  obtain ⟨t', ht'⟩ : ∃ t', t' = skipBlanks t.cursor t.offset t.line t.column := ⟨_, rfl⟩
  have hcursor : t'.cursor = t.cursor.dropWhile isBlank := by
    rw [ht', skipBlanks_cursor]
  rw [← hcursor]
  unfold getNextToken
  rw [← ht']
  obtain ⟨out', hout'⟩ : ∃ out', out' =
      { out with byteOffset := t'.offset, line := t'.line, column := t'.column } := ⟨_, rfl⟩
  simp only [← hout']
  cases hcase : t'.cursor with
  | nil =>
    simp only [hcase]
    exact .eof (fun b hb => absurd hb (by simp)) rfl rfl
  | cons b rest =>
    have hblank : isBlank b = false := by
      refine head?_dropWhile (p := isBlank) t.cursor b ?_
      rw [← hcursor, hcase]
      rfl
    simp only
    by_cases h0 : b = 0
    · rw [if_pos h0, hcase]
      exact .eof (by simp [h0]) rfl rfl
    rw [if_neg h0]
    cases hsymbol : symbolType b with
    | some type =>
      have hrest : (t'.skip 1).cursor = rest := by
        show t'.cursor.drop 1 = rest
        rw [hcase]
        rfl
      simp only [hrest]
      exact .symbol h0 hsymbol rfl
    | none =>
      simp only
      rw [← hcase]
      by_cases hquote : b = 39
      · rw [if_pos hquote]
        exact stringToken_lexed (hquote ▸ hcase) out'
      · rw [if_neg hquote]
        exact wordToken_lexed hcase h0 hquote hblank hsymbol out'

/-! ## What the tokens promise -/

variable {input rest : List UInt8} {token : Token}

/-- A name: a word that is no keyword and no number. -/
theorem Lexed.identifier (h : Lexed input token rest) (htype : token.type = .tokenIdentifier) :
    token.text ≠ [] ∧ ∀ b ∈ token.text, isWordByte b = true := by
  cases h with
  | word hne hword _ _ htext => exact ⟨htext ▸ hne, htext ▸ hword⟩
  | symbol _ hsymbol =>
    rw [htype] at hsymbol
    exact absurd (symbolType_eq_some hsymbol).2 (by decide)
  | eof _ htype' | string _ htype' | invalid _ _ htype' | stuck _ _ _ _ _ htype' =>
    rw [htype] at htype'
    cases htype'

/-- A string literal. -/
theorem Lexed.stringLiteral (h : Lexed input token rest) (htype : token.type = .tokenString) :
    ∀ b ∈ token.text, b ≠ 39 ∧ b ≠ 0 := by
  cases h with
  | string hgood _ htext => exact htext ▸ hgood
  | word _ _ _ htype' => exact absurd (htype'.symm.trans htype) (wordType_ne _).2.1
  | symbol _ hsymbol =>
    rw [htype] at hsymbol
    exact absurd (symbolType_eq_some hsymbol).2 (by decide)
  | eof _ htype' | invalid _ _ htype' | stuck _ _ _ _ _ htype' =>
    rw [htype] at htype'
    cases htype'

/-! ## Readable texts -/

/-- Every byte up to the end stands in a string literal, or it is a blank, a quote, or a byte that
some token starts with. -/
def readable : (inString : Bool) → List UInt8 → Bool
  | _, [] => true
  | inString, b :: bs =>
    if b = 0 then true
    else if b = 39 then readable (! inString) bs
    else (inString || isBlank b || isWordByte b || (symbolType b).isSome) && readable inString bs

theorem readable_of_head {inString : Bool} {bs : List UInt8} (h : ∀ b ∈ bs.head?, b = 0) :
    readable inString bs = true := by
  cases bs with
  | nil => rfl
  | cons b bs => exact if_pos (h b rfl)

/-- Bytes that can stand outside of string literals. -/
theorem readable_append {bs : List UInt8} (rest : List UInt8) (h : ∀ b ∈ bs, b ≠ 0 ∧ b ≠ 39 ∧
    (isBlank b || isWordByte b || (symbolType b).isSome) = true) :
    readable false (bs ++ rest) = readable false rest := by
  induction bs with
  | nil => rfl
  | cons b bs ih =>
    obtain ⟨h0, hquote, hstart⟩ := h b List.mem_cons_self
    rw [List.cons_append, readable, if_neg h0, if_neg hquote, Bool.false_or, hstart, Bool.true_and]
    exact ih fun c hc => h c (List.mem_cons_of_mem _ hc)

/-- Bytes that can stand in string literals. -/
theorem readable_string {bs : List UInt8} (rest : List UInt8) (h : ∀ b ∈ bs, b ≠ 39 ∧ b ≠ 0) :
    readable true (bs ++ rest) = readable true rest := by
  induction bs with
  | nil => rfl
  | cons b bs ih =>
    obtain ⟨hquote, h0⟩ := h b List.mem_cons_self
    rw [List.cons_append, readable, if_neg h0, if_neg hquote, Bool.true_or, Bool.true_or,
      Bool.true_or, Bool.true_and]
    exact ih fun c hc => h c (List.mem_cons_of_mem _ hc)

theorem wordByte_ne {b : UInt8} (h : isWordByte b = true) : b ≠ 0 ∧ b ≠ 39 := by
  constructor
  · rintro rfl
    exact absurd h (by decide)
  · rintro rfl
    exact absurd h (by decide)

theorem blank_ne {b : UInt8} (h : isBlank b = true) : b ≠ 0 ∧ b ≠ 39 := by
  constructor
  · rintro rfl
    exact absurd h (by decide)
  · rintro rfl
    exact absurd h (by decide)

/-- The bytes of a word can stand outside of string literals. -/
theorem word_outside {bs : List UInt8} (h : ∀ b ∈ bs, isWordByte b = true) : ∀ b ∈ bs, b ≠ 0 ∧
    b ≠ 39 ∧ (isBlank b || isWordByte b || (symbolType b).isSome) = true := by
  intro b hb
  obtain ⟨h0, hquote⟩ := wordByte_ne (h b hb)
  exact ⟨h0, hquote, by simp [h b hb]⟩

/-- So can the blanks in front of a token. -/
theorem blanks_outside (bs : List UInt8) : ∀ b ∈ bs.takeWhile isBlank, b ≠ 0 ∧
    b ≠ 39 ∧ (isBlank b || isWordByte b || (symbolType b).isSome) = true := by
  intro b hb
  have hblank := List.mem_takeWhile_imp hb
  obtain ⟨h0, hquote⟩ := blank_ne hblank
  exact ⟨h0, hquote, by simp [hblank]⟩

theorem readable_blanks (bs : List UInt8) :
    readable false bs = readable false (bs.dropWhile isBlank) := by
  conv_lhs => rw [← List.takeWhile_append_dropWhile (p := isBlank) (l := bs)]
  exact readable_append _ (blanks_outside bs)

/-- What a call does on a readable text: it reads the end, or it moves over the bytes of a token. -/
theorem Lexed.readable (h : Lexed input token rest) (hread : readable false input = true) :
    (token.type = .tokenEof ∧ rest = input) ∨ (input = token.lexeme ++ rest ∧ token.lexeme ≠ [] ∧
      (∀ b ∈ token.lexeme, b ≠ 0) ∧ MiniDB.readable false rest = true) := by
  cases h with
  | eof _ htype => exact Or.inl ⟨htype, rfl⟩
  | symbol h0 hsymbol htext =>
    have hlexeme : token.lexeme = token.text := by
      have hmem := (symbolType_eq_some hsymbol).2
      unfold Token.lexeme
      split
      · next htype => exact absurd (htype ▸ hmem) (by decide)
      · next htype => exact absurd (htype ▸ hmem) (by decide)
      · rfl
    rw [hlexeme, htext]
    refine Or.inr ⟨rfl, List.cons_ne_nil _ _, ?_, ?_⟩
    · intro b hb
      rw [List.mem_singleton.mp hb]
      exact h0
    · have hmem := (symbolType_eq_some hsymbol).1
      rw [MiniDB.readable, if_neg h0, if_neg] at hread
      · exact (Bool.and_eq_true _ _ ▸ hread).2
      · rintro rfl
        exact absurd hmem (by decide)
  | string hgood htype htext =>
    have hlexeme : token.lexeme = 39 :: (token.text ++ [39]) := by
      unfold Token.lexeme
      rw [htype]
    rw [hlexeme, htext]
    refine Or.inr ⟨by simp, List.cons_ne_nil _ _, ?_, ?_⟩
    · intro b hb
      rcases List.mem_cons.mp hb with rfl | hb
      · decide
      · rcases List.mem_append.mp hb with hb | hb
        · exact (hgood b hb).2
        · rw [List.mem_singleton.mp hb]
          decide
    · rw [MiniDB.readable, if_neg (by decide), if_pos rfl, Bool.not_false,
        readable_string _ hgood, MiniDB.readable, if_neg (by decide), if_pos rfl] at hread
      exact hread
  | invalid hgood hend htype htext =>
    have hlexeme : token.lexeme = 39 :: token.text := by
      unfold Token.lexeme
      rw [htype]
    rw [hlexeme, htext]
    refine Or.inr ⟨rfl, List.cons_ne_nil _ _, ?_, readable_of_head hend⟩
    intro b hb
    rcases List.mem_cons.mp hb with rfl | hb
    · decide
    · exact (hgood b hb).2
  | word hne hword _ htype htext =>
    have hlexeme : token.lexeme = token.text := by
      obtain ⟨-, hstring, hinvalid⟩ := wordType_ne token.text
      rw [htext, ← htype] at hstring hinvalid
      unfold Token.lexeme
      split
      · next htype => exact absurd htype hstring
      · next htype => exact absurd htype hinvalid
      · rfl
    rw [hlexeme, htext]
    refine Or.inr ⟨rfl, hne, fun b hb => (wordByte_ne (hword b hb)).1, ?_⟩
    rwa [readable_append _ (word_outside hword)] at hread
  | stuck h0 hquote hblank hsymbol hword =>
    rw [MiniDB.readable, if_neg h0, if_neg hquote, hblank, hsymbol, hword] at hread
    cases hread

/-- What a call does on a text that is not readable: it does not read the end, and leaves such a
text behind. -/
theorem Lexed.unreadable (h : Lexed input token rest)
    (hread : MiniDB.readable false input = false) :
    token.type ≠ .tokenEof ∧ MiniDB.readable false rest = false := by
  cases h with
  | eof hend =>
    rw [readable_of_head hend] at hread
    cases hread
  | symbol h0 hsymbol htext =>
    obtain ⟨hmem, hmem'⟩ := symbolType_eq_some hsymbol
    constructor
    · intro htype
      exact absurd (htype ▸ hmem') (by decide)
    · rw [MiniDB.readable, if_neg h0, if_neg, hsymbol] at hread
      · simpa using hread
      · rintro rfl
        exact absurd hmem (by decide)
  | string hgood htype htext =>
    rw [htype]
    refine ⟨by decide, ?_⟩
    rw [MiniDB.readable, if_neg (by decide), if_pos rfl, Bool.not_false, readable_string _ hgood,
      MiniDB.readable, if_neg (by decide), if_pos rfl] at hread
    exact hread
  | invalid hgood hend =>
    rw [MiniDB.readable, if_neg (by decide), if_pos rfl, Bool.not_false, readable_string _ hgood,
      readable_of_head hend] at hread
    cases hread
  | word hne hword _ htype =>
    rw [htype]
    refine ⟨(wordType_ne _).1, ?_⟩
    rwa [readable_append _ (word_outside hword)] at hread
  | stuck _ _ _ _ _ htype =>
    rw [htype]
    exact ⟨by decide, hread⟩

end MiniDB
