import MiniDB.Parsing.Lexing

/-!
# Printed text

A statement is printed as a list of lexemes.  How they are spelled and what stands between them is
free: keywords in any letter case, any blanks, but at least one between two words.

* `Lexeme`, `Lexeme.Spelled`: a lexeme, and the ways to write it.
* `Renders`: the texts that a list of lexemes can be written as.
* `getNextToken_renders`: **a call reads the first lexeme and leaves a text for the others**.
-/

namespace MiniDB

/-- What a statement is printed as. -/
inductive Lexeme where
  | keyword (type : TokenType)
  | symbol (type : TokenType)
  | name (text : List UInt8)
  | number (value : ℕ)
  | string (text : List UInt8)

/-- A name: neither a keyword nor a number. -/
structure IsName (name : List UInt8) : Prop where
  ne_nil : name ≠ []
  word : ∀ b ∈ name, isWordByte b = true
  keyword : ∀ kw ∈ keywords, isKeyword name kw.1 = false
  digits : isDigits name = false

/-- The number that a run of digits stands for. -/
def digitsValue (digits : List UInt8) : ℕ :=
  digits.foldl (fun n b => 10 * n + (b.toNat - 48)) 0

namespace Lexeme

/-- The lexemes that need a blank between them. -/
def isWord : Lexeme → Bool
  | keyword _ | name _ | number _ => true
  | symbol _ | string _ => false

/-- The ways to write a lexeme. -/
def Spelled : Lexeme → List UInt8 → Prop
  | keyword type, bs => ∃ kw ∈ keywords, kw.2 = type ∧ isKeyword bs kw.1 = true
  | symbol type, bs => ∃ b, symbolType b = some type ∧ bs = [b]
  | name text, bs => bs = text
  | number value, bs => bs ≠ [] ∧ isDigits bs = true ∧ digitsValue bs = value
  | string text, bs => bs = 39 :: (text ++ [39])

/-- A lexeme that can be read back. -/
def Valid : Lexeme → Prop
  | keyword _ | symbol _ => True
  | name text => IsName text
  | number value => value < 2 ^ 63
  | string text => ∀ b ∈ text, b ≠ 39 ∧ b ≠ 0

/-- The type of its token. -/
def type : Lexeme → TokenType
  | keyword type | symbol type => type
  | name _ => .tokenIdentifier
  | number _ => .tokenInteger
  | string _ => .tokenString

/-- The token that stands for a lexeme. -/
structure Matches (l : Lexeme) (token : Token) : Prop where
  type : token.type = l.type
  name : ∀ text, l = .name text → token.text = text
  number : ∀ value, l = .number value → token.intValue = Int64.ofNat value
  string : ∀ text, l = .string text → token.text = text

end Lexeme

/-- The texts that a list of lexemes can be written as; `afterWord` says that a word stands in
front of the text. -/
inductive Renders : (afterWord : Bool) → List Lexeme → List UInt8 → Prop
  | nil {afterWord : Bool} {blanks : List UInt8} : (∀ b ∈ blanks, isBlank b = true) →
      Renders afterWord [] blanks
  | cons {afterWord : Bool} {l : Lexeme} {ls : List Lexeme} {blanks bs rest : List UInt8} :
      (∀ b ∈ blanks, isBlank b = true) → (afterWord = true → l.isWord = true → blanks ≠ []) →
      l.Spelled bs → Renders l.isWord ls rest → Renders afterWord (l :: ls) (blanks ++ (bs ++ rest))

variable {l : Lexeme} {ls : List Lexeme} {bs rest : List UInt8}

/-! ## Keywords -/

theorem wordByte_of_tolower {b : UInt8} (h : 97 ≤ tolower b ∧ tolower b ≤ 122) :
    isWordByte b = true := by
  rw [isWordByte_iff]
  unfold tolower at h
  split at h
  · next hupper => exact Or.inr (Or.inl hupper)
  · exact Or.inr (Or.inr (Or.inl h))

theorem tolower_digit {b : UInt8} (h : isDigit b = true) : ¬ 97 ≤ tolower b := by
  have hb : 48 ≤ b ∧ b ≤ 57 := by simpa [isDigit] using h
  have hupper : ¬ (65 ≤ b ∧ b ≤ 90) := by
    rintro ⟨hlo, -⟩
    exact absurd (UInt8.le_trans hlo hb.2) (by decide)
  unfold tolower
  rw [if_neg hupper]
  intro hlo
  exact absurd (UInt8.le_trans hlo hb.2) (by decide)

theorem keywords_letters : ∀ kw ∈ keywords, kw.1 ≠ [] ∧
    ∀ c ∈ kw.1.map tolower, 97 ≤ c ∧ c ≤ 122 := by decide

/-- No two keywords are spelled alike. -/
theorem keywords_injective : ∀ kw ∈ keywords, ∀ kw' ∈ keywords,
    kw.1.map tolower = kw'.1.map tolower → kw = kw' := by decide

theorem isKeyword_iff {kw : List UInt8} :
    isKeyword bs kw = true ↔ bs.map tolower = kw.map tolower := by
  unfold isKeyword
  rw [Bool.and_eq_true, beq_iff_eq, beq_iff_eq]
  constructor
  · exact And.right
  · intro h
    refine ⟨?_, h⟩
    simpa using congrArg List.length h

theorem keyword_spelled {kw : List UInt8 × TokenType} (hkw : kw ∈ keywords)
    (h : isKeyword bs kw.1 = true) :
    bs ≠ [] ∧ (∀ b ∈ bs, isWordByte b = true) ∧ wordType bs = kw.2 := by
  have heq := isKeyword_iff.mp h
  obtain ⟨hne, hletters⟩ := keywords_letters kw hkw
  refine ⟨?_, ?_, ?_⟩
  · rintro rfl
    exact hne (List.map_eq_nil_iff.mp heq.symm)
  · intro b hb
    refine wordByte_of_tolower (hletters _ ?_)
    rw [← heq]
    exact List.mem_map_of_mem hb
  · rcases wordType_cases bs with ⟨kw', hkw', h', htype⟩ | ⟨hno, -⟩
    · rw [htype, keywords_injective kw hkw kw' hkw' (heq.symm.trans (isKeyword_iff.mp h'))]
    · rw [hno kw hkw] at h
      cases h

theorem isDigits_iff : isDigits bs = true ↔ ∀ b ∈ bs, isDigit b = true := List.all_eq_true

theorem number_spelled (hne : bs ≠ []) (h : isDigits bs = true) :
    (∀ b ∈ bs, isWordByte b = true) ∧ wordType bs = .tokenInteger := by
  have hdigits := isDigits_iff.mp h
  constructor
  · intro b hb
    rw [isWordByte, isAlnum, hdigits b hb]
    rfl
  · rcases wordType_cases bs with ⟨kw, hkw, hk, -⟩ | ⟨-, htype⟩
    · -- a keyword has no digits
      exfalso
      obtain ⟨b, hb⟩ := List.exists_mem_of_ne_nil bs hne
      have hmem : tolower b ∈ kw.1.map tolower := by
        rw [← isKeyword_iff.mp hk]
        exact List.mem_map_of_mem hb
      exact tolower_digit (hdigits b hb) ((keywords_letters kw hkw).2 _ hmem).1
    · rw [htype, if_pos h]

theorem IsName.wordType (h : IsName bs) : MiniDB.wordType bs = .tokenIdentifier := by
  rcases wordType_cases bs with ⟨kw, hkw, hk, -⟩ | ⟨-, htype⟩
  · rw [h.keyword kw hkw] at hk
    cases hk
  · rw [htype, h.digits]
    rfl

/-! ## One lexeme -/

/-- A lexeme has bytes, and does not start with a blank. -/
theorem Lexeme.Spelled.head (h : l.Spelled bs) (hv : l.Valid) :
    ∃ b bs', bs = b :: bs' ∧ isBlank b = false ∧ (l.isWord = false → isWordByte b = false) := by
  have hword : bs ≠ [] → (∀ b ∈ bs, isWordByte b = true) → l.isWord = true →
      ∃ b bs', bs = b :: bs' ∧ isBlank b = false ∧ (l.isWord = false → isWordByte b = false) := by
    intro hne hall hl
    obtain ⟨b, bs', rfl⟩ := List.exists_cons_of_ne_nil hne
    refine ⟨b, bs', rfl, isBlank_wordByte (hall b List.mem_cons_self), ?_⟩
    rw [hl]
    rintro ⟨⟩
  cases l with
  | keyword type =>
    obtain ⟨kw, hkw, -, hk⟩ := h
    obtain ⟨hne, hall, -⟩ := keyword_spelled hkw hk
    exact hword hne hall rfl
  | name text =>
    obtain rfl : bs = text := h
    exact hword hv.ne_nil hv.word rfl
  | number value =>
    obtain ⟨hne, hdigits, -⟩ := h
    exact hword hne (number_spelled hne hdigits).1 rfl
  | string text =>
    obtain rfl : bs = 39 :: (text ++ [39]) := h
    exact ⟨39, _, rfl, by decide, fun _ => by decide⟩
  | symbol type =>
    obtain ⟨b, hsymbol, rfl⟩ := h
    have hbytes : ∀ c ∈ [(44 : UInt8), 59, 40, 41, 61, 42], isBlank c = false ∧
        isWordByte c = false := by decide
    obtain ⟨hblank, hnot⟩ := hbytes b (symbolType_eq_some hsymbol).1
    exact ⟨b, [], rfl, hblank, fun _ => hnot⟩

/-- Behind a word there is no further byte of it. -/
theorem Renders.head (h : Renders true ls rest) (hv : ∀ l ∈ ls, l.Valid) :
    ∀ b ∈ rest.head?, isWordByte b = false := by
  have hblank : ∀ {b : UInt8}, isBlank b = true → isWordByte b = false := by
    intro b hb
    by_contra hword
    rw [Bool.not_eq_false] at hword
    rw [isBlank_wordByte hword] at hb
    cases hb
  cases h with
  | nil hblanks =>
    intro b hb
    exact hblank (hblanks b (List.mem_of_mem_head? hb))
  | @cons _ l ls blanks bs rest hblanks hsep hspell hrest =>
    intro b hb
    cases blanks with
    | cons c cs =>
      obtain rfl : c = b := Option.some_inj.mp hb
      exact hblank (hblanks c List.mem_cons_self)
    | nil =>
      obtain ⟨c, cs, rfl, -, hnot⟩ := hspell.head (hv l List.mem_cons_self)
      obtain rfl : c = b := Option.some_inj.mp hb
      refine hnot (eq_false_of_ne_true ?_)
      intro hl
      exact hsep rfl hl rfl

theorem append_of_span {p : UInt8 → Bool} {a a' b b' : List UInt8} (h : a ++ b = a' ++ b')
    (ha : ∀ c ∈ a, p c = true) (ha' : ∀ c ∈ a', p c = true) (hb : ∀ c ∈ b.head?, p c = false)
    (hb' : ∀ c ∈ b'.head?, p c = false) : a = a' ∧ b = b' := by
  have hspan : ∀ {x y : List UInt8}, (∀ c ∈ x, p c = true) → (∀ c ∈ y.head?, p c = false) →
      (x ++ y).takeWhile p = x := by
    intro x y hx hy
    rw [List.takeWhile_append_of_pos hx]
    cases y with
    | nil => simp
    | cons c cs =>
      rw [List.takeWhile_cons_of_neg (by rw [hy c rfl]; decide), List.append_nil]
  have heq : a = a' := by
    rw [← hspan ha hb, h, hspan ha' hb']
  subst heq
  exact ⟨rfl, List.append_cancel_left h⟩

/-- A word in front of other bytes is read as that word. -/
theorem Lexed.word_eq {token : Token} {rest' : List UInt8} (h : Lexed (bs ++ rest) token rest')
    (hne : bs ≠ []) (hword : ∀ b ∈ bs, isWordByte b = true)
    (hrest : ∀ b ∈ rest.head?, isWordByte b = false) :
    token.type = wordType bs ∧ token.text = bs ∧
      (token.type = .tokenInteger → token.intValue = strtol bs) ∧ rest' = rest := by
  obtain ⟨b, bs', hbs⟩ := List.exists_cons_of_ne_nil hne
  have hb : isWordByte b = true := hword b (hbs ▸ List.mem_cons_self)
  obtain ⟨input, hinput⟩ : ∃ input, input = bs ++ rest := ⟨_, rfl⟩
  have hhead : input.head? = some b := by
    rw [hinput, hbs]
    rfl
  rw [← hinput] at h
  cases h with
  | eof hend =>
    exact absurd (hend b hhead) (wordByte_ne hb).1
  | symbol _ hsymbol =>
    obtain rfl := Option.some_inj.mp hhead
    rw [symbolType_wordByte hb] at hsymbol
    cases hsymbol
  | string => exact absurd (Option.some_inj.mp hhead).symm (wordByte_ne hb).2
  | invalid => exact absurd (Option.some_inj.mp hhead).symm (wordByte_ne hb).2
  | word _ hword' hrest' htype htext hvalue =>
    obtain ⟨rfl, rfl⟩ := append_of_span hinput hword' hword hrest' hrest
    exact ⟨htype, htext, hvalue, rfl⟩
  | stuck _ _ _ _ hnot =>
    obtain rfl := Option.some_inj.mp hhead
    rw [hb] at hnot
    cases hnot

/-- A string literal in front of other bytes is read as that literal. -/
theorem Lexed.string_eq {token : Token} {text rest' : List UInt8}
    (h : Lexed (39 :: (text ++ 39 :: rest)) token rest') (htext : ∀ b ∈ text, b ≠ 39 ∧ b ≠ 0) :
    token.type = .tokenString ∧ token.text = text ∧ rest' = rest := by
  have hspan : ∀ {x : List UInt8}, (∀ b ∈ x, b ≠ 39 ∧ b ≠ 0) →
      ∀ c ∈ x, (fun b : UInt8 => b != 39 && b != 0) c = true := by
    intro x hx c hc
    simp [hx c hc]
  obtain ⟨input, hinput⟩ : ∃ input, input = 39 :: (text ++ 39 :: rest) := ⟨_, rfl⟩
  rw [← hinput] at h
  cases h with
  | eof hend =>
    rw [hinput] at hend
    exact absurd (hend 39 rfl) (by decide)
  | symbol _ hsymbol =>
    obtain rfl := (List.cons.inj hinput).1
    cases hsymbol
  | string hgood htype htext' =>
    obtain ⟨rfl, hrest⟩ := append_of_span (List.cons.inj hinput).2 (hspan hgood) (hspan htext)
      (by simp) (by simp)
    exact ⟨htype, htext', (List.cons.inj hrest).2⟩
  | invalid hgood hend =>
    obtain ⟨rfl, rfl⟩ := append_of_span (List.cons.inj hinput).2 (hspan hgood) (hspan htext)
      (fun b hb => by simp [hend b hb]) (by simp)
    exact absurd (hend 39 rfl) (by decide)
  | word hne hword =>
    obtain ⟨b, bs', rfl⟩ := List.exists_cons_of_ne_nil hne
    obtain rfl := (List.cons.inj hinput).1
    exact absurd (hword 39 List.mem_cons_self) (by decide)
  | stuck _ hquote =>
    exact absurd (List.cons.inj hinput).1 hquote

/-- A symbol in front of other bytes is read as that symbol. -/
theorem Lexed.symbol_eq {token : Token} {b : UInt8} {type : TokenType} {rest' : List UInt8}
    (h : Lexed (b :: rest) token rest') (hsymbol : symbolType b = some type) :
    token.type = type ∧ rest' = rest := by
  have hbytes : ∀ c ∈ [(44 : UInt8), 59, 40, 41, 61, 42], c ≠ 0 ∧ c ≠ 39 ∧
      isWordByte c = false := by decide
  obtain ⟨h0, hquote, hnot⟩ := hbytes b (symbolType_eq_some hsymbol).1
  obtain ⟨input, hinput⟩ : ∃ input, input = b :: rest := ⟨_, rfl⟩
  rw [← hinput] at h
  cases h with
  | eof hend =>
    rw [hinput] at hend
    exact absurd (hend b rfl) h0
  | symbol _ hsymbol' =>
    obtain ⟨rfl, rfl⟩ := List.cons.inj hinput
    exact ⟨Option.some_inj.mp (hsymbol'.symm.trans hsymbol), rfl⟩
  | string => exact absurd (List.cons.inj hinput).1.symm hquote
  | invalid => exact absurd (List.cons.inj hinput).1.symm hquote
  | word hne hword =>
    obtain ⟨c, cs, rfl⟩ := List.exists_cons_of_ne_nil hne
    obtain rfl := (List.cons.inj hinput).1
    rw [hword _ List.mem_cons_self] at hnot
    cases hnot
  | stuck _ _ _ hnone =>
    obtain rfl := (List.cons.inj hinput).1
    rw [hsymbol] at hnone
    cases hnone

/-- The token of a lexeme in front of the others. -/
theorem Lexed.matches {token : Token} {rest' : List UInt8} (h : Lexed (bs ++ rest) token rest')
    (hspell : l.Spelled bs) (hv : l.Valid)
    (hrest : l.isWord = true → ∀ b ∈ rest.head?, isWordByte b = false) :
    l.Matches token ∧ rest' = rest := by
  cases l with
  | keyword type =>
    obtain ⟨kw, hkw, rfl, hk⟩ := hspell
    obtain ⟨hne, hall, htype⟩ := keyword_spelled hkw hk
    obtain ⟨htoken, -, -, hrest'⟩ := h.word_eq hne hall (hrest rfl)
    exact ⟨⟨htoken.trans htype, fun _ => (by rintro ⟨⟩), fun _ => (by rintro ⟨⟩),
      fun _ => (by rintro ⟨⟩)⟩, hrest'⟩
  | name text =>
    obtain rfl : bs = text := hspell
    obtain ⟨htoken, htext, -, hrest'⟩ := h.word_eq hv.ne_nil hv.word (hrest rfl)
    refine ⟨⟨htoken.trans hv.wordType, ?_, fun _ => (by rintro ⟨⟩), fun _ => (by rintro ⟨⟩)⟩,
      hrest'⟩
    rintro _ ⟨⟩
    exact htext
  | number value =>
    obtain ⟨hne, hdigits, hvalue⟩ := hspell
    obtain ⟨hall, htype⟩ := number_spelled hne hdigits
    obtain ⟨htoken, -, hint, hrest'⟩ := h.word_eq hne hall (hrest rfl)
    refine ⟨⟨htoken.trans htype, fun _ => (by rintro ⟨⟩), ?_, fun _ => (by rintro ⟨⟩)⟩, hrest'⟩
    rintro _ ⟨⟩
    have hlt : value < 2 ^ 63 := hv
    have hstr : strtol bs = Int64.ofNat (min (digitsValue bs) (2 ^ 63 - 1)) := rfl
    rw [hint (htoken.trans htype), hstr, hvalue, Nat.min_eq_left (by omega)]
  | string text =>
    obtain rfl : bs = 39 :: (text ++ [39]) := hspell
    rw [List.cons_append, List.append_assoc, List.singleton_append] at h
    obtain ⟨htoken, htext, hrest'⟩ := h.string_eq hv
    refine ⟨⟨htoken, fun _ => (by rintro ⟨⟩), fun _ => (by rintro ⟨⟩), ?_⟩, hrest'⟩
    rintro _ ⟨⟩
    exact htext
  | symbol type =>
    obtain ⟨b, hsymbol, rfl⟩ := hspell
    obtain ⟨htoken, hrest'⟩ := h.symbol_eq hsymbol
    exact ⟨⟨htoken, fun _ => (by rintro ⟨⟩), fun _ => (by rintro ⟨⟩), fun _ => (by rintro ⟨⟩)⟩,
      hrest'⟩

theorem dropWhile_blanks {blanks : List UInt8} (hblanks : ∀ b ∈ blanks, isBlank b = true)
    (h : ∀ b ∈ rest.head?, isBlank b = false) : (blanks ++ rest).dropWhile isBlank = rest := by
  rw [List.dropWhile_append_of_pos hblanks]
  cases rest with
  | nil => rfl
  | cons b rest => exact List.dropWhile_cons_of_neg (by rw [h b rfl]; decide)

/-- **A call reads the first lexeme**, and leaves a text for the others. -/
theorem getNextToken_renders {t : Tokenizer} {afterWord : Bool}
    (h : Renders afterWord (l :: ls) t.cursor) (hv : ∀ l' ∈ l :: ls, l'.Valid) (out : Token) :
    l.Matches (getNextToken t out).1 ∧ Renders l.isWord ls (getNextToken t out).2.cursor := by
  have hlexed := getNextToken_lexed t out
  generalize t.cursor = input at h hlexed
  cases h with
  | cons hblanks hsep hspell hrest =>
    have hl := hv l List.mem_cons_self
    have hls : ∀ l' ∈ ls, l'.Valid := fun l' hl' => hv l' (List.mem_cons_of_mem _ hl')
    obtain ⟨b, bs', hbs, hblank, -⟩ := hspell.head hl
    rw [dropWhile_blanks hblanks] at hlexed
    · obtain ⟨hmatch, heq⟩ := hlexed.matches hspell hl fun hword => (hword ▸ hrest).head hls
      rw [heq]
      exact ⟨hmatch, hrest⟩
    · rw [hbs]
      rintro _ ⟨⟩
      exact hblank

/-- Behind the last lexeme is the end. -/
theorem getNextToken_renders_nil {t : Tokenizer} {afterWord : Bool}
    (h : Renders afterWord [] t.cursor) (out : Token) :
    (getNextToken t out).1.type = .tokenEof := by
  have hlexed := getNextToken_lexed t out
  cases h with
  | nil hblanks =>
    have hend : t.cursor.dropWhile isBlank = [] := List.dropWhile_eq_nil_iff.mpr hblanks
    rw [hend] at hlexed
    obtain ⟨input, hinput⟩ : ∃ input : List UInt8, input = [] := ⟨_, rfl⟩
    rw [← hinput] at hlexed
    generalize (getNextToken t out).2.cursor = rest at hlexed
    cases hlexed with
    | eof _ htype => exact htype
    | word hne => exact absurd (List.append_eq_nil_iff.mp hinput).1 hne
    | symbol | string | invalid | stuck => cases hinput

/-- A text is at least as long as its list of lexemes. -/
theorem Renders.length_le {afterWord : Bool} (h : Renders afterWord ls bs)
    (hv : ∀ l ∈ ls, l.Valid) : ls.length ≤ bs.length := by
  induction h with
  | nil => exact Nat.zero_le _
  | @cons _ l ls blanks bs rest _ _ hspell _ ih =>
    obtain ⟨b, bs', rfl, -⟩ := hspell.head (hv l List.mem_cons_self)
    have hle := ih fun l' hl' => hv l' (List.mem_cons_of_mem _ hl')
    simp only [List.length_append, List.length_cons]
    omega

end MiniDB
