import MiniDB.Parsing.Printing

/-!
# Integer literals

`get_next_token` answers `TOKEN_INTEGER` for a word of digits, with the value that `strtol` gives.
`strtol` stops at the largest `long`, and `is_digits` holds of no bytes at all, so that a byte that
starts no token is answered as the number 0.

* `IntegerExact`: the token, if it is a number, has digits and their value.
* `LiteralFits`: the condition on the unread text.
* `getNextToken_exact_iff`: **the token is exact exactly under this condition**, and then tokens
  have one value exactly when they denote one number.
-/

namespace MiniDB

variable {input rest digits : List UInt8} {t : Tokenizer} {token token' : Token}

/-- A token of type `TOKEN_INTEGER` has a run of digits, and the value that they denote. -/
def IntegerExact (token : Token) : Prop :=
  token.type = .tokenInteger → token.text ≠ [] ∧ isDigits token.text = true ∧
    token.intValue.toInt = digitsValue token.text

/-- The text ends, or it goes on with a byte that some token starts with. -/
def StartsToken (unread : List UInt8) : Prop :=
  ∀ b ∈ unread.head?, b = 0 ∨ b = 39 ∨ (symbolType b).isSome ∨ isWordByte b = true

/-- Behind the blanks the text goes on with a token; if that is a run of digits, these denote an
`int64`. -/
def LiteralFits (cursor : List UInt8) : Prop :=
  StartsToken (cursor.dropWhile isBlank) ∧
    (isDigits ((cursor.dropWhile isBlank).takeWhile isWordByte) = true →
      digitsValue ((cursor.dropWhile isBlank).takeWhile isWordByte) < 2 ^ 63)

/-! ## Values -/

/-- The value of a run of digits, up to the largest `long`. -/
theorem toInt_strtol (digits : List UInt8) :
    (strtol digits).toInt = min (digitsValue digits : ℤ) (2 ^ 63 - 1) := by
  have hstr : strtol digits = Int64.ofNat (min (digitsValue digits) (2 ^ 63 - 1)) := rfl
  rw [hstr, Int64.toInt_ofNat_of_lt (by omega)]
  omega

/-- **The value is exact exactly for numbers that fit.** -/
theorem strtol_exact_iff (digits : List UInt8) :
    (strtol digits).toInt = digitsValue digits ↔ digitsValue digits < 2 ^ 63 := by
  rw [toInt_strtol]
  omega

/-! ## Tokens -/

/-- The word in front of a byte that no word has. -/
theorem takeWhile_word {text : List UInt8} (hword : ∀ b ∈ text, isWordByte b = true)
    (hrest : ∀ b ∈ rest.head?, isWordByte b = false) :
    (text ++ rest).takeWhile isWordByte = text := by
  rw [List.takeWhile_append_of_pos hword]
  cases rest with
  | nil => rw [List.takeWhile_nil, List.append_nil]
  | cons b rest =>
    rw [List.takeWhile_cons_of_neg (by rw [hrest b rfl]; decide), List.append_nil]

/-- A number is what a word of digits is read as. -/
theorem wordType_eq_integer {text : List UInt8} (hne : text ≠ []) :
    wordType text = .tokenInteger ↔ isDigits text = true := by
  constructor
  · intro htype
    rcases wordType_cases text with ⟨kw, hkw, -, heq⟩ | ⟨-, heq⟩
    · exact absurd (heq.symm.trans htype) (keywords_types kw hkw).2.2.2.2
    · by_contra hnot
      rw [if_neg hnot] at heq
      exact absurd (heq.symm.trans htype) (by decide)
  · exact fun h => (number_spelled hne h).2

/-- A text whose first byte is not of a word starts with no digits. -/
theorem takeWhile_of_head {b : UInt8} (h : isWordByte b = false) :
    (b :: rest).takeWhile isWordByte = [] := List.takeWhile_cons_of_neg (by rw [h]; decide)

theorem digitsValue_nil : digitsValue [] < 2 ^ 63 := by decide

/-- **What a call reads, and the condition.** -/
theorem Lexed.exact_iff (h : Lexed input token rest) : IntegerExact token ↔
    StartsToken input ∧ (isDigits (input.takeWhile isWordByte) = true →
      digitsValue (input.takeWhile isWordByte) < 2 ^ 63) := by
  have hother : token.type ≠ .tokenInteger → IntegerExact token := fun hne htype => absurd htype hne
  cases h with
  | eof hend htype =>
    have hnil : input.takeWhile isWordByte = [] := by
      cases input with
      | nil => rfl
      | cons b bs => exact takeWhile_of_head (by rw [hend b rfl]; decide)
    rw [hnil]
    exact iff_of_true (hother (by rw [htype]; decide))
      ⟨fun b hb => Or.inl (hend b hb), fun _ => digitsValue_nil⟩
  | @symbol b _ _ _ hsymbol =>
    obtain ⟨hmem, hmem'⟩ := symbolType_eq_some hsymbol
    have hword : isWordByte b = false := by
      by_contra hword
      rw [symbolType_wordByte (eq_true_of_ne_false hword)] at hsymbol
      cases hsymbol
    rw [takeWhile_of_head hword]
    refine iff_of_true (hother ?_) ⟨?_, fun _ => digitsValue_nil⟩
    · intro htype
      rw [htype] at hmem'
      exact absurd hmem' (by decide)
    · rintro c ⟨⟩
      exact Or.inr (Or.inr (Or.inl (by rw [hsymbol]; rfl)))
  | string _ htype | invalid _ _ htype =>
    rw [takeWhile_of_head (by decide)]
    refine iff_of_true (hother (by rw [htype]; decide)) ⟨?_, fun _ => digitsValue_nil⟩
    rintro c ⟨⟩
    exact Or.inr (Or.inl rfl)
  | @word text _ _ hne hword hrest htype htext hvalue =>
    have hstarts : StartsToken (text ++ rest) := by
      intro b hb
      obtain ⟨c, text', rfl⟩ := List.exists_cons_of_ne_nil hne
      rw [List.cons_append, List.head?_cons] at hb
      obtain rfl := Option.mem_some_iff.mp hb
      exact Or.inr (Or.inr (Or.inr (hword c List.mem_cons_self)))
    rw [takeWhile_word hword hrest, and_iff_right hstarts]
    unfold IntegerExact
    rw [htype, wordType_eq_integer hne, htext]
    refine forall_congr' fun hdigits => ?_
    rw [hvalue (htype.trans ((wordType_eq_integer hne).mpr hdigits)), strtol_exact_iff]
    exact ⟨fun h => h.2.2, fun h => ⟨hne, hdigits, h⟩⟩
  | @stuck b _ _ h0 hquote _ hsymbol hword htype htext =>
    refine iff_of_false (fun hexact => (hexact htype).1 htext) ?_
    rintro ⟨hstarts, -⟩
    rcases hstarts b rfl with h | h | h | h
    · exact h0 h
    · exact hquote h
    · rw [hsymbol] at h
      cases h
    · rw [hword] at h
      cases h

/-- Exact tokens have one value exactly when they denote one number. -/
theorem IntegerExact.value_eq_iff (h : IntegerExact token) (h' : IntegerExact token')
    (htype : token.type = .tokenInteger) (htype' : token'.type = .tokenInteger) :
    token.intValue = token'.intValue ↔ digitsValue token.text = digitsValue token'.text := by
  rw [← Int64.toInt_inj, (h htype).2.2, (h' htype').2.2, Nat.cast_inj]

/-- **A token is exact exactly when the text goes on with a token, and with no digits beyond an
`int64`**; and the values of exact tokens are equal exactly for equal numbers. -/
theorem getNextToken_exact_iff (t : Tokenizer) (out : Token) :
    (IntegerExact (getNextToken t out).1 ↔ LiteralFits t.cursor) ∧
    ∀ (t' : Tokenizer) (out' : Token), LiteralFits t.cursor → LiteralFits t'.cursor →
      (getNextToken t out).1.type = .tokenInteger → (getNextToken t' out').1.type = .tokenInteger →
      ((getNextToken t out).1.intValue = (getNextToken t' out').1.intValue ↔
        digitsValue (getNextToken t out).1.text = digitsValue (getNextToken t' out').1.text) := by
  have hexact : ∀ (t : Tokenizer) (out : Token),
      IntegerExact (getNextToken t out).1 ↔ LiteralFits t.cursor := fun t out =>
    (getNextToken_lexed t out).exact_iff
  refine ⟨hexact t out, ?_⟩
  intro t' out' hfits hfits' htype htype'
  exact ((hexact t out).mpr hfits).value_eq_iff ((hexact t' out').mpr hfits') htype htype'

/-- The texts `1` and `2`. -/
theorem getNextToken_exact_iff_digits :
    (getNextToken (tokenizerInit (ascii "1")) Token.cleared).1.intValue =
        (getNextToken (tokenizerInit (ascii "2")) Token.cleared).1.intValue ↔
      digitsValue (getNextToken (tokenizerInit (ascii "1")) Token.cleared).1.text =
        digitsValue (getNextToken (tokenizerInit (ascii "2")) Token.cleared).1.text := by
  have hfits : ∀ text ∈ [ascii "1", ascii "2"], LiteralFits (tokenizerInit text).cursor := by
    intro text htext
    have hhead : ∀ text ∈ [ascii "1", ascii "2"],
        (text.dropWhile isBlank).head?.all isWordByte = true := by decide
    refine ⟨fun b hb => Or.inr (Or.inr (Or.inr ?_)), fun _ => ?_⟩
    · have hall := hhead text htext
      rwa [show (text.dropWhile isBlank).head? = some b from hb] at hall
    · revert text
      decide
  exact (getNextToken_exact_iff _ _).2 _ _ (hfits _ (by decide)) (hfits _ (by decide)) (by decide)
    (by decide)

/-- The number behind the largest `int64` is read as this one, and a byte that starts no token as
the number 0. -/
theorem not_integerExact :
    ¬ IntegerExact (getNextToken (tokenizerInit (ascii "9223372036854775808")) Token.cleared).1 ∧
      ¬ IntegerExact (getNextToken (tokenizerInit (ascii "@")) Token.cleared).1 := by
  constructor
  · intro hexact
    exact absurd (hexact (by decide)).2.2 (by decide)
  · intro hexact
    exact (hexact (by decide)).1 (by decide)

end MiniDB
