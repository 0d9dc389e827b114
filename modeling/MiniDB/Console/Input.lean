import MiniDB.Model.Console

/-!
# The lines of the input

* `inputLines`: the lines that `read_input` finds, one call after the other.
* `readInput_some`, `readInput_none`: what one of its calls finds.
* `inputLines_join`: lines that were joined by line ends are found again.
-/

namespace MiniDB

/-- The lines of the input. -/
def inputLines : List UInt8 → List (List UInt8)
  | [] => []
  | b :: bs =>
    if b = 10 then [] :: inputLines bs
    else (b :: (inputLines bs).headD []) :: (inputLines bs).tail

variable {input rest line : List UInt8} {lines : List (List UInt8)}

/-- A line with its end, and what follows. -/
theorem inputLines_append (hline : 10 ∉ line) (rest : List UInt8) :
    inputLines (line ++ 10 :: rest) = line :: inputLines rest := by
  induction line with
  | nil => rw [List.nil_append, inputLines, if_pos rfl]
  | cons b line ih =>
    have hb : b ≠ 10 := fun h => hline (h ▸ List.mem_cons_self)
    rw [List.cons_append, inputLines, if_neg hb, ih fun h => hline (List.mem_cons_of_mem _ h)]
    rfl

/-- **Lines that were joined** are found again. -/
theorem inputLines_join (hlines : ∀ line ∈ lines, 10 ∉ line) :
    inputLines (lines.flatMap fun line => line ++ [10]) = lines := by
  induction lines with
  | nil => rfl
  | cons line lines ih =>
    rw [List.flatMap_cons, List.append_assoc, List.singleton_append,
      inputLines_append (hlines line List.mem_cons_self),
      ih fun l hl => hlines l (List.mem_cons_of_mem _ hl)]

/-- The first line goes up to a line end. -/
theorem inputLines_eq (hne : input ≠ []) :
    inputLines input = (input.takeWhile fun b => b != 10) ::
      inputLines (input.drop ((input.takeWhile fun b => b != 10).length + 1)) := by
  induction input with
  | nil => exact absurd rfl hne
  | cons b bs ih =>
    rw [inputLines]
    split
    · next hb =>
      rw [hb, List.takeWhile_cons_of_neg (by decide)]
      rfl
    · next hb =>
      rw [List.takeWhile_cons_of_pos (by simpa using hb), List.length_cons, List.drop_succ_cons]
      cases bs with
      | nil => rfl
      | cons c bs =>
        rw [ih (List.cons_ne_nil _ _)]
        rfl

/-- **A call of `read_input`** takes the first line. -/
theorem readInput_some (h : readInput input = some (line, rest)) :
    inputLines input = line :: inputLines rest ∧ rest.length < input.length := by
  cases input with
  | nil => cases h
  | cons b bs =>
    rw [readInput, Option.some_inj, Prod.mk.injEq] at h
    obtain ⟨rfl, rfl⟩ := h
    refine ⟨inputLines_eq (List.cons_ne_nil _ _), ?_⟩
    rw [List.length_drop]
    simp only [List.length_cons]
    omega

theorem readInput_none (h : readInput input = none) : inputLines input = [] := by
  cases input with
  | nil => rfl
  | cons b bs => cases h

end MiniDB
