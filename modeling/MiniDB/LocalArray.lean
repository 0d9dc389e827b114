import Mathlib.Data.List.GetD
import Mathlib.Data.List.Range

/-!
# Local arrays

An array on the stack has a fixed number of entries, and nothing is in them at first.  An access
outside of it is undefined, and so is reading an entry before it was written.  Here every access is
checked and answers `none` in these cases.

* `LocalArray.put`, `LocalArray.move`, `LocalArray.read`: assignment, `memmove`, and reading the
  entries at some indices.
* `LocalArray.fill_eq`, `LocalArray.move_eq`, `LocalArray.read_range`: accesses that stay inside.
-/

/-- The entries of a local array; `none` where nothing was written. -/
abbrev LocalArray (α : Type) := List (Option α)

namespace LocalArray

variable {α : Type}

/-- `b[i] = x` -/
def put (i : ℕ) (x : α) (b : LocalArray α) : Option (LocalArray α) :=
  if i < b.length then some (b.set i (some x)) else none

/-- The loop that assigns to the first `n` entries. -/
def fill (f : ℕ → α) : ℕ → LocalArray α → Option (LocalArray α)
  | 0, b => some b
  | n + 1, b => (fill f n b).bind (put n (f n))

/-- `memmove(b + dst, b + src, n * sizeof(*b))` -/
def move (dst src n : ℕ) (b : LocalArray α) : Option (LocalArray α) :=
  if dst + n ≤ b.length ∧ src + n ≤ b.length then
    some (b.take dst ++ (b.drop src).take n ++ b.drop (dst + n))
  else none

/-- The entries at some indices. -/
def read (b : LocalArray α) : List ℕ → Option (List α)
  | [] => some []
  | i :: is => (b[i]?.bind id).bind fun x => (b.read is).map (x :: ·)

/-- Assigning to an entry that there is. -/
theorem put_append {xs : List (Option α)} {i : ℕ} (hi : xs.length = i) (y : Option α)
    (ys : List (Option α)) (x : α) : put i x (xs ++ y :: ys) = some (xs ++ some x :: ys) := by
  subst hi
  rw [put, if_pos (by simp), List.set_append_right _ _ le_rfl, Nat.sub_self, List.set_cons_zero]

/-- The loop over an array that is large enough. -/
theorem fill_eq (f : ℕ → α) {n : ℕ} {b : LocalArray α} (hn : n ≤ b.length) :
    fill f n b = some ((List.range n).map (fun i => some (f i)) ++ b.drop n) := by
  induction n with
  | zero => rfl
  | succ n ih =>
    have hlt : n < b.length := hn
    rw [fill, ih hlt.le, Option.bind_some, List.drop_eq_getElem_cons hlt,
      put_append (by rw [List.length_map, List.length_range]), List.range_succ, List.map_append,
      List.append_assoc]
    rfl

/-- Moving the end of a list up by one leaves a place at `i`, when there is one entry more. -/
theorem move_eq {xs : List (Option α)} {z : Option α} {i : ℕ} (hi : i ≤ xs.length) :
    ∃ y, move (i + 1) i (xs.length - i) (xs ++ [z]) = some (xs.take i ++ y :: xs.drop i) := by
  have hlen : (xs ++ [z]).length = xs.length + 1 := by simp
  have hlt : i < (xs ++ [z]).length := by omega
  have hend : i + 1 + (xs.length - i) = (xs ++ [z]).length := by omega
  have htail : ((xs ++ [z]).drop i).take (xs.length - i) = xs.drop i := by
    rw [List.drop_append_of_le_length hi, ← List.length_drop, List.take_left]
  refine ⟨(xs ++ [z])[i], ?_⟩
  rw [move, if_pos ⟨by omega, by omega⟩, htail, hend, List.drop_length, List.append_nil,
    List.take_succ_eq_append_getElem hlt, List.take_append_of_le_length hi, List.append_assoc]
  rfl

/-- Reading entries that were written. -/
theorem read_eq {b : LocalArray α} {f : ℕ → α} : {is : List ℕ} →
    (∀ i ∈ is, b[i]? = some (some (f i))) → b.read is = some (is.map f)
  | [], _ => rfl
  | i :: is, h => by
    rw [read, h i List.mem_cons_self, Option.bind_some, id, Option.bind_some,
      read_eq fun k hk => h k (List.mem_cons_of_mem _ hk)]
    rfl

/-- Reading all of it in turn. -/
theorem read_range [Inhabited α] (xs : List α) :
    read (xs.map some) (List.range xs.length) = some xs := by
  have hread : read (xs.map some) (List.range xs.length) =
      some ((List.range xs.length).map fun i => xs.getD i default) := by
    refine read_eq fun i hi => ?_
    have hlt := List.mem_range.mp hi
    rw [List.getElem?_map, List.getElem?_eq_getElem hlt, List.getD_eq_getElem _ _ hlt]
    rfl
  rw [hread]
  refine congrArg some (List.ext_getElem (by simp) fun i h1 h2 => ?_)
  rw [List.getElem_map, List.getElem_range, List.getD_eq_getElem _ _ h2]

end LocalArray
