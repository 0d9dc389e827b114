import MiniDB.ByteMemory
import Mathlib.Logic.Function.Basic
import Mathlib.Data.Nat.Basic

/-!
# The pager

`pager.c`: a cache of the pages of one file.  A page pointer is modelled by its page number, which
is what the program looks it up by; `pagerGetPage` answers `none` where the C function returns
`NULL`, and otherwise the pager with the page in its cache.  `Pager.page` is the page a pointer
leads to, and `Pager.setPage` a write through it.

`Fault` collects what the C language leaves undefined, together with running forever.  A function
that can do neither returns its result outright; the others live in `Exec`.

The operating system is taken to work: `calloc` succeeds, and `read` and `write` transfer all the
bytes there are.
-/

namespace MiniDB

/-- What can go wrong in a C program beyond returning an error. -/
inductive Fault where
  /-- a page pointer that is `NULL` is followed -/
  | nullPointer
  /-- a member of a node's `as` union is read that the node's type does not select -/
  | unionMember
  /-- `strlen` of an array that holds no terminator -/
  | unterminated
  /-- a copy past the end of a page -/
  | outOfBounds
  /-- a value is read that was never assigned -/
  | uninitialised
  /-- a loop does not end -/
  | endless
  deriving DecidableEq, Repr

/-- Computations that may fault. -/
abbrev Exec := Except Fault

/-- A step that succeeds leaves the rest. -/
theorem ok_bind {ε α β : Type} (a : α) (f : α → Except ε β) : (Except.ok a >>= f) = f a := rfl

/-- A computation that succeeds did each of its steps. -/
theorem bind_eq_ok {ε α β : Type} {x : Except ε α} {f : α → Except ε β} {b : β}
    (h : x >>= f = .ok b) : ∃ a, x = .ok a ∧ f a = .ok b := by
  cases x with
  | error e => cases h
  | ok a => exact ⟨a, rfl, h⟩

/-- A computation that fails did so in one of its steps. -/
theorem bind_eq_error {ε α β : Type} {x : Except ε α} {f : α → Except ε β} {e : ε}
    (h : x >>= f = .error e) : x = .error e ∨ ∃ a, x = .ok a ∧ f a = .error e := by
  cases x with
  | error e' =>
    cases h
    exact Or.inl rfl
  | ok a => exact Or.inr ⟨a, rfl, h⟩

/-- `CommandResult`; `failure` is the `-1` the commands return. -/
inductive CommandResult where
  | commandSuccess
  | unrecognizedCommand
  | idDuplicateError
  | leafFullError
  | debugBtreeSuccess
  | internalNodeFullError
  | debugsTokensSuccess
  | debugAstSuccess
  | failure
  deriving DecidableEq, Repr

def tablesMaxPages : ℕ := 20000

def pageSize : ℕ := 4096

/-- A page: its bytes by offset.  Behind the 4096 bytes that there are, a page that was read in has
zeros, where the code reads outside of its buffer. -/
abbrev Page := Mem

/-- The file behind the descriptor `fd`; bytes past its size read as zero. -/
structure Disk where
  bytes : Mem
  size : ℕ

structure Pager where
  disk : Disk
  fileLength : ℕ
  pages : ℕ → Option Page
  pageDirty : ℕ → Bool
  numPages : ℕ

/-- `pager_open`; `file_length` is stored in a `uint32_t`, the page count is not. -/
def pagerOpen (disk : Disk) : Pager where
  disk := disk
  fileLength := disk.size % 2 ^ 32
  pages := fun _ => none
  pageDirty := fun _ => false
  numPages := disk.size / pageSize

def pagerAllocatePage (s : Pager) : ℕ × Pager :=
  (s.numPages, { s with numPages := s.numPages + 1 })

namespace Pager

/-- The number of pages in the file, a partial last page included; the sum is one of 32 bits. -/
def filePages (s : Pager) : ℕ := (s.fileLength + pageSize - 1) % 2 ^ 32 / pageSize

/-- The zeroed buffer that `pager_get_page` fills from the file for a page that is not cached. -/
def load (s : Pager) (n : ℕ) : Page := fun i =>
  if n < s.filePages ∧ i < pageSize ∧ pageSize * n + i < s.disk.size then
    s.disk.bytes (pageSize * n + i)
  else 0

/-- The page that the pointer for page number `n` leads to. -/
def page (s : Pager) (n : ℕ) : Page := (s.pages n).getD (s.load n)

/-- Write a page through its pointer. -/
def setPage (s : Pager) (n : ℕ) (p : Page) : Pager :=
  { s with pages := Function.update s.pages n (some p) }

end Pager

/-- `pager_get_page`: `none` for `NULL`. -/
def pagerGetPage (s : Pager) (n : ℕ) : Option Pager :=
  if tablesMaxPages ≤ n then none
  else if (s.pages n).isSome then some s
  else
    let expected := min pageSize (s.fileLength - pageSize * n)
    let bytesRead := min pageSize (s.disk.size - pageSize * n)
    if n < s.filePages ∧ bytesRead ≠ expected then none
    else some { s.setPage n (s.load n) with numPages := max s.numPages (n + 1) }

def pagerMarkDirty (s : Pager) (n : ℕ) : Pager :=
  { s with pageDirty := Function.update s.pageDirty n true }

/-- `pager_flush`: write page `n` at its place in the file. -/
def pagerFlush (disk : Disk) (n : ℕ) (p : Page) : Disk where
  bytes := disk.bytes.write (n * pageSize) (p.read 0 pageSize)
  size := max disk.size (n * pageSize + pageSize)

/-- `pager_close`: flush every dirty page; what remains is the file. -/
def pagerClose (s : Pager) : Disk :=
  (List.range tablesMaxPages).foldl
    (fun disk i => if s.pageDirty i then pagerFlush disk i (s.page i) else disk) s.disk

end MiniDB
