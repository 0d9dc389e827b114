import MiniDB.Console.Input
import MiniDB.Lockstep

/-!
# The loop of the console

* `ConsoleLine`: what a line asks for.
* `ConsoleLine.run`: **what one line does**, whatever stands before and behind it.
* `mainLoop_eq`, `runMain_eq`: **the program is a run of its lines**, up to the first `.exit`.
-/

namespace MiniDB

open Lockstep

/-- What a line asks for. -/
inductive ConsoleLine where
  | empty
  | exit
  | btree
  | tokens (sql : List UInt8)
  | ast (sql : List UInt8)
  | tables
  | schema (name : List UInt8)
  | plan (sql : List UInt8)
  | unrecognized (line : List UInt8)
  | statement (line : List UInt8)
  deriving DecidableEq

namespace ConsoleLine

/-- The comparisons of `do_meta_command`. -/
def ofMeta (line : List UInt8) : ConsoleLine :=
  if cString line = ascii ".exit" then .exit
  else if cString line = ascii ".btree" then .btree
  else if startsWith (ascii ".tokens") line then .tokens (line.drop 7)
  else if startsWith (ascii ".ast") line then .ast (line.drop 4)
  else if startsWith (ascii ".tables") line then .tables
  else if startsWith (ascii ".schema") line then .schema (line.drop 7)
  else if startsWith (ascii ".plan") line then .plan (line.drop 5)
  else .unrecognized line

/-- The kind of a line. -/
def of (line : List UInt8) : ConsoleLine :=
  if line.length = 0 then .empty else if line.head? = some 46 then ofMeta line else .statement line

/-- The lines that a command prints. -/
def printing (s : Pager) (lines : List (List UInt8)) : List Reply × Pager := (lines.map .line, s)

/-- The text for a command that there is not. -/
def unrecognizedLine (line : List UInt8) : List UInt8 :=
  ascii "Unrecognized command '" ++ cString line ++ ascii "'."

/-- **What one line does.** -/
def run (rounds : ℕ) (s : Pager) : ConsoleLine → Exec (List Reply × Pager)
  | .empty => .ok ([], s)
  | .exit => .ok (printing s [])
  | .btree => (btreeCommand rounds s).map fun r => printing r.2.2 (btreeLines r.2.1)
  | .tokens sql => (debugTokens rounds sql).map (printing s)
  | .ast sql => (debugAst sql).map (printing s)
  | .tables => (tablesCommand s).map fun r => printing r.2 r.1
  | .schema name => (printTableSchema rounds s name).map (printing s)
  | .plan sql => (planCommand s sql).map fun r => printing r.2 r.1
  | .unrecognized line => .ok (printing s [unrecognizedLine line])
  | .statement line => (processCommand s line).map fun r => (statementReplies line r.1, r.2)

end ConsoleLine

/-- The lines that the program goes through, up to the first `.exit`. -/
def consoleLines (input : List UInt8) : List ConsoleLine :=
  ((inputLines input).map ConsoleLine.of).takeWhile fun line => line != .exit

/-- There is a prompt in front of the replies to every line. -/
def prompted (replies : List (List Reply)) : List Reply :=
  replies.flatMap fun rs => printPrompt :: rs

/-- What is printed behind the replies to the lines: the prompt of the `.exit`, or that of the end
of the input. -/
def lastReplies (input : List UInt8) : List Reply :=
  if .exit ∈ (inputLines input).map ConsoleLine.of then [printPrompt] else [printPrompt, .ending]

/-- What the program prints in all. -/
def programReplies (input : List UInt8) (replies : List (List Reply)) : List Reply :=
  prompted replies ++ lastReplies input

/-- The file is closed behind the last line. -/
def closing (input : List UInt8) (r : List (List Reply) × Pager) : List Reply × Disk :=
  (programReplies input r.1, pagerClose r.2)

variable {input rest line : List UInt8} {rounds fuel : ℕ} {s : Pager}

/-- The replies to a line in front of those to the next ones. -/
def replying (rs : List Reply) (r : List Reply × Disk) : List Reply × Disk := (rs ++ r.1, r.2)

/-- What follows a line. -/
theorem map_closing (rs : List Reply) (hlast : lastReplies input = lastReplies rest)
    (run : Exec (List (List Reply) × Pager)) :
    (run.map fun r => (rs :: r.1, r.2)).map (closing input) =
      (run.map (closing rest)).map (replying (printPrompt :: rs)) := by
  cases run with
  | error f => rfl
  | ok r =>
    simp only [Except.map, closing, replying, programReplies, prompted, hlast, List.flatMap_cons,
      List.append_assoc]

/-- The result of `.btree`. -/
theorem btreeCommand_result {result : CommandResult} {walk : Option BtreeWalk} {s' : Pager}
    (h : btreeCommand rounds s = .ok (result, walk, s')) : result = .debugBtreeSuccess := by
  unfold btreeCommand at h
  split at h
  · cases h
    rfl
  · obtain ⟨⟨walk', s₁⟩, -, h⟩ := bind_eq_ok h
    cases h
    rfl

/-- A round for a line with a dot in front. -/
theorem mainRound_meta {next : Pager → Exec (List Reply × Disk)} (hne : line.length ≠ 0)
    (hdot : line.head? = some 46) :
    mainRound rounds next s line =
      if ConsoleLine.ofMeta line = .exit then .ok ([], pagerClose s)
      else (ConsoleLine.ofMeta line).run rounds s >>= fun r => (next r.2).map (replying r.1) := by
  simp only [mainRound, if_neg hne, if_pos hdot]
  unfold doMetaCommand ConsoleLine.ofMeta
  split
  · rfl
  · split
    · rw [if_neg (by decide)]
      simp only [ConsoleLine.run]
      cases hrun : btreeCommand rounds s with
      | error f => rfl
      | ok r =>
        obtain ⟨result, walk, s'⟩ := r
        obtain rfl := btreeCommand_result hrun
        rfl
    · split
      · rw [if_neg (by simp)]
        simp only [ConsoleLine.run]
        cases debugTokens rounds (line.drop 7) <;> rfl
      · split
        · rw [if_neg (by simp)]
          simp only [ConsoleLine.run]
          cases debugAst (line.drop 4) <;> rfl
        · split
          · rw [if_neg (by simp)]
            simp only [ConsoleLine.run]
            cases tablesCommand s <;> rfl
          · split
            · rw [if_neg (by simp)]
              simp only [ConsoleLine.run]
              cases printTableSchema rounds s (line.drop 7) <;> rfl
            · split
              · rw [if_neg (by simp)]
                simp only [ConsoleLine.run]
                cases planCommand s (line.drop 5) <;> rfl
              · rw [if_neg (by simp)]
                rfl

/-- **A round.** -/
theorem mainRound_eq {next : Pager → Exec (List Reply × Disk)} :
    mainRound rounds next s line =
      if ConsoleLine.of line = .exit then .ok ([], pagerClose s)
      else (ConsoleLine.of line).run rounds s >>= fun r => (next r.2).map (replying r.1) := by
  unfold ConsoleLine.of
  by_cases hlen : line.length = 0
  · rw [if_pos hlen, if_neg (by simp)]
    simp only [mainRound, if_pos hlen, ConsoleLine.run]
    show next s = (next s).map (replying [])
    cases next s <;> rfl
  rw [if_neg hlen]
  by_cases hdot : line.head? = some 46
  · rw [if_pos hdot]
    exact mainRound_meta hlen hdot
  · rw [if_neg hdot, if_neg (by simp)]
    simp only [mainRound, if_neg hlen, if_neg hdot, ConsoleLine.run]
    cases processCommand s line <;> rfl

/-- **A step of the loop.** -/
theorem mainLoop_line (hread : readInput input = some (line, rest)) :
    mainLoop rounds (fuel + 1) s input =
      if ConsoleLine.of line = .exit then .ok ([printPrompt], pagerClose s)
      else (ConsoleLine.of line).run rounds s >>= fun r =>
        (mainLoop rounds fuel r.2 rest).map (replying (printPrompt :: r.1)) := by
  simp only [mainLoop, hread, mainRound_eq]
  split
  · generalize pagerClose s = disk
    rfl
  · cases (ConsoleLine.of line).run rounds s with
    | error f => rfl
    | ok r =>
      simp only [ok_bind]
      cases mainLoop rounds fuel r.2 rest <;> rfl

/-- What is printed at the end depends on the lines behind the first one, if that is no `.exit`. -/
theorem lastReplies_of (hlines : inputLines input = line :: inputLines rest)
    (hne : ConsoleLine.of line ≠ .exit) : lastReplies input = lastReplies rest := by
  rw [lastReplies, lastReplies, hlines, List.map_cons]
  refine if_congr ?_ rfl rfl
  rw [List.mem_cons]
  exact or_iff_right fun h => hne h.symm

/-- **The loop of `main` is a run of the lines.** -/
theorem mainLoop_eq (hfuel : input.length < fuel) :
    mainLoop rounds fuel s input =
      (runAll (ConsoleLine.run rounds) s (consoleLines input)).map (closing input) := by
  induction fuel generalizing s input with
  | zero => omega
  | succ fuel ih =>
    cases hread : readInput input with
    | none =>
      have hlines := readInput_none hread
      have hlast : lastReplies input = [printPrompt, .ending] := by
        rw [lastReplies, hlines]
        rfl
      rw [consoleLines, hlines]
      simp only [mainLoop, hread, closing, programReplies, hlast, List.map_nil, List.takeWhile_nil,
        runAll, Except.map]
      generalize pagerClose s = disk
      rfl
    | some r =>
      obtain ⟨line, rest⟩ := r
      obtain ⟨hlines, hlt⟩ := readInput_some hread
      rw [mainLoop_line hread, consoleLines, hlines, List.map_cons]
      by_cases hexit : ConsoleLine.of line = .exit
      · have hlast : lastReplies input = [printPrompt] := by
          rw [lastReplies, hlines, List.map_cons, hexit, if_pos List.mem_cons_self]
        rw [if_pos hexit, List.takeWhile_cons_of_neg (by simp [hexit])]
        simp only [closing, programReplies, hlast, runAll, Except.map]
        rfl
      · rw [if_neg hexit, List.takeWhile_cons_of_pos (by simpa using hexit)]
        cases hrun : (ConsoleLine.of line).run rounds s with
        | error f =>
          rw [runAll_cons_error hrun]
          rfl
        | ok r =>
          rw [runAll_cons hrun, map_closing r.1 (lastReplies_of hlines hexit), ← consoleLines,
            ← ih (by omega)]
          rfl

/-- **The program** on a file that has a catalog page. -/
theorem runMain_eq {disk : Disk} (hopen : openDatabase disk = some s) (rounds : ℕ)
    (input : List UInt8) : runMain rounds disk input =
      (runAll (ConsoleLine.run rounds) s (consoleLines input)).map (closing input) := by
  rw [runMain, hopen]
  exact mainLoop_eq (Nat.lt_succ_self _)

end MiniDB
