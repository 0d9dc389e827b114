import MiniDB.Console.Agreeing

/-!
# Runs of the program

The program reads its input to the end, or to an `.exit`, and leaves a file; it may then be started
on that file again.

* `runMain_agree`: **the program shows what the console shows of the store** in its file, and leaves
  a file that holds the store at the end.
* `programs_agree`: **so do programs that are started one after the other**, from a new file on.
* `programs_indistinguishable`: **only the lines count**, not which of them are given to one
  program, and only the store in the file.
-/

namespace MiniDB

open BPlusTree Pager Lockstep

/-- The file holds the store. -/
def Holding (disk : Disk) (st : Store) : Prop := ∃ s, openDatabase disk = some s ∧ Keeps s st

/-- Every line of the input can be answered, in the state that those before it lead to. -/
def AnswersAll (rounds : ℕ) (disk : Disk) (input : List UInt8) : Prop :=
  ∀ s, openDatabase disk = some s →
    Guarded (ConsoleLine.run rounds) Answerable s (consoleLines input)

/-- What is seen of a program. -/
def runSeen (rounds : ℕ) (disk : Disk) (input : List UInt8) : Exec (List Reply × Disk) :=
  (runMain rounds disk input).map seen

/-- What is seen of the answers to lines. -/
def Store.answers (rounds : ℕ) (st : Store) (lines : List ConsoleLine) :
    Exec (List (List Reply) × Store) :=
  runAll (fun st line => (st.answer rounds line).map seen) st lines

/-- What a program shows of a store. -/
def Store.main (rounds : ℕ) (st : Store) (input : List UInt8) : Exec (List Reply × Store) :=
  (st.answers rounds (consoleLines input)).map fun r => (programReplies input r.1, r.2)

/-- The prompts and the end of the last line belong to the start of a program, not to its lines. -/
def Reply.isAnswer : Reply → Bool
  | .prompt _ | .ending => false
  | .line _ | .statement _ => true

/-- The answers among all that is printed. -/
def answersOf (replies : List (List Reply)) : List Reply := replies.flatten.filter Reply.isAnswer

variable {s : Pager} {st : Store} {disk disk' : Disk} {rounds : ℕ} {input : List UInt8}
  {inputs inputs' : List (List UInt8)} {lines : List ConsoleLine}

/-- **The lines of an input** show what they show of the store. -/
theorem Keeps.shows (h : Keeps s st) (hg : Guarded (ConsoleLine.run rounds) Answerable s lines) :
    Agree Keeps (Lockstep.runAll (fun s line => (ConsoleLine.run rounds s line).map seen) s lines)
      (st.answers rounds lines) :=
  runAll_agree h hg.map fun _ _ _ => answer_agree

/-- The prompts and the end are seen. -/
theorem filter_isSeen_programReplies (input : List UInt8) (replies : List (List Reply)) :
    (programReplies input replies).filter Reply.isSeen =
      programReplies input (replies.map (List.filter Reply.isSeen)) := by
  have hlast : (lastReplies input).filter Reply.isSeen = lastReplies input := by
    unfold lastReplies
    split <;> rfl
  have hprompted : (prompted replies).filter Reply.isSeen =
      prompted (replies.map (List.filter Reply.isSeen)) := by
    induction replies with
    | nil => rfl
    | cons rs replies ih =>
      unfold prompted at ih ⊢
      rw [List.map_cons, List.flatMap_cons, List.flatMap_cons, List.filter_append, ih]
      rfl
  rw [programReplies, programReplies, List.filter_append, hprompted, hlast]

/-- They are no answers. -/
theorem filter_isAnswer_programReplies (input : List UInt8) (replies : List (List Reply)) :
    (programReplies input replies).filter Reply.isAnswer = answersOf replies := by
  have hlast : (lastReplies input).filter Reply.isAnswer = [] := by
    unfold lastReplies
    split <;> rfl
  have hprompted : (prompted replies).filter Reply.isAnswer = answersOf replies := by
    unfold answersOf prompted
    induction replies with
    | nil => rfl
    | cons rs replies ih =>
      rw [List.flatMap_cons, List.flatten_cons, List.filter_append, List.filter_append, ih]
      rfl
  rw [programReplies, List.filter_append, hprompted, hlast, List.append_nil]

/-- What is seen of the lines is seen of the program. -/
theorem runSeen_eq (hopen : openDatabase disk = some s) (rounds : ℕ) (input : List UInt8) :
    runSeen rounds disk input =
      (runAll (fun s line => (ConsoleLine.run rounds s line).map seen) s (consoleLines input)).map
        (closing input) := by
  rw [runSeen, runMain_eq hopen]
  have hseen := runAll_map (ConsoleLine.run rounds) (List.filter Reply.isSeen) s
    (consoleLines input)
  unfold seen
  rw [hseen]
  cases runAll (ConsoleLine.run rounds) s (consoleLines input) with
  | error f => rfl
  | ok r =>
    simp only [Except.map, closing, filter_isSeen_programReplies]

/-- **The program** shows what the console shows of the store, and leaves the store in its file. -/
theorem runMain_agree (h : Holding disk st) (hok : AnswersAll rounds disk input) :
    Agree Holding ((runMain rounds disk input).map seen) (st.main rounds input) := by
  obtain ⟨s, hopen, h⟩ := h
  show Agree Holding (runSeen rounds disk input) _
  rw [runSeen_eq hopen]
  refine (h.shows (hok s hopen)).map (fun _ _ _ => rfl) ?_
  rintro os s' st' ⟨ts, h'⟩
  obtain ⟨s'', hopen', h''⟩ := h'.reopen
  dsimp only [closing]
  refine ⟨s'', ?_, ?_⟩
  · exact hopen'
  · exact ⟨ts, h''⟩

/-- Programs one after the other on a file that holds the store. -/
theorem Holding.programs (h : Holding disk st)
    (hg : Guarded (runMain rounds) (AnswersAll rounds) disk inputs) :
    Agree Holding (runAll (runSeen rounds) disk inputs) (runAll (Store.main rounds) st inputs) :=
  runAll_agree h hg.map fun _ _ _ => runMain_agree

/-- A new file holds no table. -/
theorem holding_empty : Holding Disk.empty [] := by
  obtain ⟨s, hopen, -⟩ := database_empty
  exact ⟨s, hopen, [], stores_empty hopen⟩

/-- **Programs one after the other**, from a new file on, show what the console shows of the
store. -/
theorem programs_agree (hg : Guarded (runMain rounds) (AnswersAll rounds) Disk.empty inputs) :
    Agree Holding (runAll (runSeen rounds) Disk.empty inputs)
      (runAll (Store.main rounds) [] inputs) :=
  holding_empty.programs hg

/-! ### Numbers

A table of numbers, with a row, in one program and a look at it in the next one. -/

def createNumbers : List UInt8 := ascii "CREATE TABLE numbers (id INTEGER PRIMARY KEY)"

def insertNumber : List UInt8 := ascii "INSERT INTO numbers VALUES (7)"

def selectNumbers : List UInt8 := ascii "SELECT * FROM numbers"

/-- The text of the first program; what stands behind its `.exit` is lost. -/
def numbersInput : List UInt8 :=
  ascii "CREATE TABLE numbers (id INTEGER PRIMARY KEY)\n.tables\n" ++
    ascii "INSERT INTO numbers VALUES (7)\n.exit\n?"

/-- The text of the second one. -/
def numbersLook : List UInt8 :=
  ascii "SELECT * FROM numbers\n.plan SELECT * FROM numbers WHERE id = 7\n"

/-- Both texts without the `.exit`. -/
def numbersTogether : List UInt8 :=
  ascii "CREATE TABLE numbers (id INTEGER PRIMARY KEY)\n.tables\n" ++
    (ascii "INSERT INTO numbers VALUES (7)\n" ++ numbersLook)

def numbersColumn : ColumnDefinition := ⟨ascii "id", .columnInteger, true⟩

theorem text_createNumbers : statementText createNumbers =
    .ok (.inr (.createTable (ascii "numbers") [numbersColumn])) := rfl

theorem text_insertNumber : statementText insertNumber =
    .ok (.inr (.insert (ascii "numbers") [.literalInt 7])) := rfl

theorem text_selectNumbers : statementText selectNumbers =
    .ok (.inr (.select (ascii "numbers") true [] none)) := rfl

theorem lines_numbersInput : consoleLines numbersInput =
    [.statement createNumbers, .tables, .statement insertNumber] := by decide

theorem lines_numbersLook : consoleLines numbersLook =
    [.statement selectNumbers, .plan (ascii " SELECT * FROM numbers WHERE id = 7")] := by decide

theorem lines_numbersTogether : consoleLines numbersTogether =
    consoleLines numbersInput ++ consoleLines numbersLook := by decide

/-- What holds behind a line. -/
theorem Keeps.behind {line : ConsoleLine} {rs : List Reply} {s' : Pager} (h : Keeps s st)
    (hok : Answerable s line) (hrun : line.run rounds s = .ok (rs, s')) :
    ∃ rs' st', st.answer rounds line = .ok (rs', st') ∧ Keeps s' st' := by
  have hagree : Agree Keeps ((line.run rounds s).map seen) ((st.answer rounds line).map seen) :=
    answer_agree h hok
  rcases hagree.cases with ⟨f, f', hs, -⟩ | ⟨o, s₁, st', hs, hst, h'⟩
  · rw [hrun] at hs
    cases hs
  · rw [hrun] at hs
    cases hs
    cases hanswer : st.answer rounds line with
    | error f =>
      rw [hanswer] at hst
      cases hst
    | ok r =>
      rw [hanswer] at hst
      obtain rfl : r.2 = st' := congrArg Prod.snd (Except.ok.inj hst)
      exact ⟨r.1, r.2, rfl, h'⟩

/-- The table has room in a new database. -/
theorem answerable_createNumbers (hopen : openDatabase Disk.empty = some s) :
    Answerable s (.statement createNumbers) := by
  obtain ⟨s₁, hopen₁, -, hnum, -⟩ := openDatabase_empty
  obtain rfl : s₁ = s := Option.some_inj.mp (hopen₁.symm.trans hopen)
  intro tree htext
  cases text_createNumbers.symm.trans htext
  refine ⟨fun _ => ⟨?_, by decide, by decide⟩, trivial, trivial, by rintro _ _ ⟨⟩⟩
  rw [hnum]
  decide

/-- The look at the numbers can be answered. -/
theorem answerable_selectNumbers (s : Pager) : Answerable s (.statement selectNumbers) := by
  intro tree htext
  cases text_selectNumbers.symm.trans htext
  exact ⟨trivial, trivial, trivial, by rintro _ _ ⟨⟩⟩

theorem guarded_numbersLook (s : Pager) :
    Guarded (ConsoleLine.run rounds) Answerable s (consoleLines numbersLook) := by
  rw [lines_numbersLook]
  exact ⟨answerable_selectNumbers s, fun _ _ _ => ⟨trivial, fun _ _ _ => trivial⟩⟩

/-- The table and its row can be answered in a new database, with whatever can be behind it. -/
theorem guarded_numbersInput (hopen : openDatabase Disk.empty = some s)
    (hlines : ∀ s, Guarded (ConsoleLine.run rounds) Answerable s lines) :
    Guarded (ConsoleLine.run rounds) Answerable s (consoleLines numbersInput ++ lines) := by
  rw [lines_numbersInput]
  have hcreate := answerable_createNumbers hopen
  refine ⟨hcreate, fun rs s₁ hrun => ⟨trivial, fun rs' s₂ hrun' => ⟨?_, fun _ s₃ _ => hlines s₃⟩⟩⟩
  obtain ⟨_, st, hst, h₁⟩ := Keeps.behind ⟨[], stores_empty hopen⟩ hcreate hrun
  cases hst
  obtain ⟨_, st, hst, h₂⟩ := h₁.behind (show Answerable s₁ .tables from trivial) hrun'
  cases hst
  intro tree htext
  cases text_insertNumber.symm.trans htext
  have hscan : AreScanned [.literalInt 7] := fun text htext => by
    cases List.mem_singleton.mp htext
  have hfeasible : Feasible s₂ (.insert (ascii "numbers") [.literalInt 7]) :=
    h₂.feasible_insert rfl rfl rfl hscan
  exact ⟨hfeasible.room, hfeasible.moves, hfeasible.leaves⟩

/-- Both programs can be answered. -/
theorem guarded_numbersPrograms :
    Guarded (runMain rounds) (AnswersAll rounds) Disk.empty [numbersInput, numbersLook] := by
  refine ⟨fun s hopen => ?_, fun _ _ _ => ⟨fun s _ => guarded_numbersLook s, fun _ _ _ => trivial⟩⟩
  rw [← List.append_nil (consoleLines numbersInput)]
  exact guarded_numbersInput hopen fun _ => trivial

/-- The number is shown by the second program. -/
theorem programs_agree_numbers :
    Agree Holding (runAll (runSeen 0) Disk.empty [numbersInput, numbersLook])
      (runAll (Store.main 0) [] [numbersInput, numbersLook]) :=
  programs_agree guarded_numbersPrograms

example : (runAll (Store.main 0) [] [numbersInput, numbersLook]).map Prod.fst =
    .ok [[printPrompt, .statement ⟨.commandSuccess, []⟩,
        printPrompt, .line (ascii "The list of tables is the following : "),
        .line (ascii "Table numbers"), printPrompt, .statement ⟨.commandSuccess, []⟩, printPrompt],
      [printPrompt, .statement ⟨.commandSuccess, [ascii "7 "]⟩,
        printPrompt, .line (ascii "PlanNode \x7b type: PLAN_PK_LOOKUP \x7d"),
        .line (ascii "  key: 7"), .line (ascii "  row_size: 8"), printPrompt, .ending]] := rfl

/-- The answers of several programs, one program at a time. -/
theorem answersOf_flatten (rss : List (List (List Reply))) :
    (rss.map answersOf).flatten = answersOf rss.flatten := by
  unfold answersOf
  rw [List.filter_flatten, List.map_flatten, List.flatten_flatten, List.map_map]
  refine congrArg List.flatten (List.map_congr_left fun rs _ => ?_)
  exact List.filter_flatten

/-- The programs on a store answer all the lines. -/
theorem Store.mains (rounds : ℕ) (st : Store) (inputs : List (List UInt8)) :
    (runAll (Store.main rounds) st inputs).map (fun r => (answersOf r.1, r.2)) =
      (st.answers rounds (inputs.flatMap consoleLines)).map fun r => (answersOf r.1, r.2) := by
  -- the answers of one program
  have hmain : ∀ st input, (Store.main rounds st input).map
      (fun r => (r.1.filter Reply.isAnswer, r.2)) =
        (Store.answers rounds st (consoleLines input)).map fun r => (answersOf r.1, r.2) := by
    intro st input
    unfold Store.main
    cases Store.answers rounds st (consoleLines input) with
    | error f => rfl
    | ok r => simp only [Except.map, filter_isAnswer_programReplies]
  have hleft := runAll_map (Store.main rounds) (List.filter Reply.isAnswer) st inputs
  have hright := runAll_map (fun st input => Store.answers rounds st (consoleLines input))
    answersOf st inputs
  simp only [hmain] at hleft
  have hflat := runAll_flatMap (fun st line => (Store.answer rounds st line).map seen) consoleLines
    st inputs
  have hall : ∀ x : Exec (List (List (List Reply)) × Store),
      (x.map fun r => (r.1.map answersOf, r.2)).map (fun r => (r.1.flatten, r.2)) =
        (x.map fun r => (r.1.flatten, r.2)).map fun r => (answersOf r.1, r.2) := by
    intro x
    cases x with
    | error f => rfl
    | ok r =>
      simp only [Except.map, answersOf_flatten]
  calc (runAll (Store.main rounds) st inputs).map (fun r => (answersOf r.1, r.2))
      = ((runAll (Store.main rounds) st inputs).map fun r =>
          (r.1.map (List.filter Reply.isAnswer), r.2)).map fun r => (r.1.flatten, r.2) := by
        cases runAll (Store.main rounds) st inputs with
        | error f => rfl
        | ok r => simp only [Except.map, answersOf, List.filter_flatten]
    _ = ((runAll (fun st input => Store.answers rounds st (consoleLines input)) st inputs).map
          fun r => (r.1.map answersOf, r.2)).map fun r => (r.1.flatten, r.2) := by
        rw [← hleft, hright]
    _ = (st.answers rounds (inputs.flatMap consoleLines)).map fun r => (answersOf r.1, r.2) := by
        rw [hall]
        exact congrArg _ hflat

/-- Both fail, or they give the same answers and leave the same store. -/
inductive SeenAlike : Exec (List (List Reply) × Disk) → Exec (List (List Reply) × Disk) → Prop
  | fail (f f' : Fault) : SeenAlike (.error f) (.error f')
  | same {rs rs' : List (List Reply)} {disk disk' : Disk} {st : Store} :
      answersOf rs = answersOf rs' → Holding disk st → Holding disk' st →
      SeenAlike (.ok (rs, disk)) (.ok (rs', disk'))

/-- **Only the lines count**, and the store that the file holds: neither where the program is
started again nor how the tables lie in the pages can be seen. -/
theorem programs_indistinguishable (h : Holding disk st) (h' : Holding disk' st)
    (hg : Guarded (runMain rounds) (AnswersAll rounds) disk inputs)
    (hg' : Guarded (runMain rounds) (AnswersAll rounds) disk' inputs')
    (hsame : inputs.flatMap consoleLines = inputs'.flatMap consoleLines) :
    SeenAlike (runAll (runSeen rounds) disk inputs) (runAll (runSeen rounds) disk' inputs') := by
  have hstore := Store.mains rounds st inputs
  rw [hsame, ← Store.mains rounds st inputs'] at hstore
  rcases (h.programs hg).cases with ⟨f, f', hrun, hst⟩ | ⟨rs, d, st₁, hrun, hst, hd⟩
  all_goals
    rcases (h'.programs hg').cases with ⟨e, e', hrun', hst'⟩ | ⟨rs', d', st₂, hrun', hst', hd'⟩
  all_goals
    rw [hst, hst'] at hstore
    rw [hrun, hrun']
  · exact .fail f e
  · cases hstore
  · cases hstore
  · obtain ⟨hreplies, rfl⟩ := Prod.mk.inj (Except.ok.inj hstore)
    exact .same hreplies hd hd'

/-- It does not matter whether the look is in a program of its own. -/
theorem programs_indistinguishable_numbers :
    SeenAlike (runAll (runSeen 0) Disk.empty [numbersInput, numbersLook])
      (runAll (runSeen 0) Disk.empty [numbersTogether]) := by
  refine programs_indistinguishable holding_empty holding_empty guarded_numbersPrograms
    ⟨fun s hopen => ?_, fun _ _ _ => trivial⟩ ?_
  · rw [lines_numbersTogether]
    exact guarded_numbersInput hopen guarded_numbersLook
  · rw [List.flatMap_cons, List.flatMap_singleton, List.flatMap_singleton, lines_numbersTogether]

end MiniDB
