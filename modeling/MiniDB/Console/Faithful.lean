import MiniDB.Console.Printed
import MiniDB.Parsing.Soundness

/-!
# The console shows what a statement is

Lines of the console hold neither a line end nor, in the texts of their tokens, a terminator; so
their trees and plans are printed as they are.

* `Token.Plain`: a token whose text is printed as it is.
* `printable_of_parseDebugged`, `printable_of_parsePlanned`: the trees of a line.
* `ast_faithful`: **what `.ast` shows decides what the statement does**.
-/

namespace MiniDB

variable {sql sql' : List UInt8} {p p' q : Parser} {t next : Token} {ts : List Token}

/-! ## Tokens -/

/-- The text of a token comes from the input. -/
theorem Lexed.subset {input rest : List UInt8} (h : Lexed input t rest) :
    t.text ⊆ input ∧ rest ⊆ input := by
  cases h with
  | eof _ _ htext | stuck _ _ _ _ _ _ htext =>
    rw [htext]
    exact ⟨List.nil_subset _, List.Subset.refl _⟩
  | symbol _ _ htext =>
    rw [htext]
    exact ⟨by simp, List.subset_cons_self _ _⟩
  | string _ _ htext | invalid _ _ _ htext =>
    rw [htext]
    constructor <;> intro b hb <;> simp [hb]
  | word _ _ _ _ htext _ =>
    rw [htext]
    exact ⟨List.subset_append_left _ _, List.subset_append_right _ _⟩

/-- A token of a line: the lexer has read it, and there is no line end in it. -/
structure Token.Plain (t : Token) : Prop where
  scanned : t.Scanned
  noBreak : 10 ∉ t.text

/-- A parser on a line. -/
structure Parser.OnLine (p : Parser) : Prop where
  current : p.current.Plain
  rest : 10 ∉ p.tokenizer.cursor

/-- Reading a token stays on the line. -/
theorem onLine_getNextToken {t : Tokenizer} (h : 10 ∉ t.cursor) (out : Token) :
    Parser.OnLine ⟨(getNextToken t out).2, (getNextToken t out).1⟩ := by
  have hlexed := getNextToken_lexed t out
  have hrest : 10 ∉ t.cursor.dropWhile isBlank := fun hmem => h (List.dropWhile_subset _ hmem)
  exact ⟨⟨⟨_, _, hlexed⟩, fun hmem => hrest (hlexed.subset.1 hmem)⟩,
    fun hmem => hrest (hlexed.subset.2 hmem)⟩

theorem onLine_parserInit (h : 10 ∉ sql) : (parserInit sql).OnLine :=
  onLine_getNextToken (t := tokenizerInit sql) h _

theorem Parser.OnLine.advance (h : p.OnLine) : (parserAdvance p).OnLine :=
  onLine_getNextToken h.rest _

/-- The tokens that a parser steps over. -/
theorem Parser.OnLine.advances (h : p.OnLine) (hadv : Advances p ts q) : ∀ t ∈ ts, t.Plain := by
  induction hadv with
  | refl => exact fun t ht => absurd ht List.not_mem_nil
  | step _ ih =>
    intro t ht
    rcases List.mem_cons.mp ht with rfl | ht
    · exact h.current
    · exact ih h.advance t ht

/-! ## Trees -/

theorem Token.Plain.identifier (h : t.Plain) (htype : t.type = .tokenIdentifier) :
    PlainText t.text :=
  ⟨(h.scanned.identifier htype).zero_notMem, h.noBreak⟩

theorem SpellsPrimary.plain {e : Expr} (h : SpellsPrimary e t) (ht : t.Plain) : e.Plain := by
  cases h with
  | integer _ | true _ | false _ => trivial
  | column htype => exact ht.identifier htype
  | string htype =>
    obtain ⟨input, rest, hlexed⟩ := ht.scanned
    exact ⟨fun h0 => (hlexed.stringLiteral htype 0 h0).2 rfl, ht.noBreak⟩

theorem SpellsCondition.plain {e : Expr} (h : SpellsCondition next e ts) (hts : ∀ t ∈ ts, t.Plain) :
    e.Plain := by
  cases h with
  | primary he _ => exact he.plain (hts _ List.mem_cons_self)
  | equals hleft _ hright => exact ⟨hleft.plain (hts _ (by simp)), hright.plain (hts _ (by simp))⟩

theorem SpellsWhere.plain {where_ : Option Expr} (h : SpellsWhere next where_ ts)
    (hts : ∀ t ∈ ts, t.Plain) : ∀ e ∈ where_, e.Plain := by
  cases h with
  | none _ => exact fun e he => absurd he (by simp)
  | some _ he =>
    intro e heq
    cases heq
    exact he.plain fun t ht => hts t (List.mem_cons_of_mem _ ht)

/-- The elements of a list come from its tokens. -/
theorem Scattered.forall {α : Type} {elem : α → List Token → Prop} {xs : List α} {Q : α → Prop}
    (h : Scattered elem xs ts) (helem : ∀ x us, elem x us → (∀ t ∈ us, t.Plain) → Q x)
    (hts : ∀ t ∈ ts, t.Plain) : ∀ x ∈ xs, Q x := by
  induction h with
  | nil => exact fun x hx => absurd hx List.not_mem_nil
  | comma _ _ ih => exact ih fun t ht => hts t (List.mem_cons_of_mem _ ht)
  | cons hx _ ih =>
    intro y hy
    rcases List.mem_cons.mp hy with rfl | hy
    · exact helem _ _ hx fun t ht => hts t (List.mem_append_left _ ht)
    · exact ih (fun t ht => hts t (List.mem_append_right _ ht)) y hy

theorem SpellsColumn.plain {e : Expr} (h : SpellsColumn e ts) (hts : ∀ t ∈ ts, t.Plain) :
    e.Plain := by
  cases h with
  | mk htype => exact (hts _ List.mem_cons_self).identifier htype

theorem SpellsValue.plain {e : Expr} (h : SpellsValue e ts) (hts : ∀ t ∈ ts, t.Plain) :
    e.Plain := by
  cases h with
  | mk he => exact he.plain (hts _ List.mem_cons_self)

theorem SpellsDefinition.plainText {d : ColumnDefinition} (h : SpellsDefinition d ts)
    (hts : ∀ t ∈ ts, t.Plain) : PlainText d.name := by
  cases h with
  | plain htype _ => exact (hts _ List.mem_cons_self).identifier htype
  | primary htype _ _ _ => exact (hts _ List.mem_cons_self).identifier htype

/-- The statements that the two debugging commands print. -/
def AstNode.Shown : AstNode → Prop
  | .insert _ _ | .select _ _ _ _ | .createTable _ _ => True
  | .updateTable _ _ _ _ | .deleteTable _ _ => False

/-- **The tree of a line is printed as it is.** -/
theorem AstNode.Spelled.printable {tree : AstNode} (h : tree.Spelled @Scattered next ts)
    (hts : ∀ t ∈ ts, t.Plain) (hshown : tree.Shown) : tree.Printable := by
  cases h with
  | star _ _ _ htype hwhere =>
    exact ⟨(hts _ (by simp)).identifier htype, fun e he => absurd he List.not_mem_nil,
      hwhere.plain fun t ht => hts t (by simp [ht])⟩
  | select _ hlist _ htype hwhere =>
    exact ⟨(hts _ (by simp)).identifier htype,
      hlist.forall (fun _ _ he => he.plain) fun t ht => hts t (by simp [ht]),
      hwhere.plain fun t ht => hts t (by simp [ht])⟩
  | insert _ _ htype _ _ hlist _ =>
    exact ⟨(hts _ (by simp)).identifier htype,
      hlist.forall (fun _ _ he => he.plain) fun t ht => hts t (by simp [ht])⟩
  | createTable _ _ htype _ hlist _ _ =>
    exact ⟨(hts _ (by simp)).identifier htype,
      hlist.scattered.forall (fun _ _ hd => hd.plainText) fun t ht => hts t (by simp [ht])⟩
  | updateTable | deleteTable => exact absurd hshown id

/-- The first token says which statement it is. -/
theorem AstNode.Spelled.shown {tree : AstNode} (h : tree.Spelled @Scattered next ts)
    (hadv : Advances p ts q) (hupdate : p.current.type ≠ .tokenUpdate)
    (hdelete : p.current.type ≠ .tokenDelete) : tree.Shown := by
  cases h with
  | star | select | insert | createTable => trivial
  | updateTable htype => exact absurd (hadv.head ▸ htype) hupdate
  | deleteTable htype => exact absurd (hadv.head ▸ htype) hdelete

/-- The trees that `.ast` and `.plan` print, by the function that has parsed them. -/
theorem printable_of_spelled (hline : 10 ∉ sql) {tree : AstNode} (type : TokenType)
    (htype : (parserInit sql).current.type = type) (hupdate : type ≠ .tokenUpdate)
    (hdelete : type ≠ .tokenDelete) (h : ∃ ts, Advances (parserInit sql) ts p ∧
      tree.Spelled @Scattered p.current ts) : tree.Printable := by
  obtain ⟨ts, hadv, hspelled⟩ := h
  refine hspelled.printable ((onLine_parserInit hline).advances hadv) (hspelled.shown hadv ?_ ?_)
  · rwa [htype]
  · rwa [htype]

/-- **The trees of `.ast`** are printed as they are. -/
theorem printable_of_parseDebugged (hline : 10 ∉ sql) {tree : AstNode}
    (h : parseDebugged (parserInit sql) = some (.ok (tree, p))) : tree.Printable := by
  unfold parseDebugged at h
  split at h
  · next htype =>
    exact printable_of_spelled hline _ htype (by decide) (by decide)
      (parseSelectStatement_spelled (Option.some.inj h))
  · next htype =>
    exact printable_of_spelled hline _ htype (by decide) (by decide)
      (parseCreateStatement_spelled (Option.some.inj h))
  · next htype =>
    exact printable_of_spelled hline _ htype (by decide) (by decide)
      (parseInsertStatement_spelled (Option.some.inj h))
  · cases h

theorem printable_of_parsePlanned (hline : 10 ∉ sql) {tree : AstNode}
    (h : parsePlanned (parserInit sql) = some (.ok (tree, p))) : tree.Printable := by
  unfold parsePlanned at h
  split at h
  · next htype =>
    exact printable_of_spelled hline _ htype (by decide) (by decide)
      (parseSelectStatement_spelled (Option.some.inj h))
  · next htype =>
    exact printable_of_spelled hline _ htype (by decide) (by decide)
      (parseInsertStatement_spelled (Option.some.inj h))
  · cases h

/-- What the two commands parse, `process_command` parses as well. -/
theorem parseStatement_of_parseDebugged {r : AstNode × Parser}
    (h : parseDebugged p = some (.ok r)) : parseStatement p = some (.ok r) := by
  unfold parseDebugged at h
  unfold parseStatement
  split at h
  all_goals first | cases h | (next htype => rw [htype]; exact h)

theorem parseStatement_of_parsePlanned {r : AstNode × Parser}
    (h : parsePlanned p = some (.ok r)) : parseStatement p = some (.ok r) := by
  unfold parsePlanned at h
  unfold parseStatement
  split at h
  all_goals first | cases h | (next htype => rw [htype]; exact h)

/-- **What `.ast` shows decides what the statement does**: two lines for which it prints the same
tree are the same statement, and carried out they do the same, in whatever state. -/
theorem ast_faithful (hline : 10 ∉ sql) (hline' : 10 ∉ sql') {tree tree' : AstNode}
    (h : parseDebugged (parserInit sql) = some (.ok (tree, p)))
    (h' : parseDebugged (parserInit sql') = some (.ok (tree', p'))) :
    (printed (astPrint tree) = printed (astPrint tree') ↔ tree = tree') ∧
      (printed (astPrint tree) = printed (astPrint tree') →
        ∀ s, processCommand s sql = processCommand s sql') := by
  have hiff := printed_astPrint (printable_of_parseDebugged hline h)
    (printable_of_parseDebugged hline' h')
  refine ⟨hiff, fun heq s => ?_⟩
  rw [processCommand, processCommand, parseStatement_of_parseDebugged h,
    parseStatement_of_parseDebugged h', hiff.mp heq]

/-- Two ways to write a statement. -/
theorem ast_faithful_select : (fun s => processCommand s (ascii "SELECT * FROM notes")) =
    fun s => processCommand s (ascii "select\t*  from notes;") := by
  obtain ⟨p, hparse⟩ : ∃ p, parseDebugged (parserInit (ascii "SELECT * FROM notes")) =
      some (.ok (.select (ascii "notes") true [] none, p)) := ⟨_, rfl⟩
  obtain ⟨p', hparse'⟩ : ∃ p, parseDebugged (parserInit (ascii "select\t*  from notes;")) =
      some (.ok (.select (ascii "notes") true [] none, p)) := ⟨_, rfl⟩
  exact funext ((ast_faithful (by decide) (by decide) hparse hparse').2 rfl)

end MiniDB
