import MiniDB.Model.Building
import MiniDB.Parsing.Ending

/-!
# What the error paths of the parser destroy

On an error the node of the statement is handed to `ast_destroy` as far as it has been built.  The
loops below its counts find every slot filled, and no node is reached twice; but `ast_destroy` also
follows `where`, which an `UPDATE` assigns last.

* `BuildsAs`: the building functions and the parsing functions give the same trees and errors.
* `InProgress`: a statement that is being built; `InProgress.destroy`: **it can be destroyed**,
  unless it is an `UPDATE`.
* `buildSelectStatement_buildsAs` and its kin: the functions of the parser.
* `destroysBuilt_iff`: **exactly an `UPDATE` that fails in front of its condition destroys what was
  not built**.
-/

namespace MiniDB

variable {p p' : Parser} {rounds m : ℕ} {node node' : StatementNode} {e : ElementNode}
  {ty : StatementType}

/-! ## Outcomes -/

/-- The two functions give the same: related results, or one error, behind which every node that was
destroyed is a different one.  When `bad` holds, an error ends in something undefined instead. -/
inductive BuildsAs {α β : Type} (R : α → β → Prop) (bad : Prop) : Build α → Parse β → Prop
  | ok {a : α} {b : β} : R a b → BuildsAs R bad (.ok a) (.ok b)
  | null {e : ParseError} {freed : List ℕ} : ¬ bad → freed.Nodup →
      BuildsAs R bad (.error (.null e freed)) (.error (.error e))
  | undefined {e : ParseError} : bad →
      BuildsAs R bad (.error (.fault .uninitialised)) (.error (.error e))
  | fault {f : Fault} : BuildsAs R bad (.error (.fault f)) (.error (.fault f))

section Outcomes

variable {α β α' β' : Type} {R : α → β → Prop} {S : α' → β' → Prop} {bad : Prop} {r : Build α}
  {r' : Parse β} {f : α → Build α'} {g : β → Parse β'}

theorem BuildsAs.bind (h : BuildsAs R bad r r') (hf : ∀ a b, R a b → BuildsAs S bad (f a) (g b)) :
    BuildsAs S bad (r >>= f) (r' >>= g) := by
  cases h with
  | ok hab => exact hf _ _ hab
  | null hbad hfreed => exact .null hbad hfreed
  | undefined hbad => exact .undefined hbad
  | fault => exact .fault

/-- The parsing function goes on with a result. -/
theorem BuildsAs.bind_right {β' : Type} {S : α → β' → Prop} {g : β → Parse β'}
    (h : BuildsAs R bad r r') (hf : ∀ a b, R a b → ∃ b', g b = .ok b' ∧ S a b') :
    BuildsAs S bad r (r' >>= g) := by
  cases h with
  | @ok a b hab =>
    obtain ⟨b', heq, hab'⟩ := hf a b hab
    show BuildsAs S bad _ (g b)
    rw [heq]
    exact .ok hab'
  | null hbad hfreed => exact .null hbad hfreed
  | undefined hbad => exact .undefined hbad
  | fault => exact .fault

end Outcomes

/-! ## Nodes in progress -/

/-- The numbers of the nodes below a statement, and its own. -/
def StatementNode.ids (node : StatementNode) : List ℕ :=
  node.id :: (node.columns ++ node.values).flatMap ElementNode.destroy

/-- The slots of a statement of type `ty` are filled: its counts are those of its slots, and its
nodes are different ones, with numbers below `m`. -/
structure Filled (ty : StatementType) (node : StatementNode) (m : ℕ) : Prop where
  type : node.type = ty
  columnCount : ty = .astSelect ∨ ty = .astCreateTable ∨ ty = .astUpdate →
    node.columnCount = some node.columns.length
  valuesCount : ty = .astInsert ∨ ty = .astUpdate → node.valuesCount = some node.values.length
  nodup : node.ids.Nodup
  lt : ∀ i ∈ node.ids, i < m

/-- A statement that is being built, and whose condition has not been read yet. -/
structure InProgress (ty : StatementType) (node : StatementNode) (m : ℕ) : Prop
    extends Filled ty node m where
  whereNull : ty = .astSelect ∨ ty = .astDelete → node.where_ = some none
  whereUnassigned : ty = .astUpdate → node.where_ = none

theorem destroySlots_length (slots : List ElementNode) :
    destroySlots slots (some slots.length) = .ok (slots.flatMap ElementNode.destroy) := by
  unfold destroySlots
  dsimp only
  rw [if_pos le_rfl, List.take_length]

/-- The nodes that are freed are those of the statement. -/
theorem ids_perm (node : StatementNode) : (node.columns.flatMap ElementNode.destroy ++
    node.values.flatMap ElementNode.destroy ++ [node.id]).Perm node.ids := by
  unfold StatementNode.ids
  rw [List.flatMap_append]
  exact List.perm_append_comm

/-- **Filled slots can be destroyed**, once `where` is assigned. -/
theorem Filled.destroy (h : Filled ty node m)
    (hwhere : ty = .astSelect ∨ ty = .astUpdate ∨ ty = .astDelete → node.where_ = some none) :
    ∃ ids, astDestroy node = .ok ids ∧ ids.Nodup ∧ ∀ i ∈ ids, i < m := by
  have hperm := ids_perm node
  have hcolumns : (node.columns.flatMap ElementNode.destroy ++ [node.id]).Sublist
      (node.columns.flatMap ElementNode.destroy ++ node.values.flatMap ElementNode.destroy ++
        [node.id]) := (List.sublist_append_left _ _).append_right _
  have hvalues : (node.values.flatMap ElementNode.destroy ++ [node.id]).Sublist
      (node.columns.flatMap ElementNode.destroy ++ node.values.flatMap ElementNode.destroy ++
        [node.id]) := (List.sublist_append_right _ _).append_right _
  have hall : ∀ ids : List ℕ, ids.Sublist (node.columns.flatMap ElementNode.destroy ++
      node.values.flatMap ElementNode.destroy ++ [node.id]) → ids.Nodup ∧ ∀ i ∈ ids, i < m :=
    fun ids hsub => ⟨(hperm.nodup_iff.mpr h.nodup).sublist hsub, fun i hi =>
      h.lt i (hperm.mem_iff.mp (hsub.subset hi))⟩
  unfold astDestroy
  rw [h.type]
  cases ty with
  | astInsert =>
    rw [h.valuesCount (Or.inl rfl), destroySlots_length]
    exact ⟨_, rfl, hall _ hvalues⟩
  | astSelect =>
    rw [h.columnCount (Or.inl rfl), destroySlots_length, hwhere (Or.inl rfl)]
    refine ⟨_, rfl, ?_⟩
    rw [List.append_nil]
    exact hall _ hcolumns
  | astCreateTable =>
    rw [h.columnCount (Or.inr (Or.inl rfl)), destroySlots_length]
    exact ⟨_, rfl, hall _ hcolumns⟩
  | astUpdate =>
    rw [h.columnCount (Or.inr (Or.inr rfl)), h.valuesCount (Or.inr rfl), destroySlots_length,
      destroySlots_length, hwhere (Or.inr (Or.inl rfl))]
    refine ⟨_, rfl, ?_⟩
    rw [List.append_nil]
    exact hall _ (List.Sublist.refl _)
  | astDelete =>
    rw [hwhere (Or.inr (Or.inr rfl))]
    exact ⟨_, rfl, hall _ (List.sublist_append_right _ _)⟩

/-- A statement in progress can be destroyed, unless it is an `UPDATE`. -/
theorem InProgress.destroy (h : InProgress ty node m) (hty : ty ≠ .astUpdate) :
    ∃ ids, astDestroy node = .ok ids ∧ ids.Nodup ∧ ∀ i ∈ ids, i < m := by
  refine h.toFilled.destroy ?_
  rintro (hselect | hupdate | hdelete)
  · exact h.whereNull (Or.inl hselect)
  · exact absurd hupdate hty
  · exact h.whereNull (Or.inr hdelete)

/-- `ast_destroy` follows the unassigned `where` of an `UPDATE`. -/
theorem InProgress.destroy_update (h : InProgress .astUpdate node m) :
    astDestroy node = .error .uninitialised := by
  unfold astDestroy
  rw [h.type, h.columnCount (Or.inr (Or.inr rfl)), h.valuesCount (Or.inr rfl), destroySlots_length,
    destroySlots_length, h.whereUnassigned rfl]
  rfl

/-- **Giving up a statement in progress.** -/
theorem InProgress.giveUp {α β : Type} {R : α → β → Prop} (h : InProgress ty node m)
    (e : ParseError) :
    BuildsAs R (ty = .astUpdate) (MiniDB.giveUp node e []) (.error (.error e)) := by
  unfold MiniDB.giveUp
  by_cases hty : ty = .astUpdate
  · subst hty
    rw [h.destroy_update]
    exact .undefined rfl
  · obtain ⟨ids, hids, hnodup, -⟩ := h.destroy hty
    rw [hids]
    exact .null hty hnodup

/-! ## Filling slots -/

/-- One more node. -/
theorem Filled.extend (h : Filled ty node m) (hids : node'.ids.Perm (m :: node.ids)) :
    node'.ids.Nodup ∧ ∀ i ∈ node'.ids, i < m + 1 := by
  constructor
  · exact hids.nodup_iff.mpr (List.nodup_cons.mpr ⟨fun hmem => lt_irrefl m (h.lt m hmem), h.nodup⟩)
  · intro i hi
    rcases List.mem_cons.mp (hids.mem_iff.mp hi) with rfl | hi
    · exact Nat.lt_succ_self i
    · exact Nat.lt_succ_of_lt (h.lt i hi)

theorem InProgress.addColumn (h : InProgress ty node m) (he : e.destroy = [m]) :
    InProgress ty (node.addColumn e) (m + 1) := by
  have hids : (node.addColumn e).ids.Perm (m :: node.ids) := by
    unfold StatementNode.ids StatementNode.addColumn
    simp only [List.flatMap_append, List.flatMap_singleton, he]
    refine (List.Perm.cons _ ?_).trans (List.Perm.swap _ _ _)
    rw [List.append_assoc]
    exact List.perm_middle
  obtain ⟨hnodup, hlt⟩ := h.toFilled.extend hids
  refine ⟨⟨h.type, fun hty => ?_, h.valuesCount, hnodup, hlt⟩, h.whereNull, h.whereUnassigned⟩
  show node.columnCount.map (· + 1) = some (node.columns ++ [e]).length
  rw [h.columnCount hty, List.length_append]
  rfl

theorem InProgress.addValue (h : InProgress ty node m) (he : e.destroy = [m]) :
    InProgress ty (node.addValue e) (m + 1) := by
  have hids : (node.addValue e).ids.Perm (m :: node.ids) := by
    unfold StatementNode.ids StatementNode.addValue
    simp only [List.flatMap_append, List.flatMap_singleton, he]
    refine (List.Perm.cons _ ?_).trans (List.Perm.swap _ _ _)
    rw [← List.append_assoc]
    exact List.perm_append_singleton _ _
  obtain ⟨hnodup, hlt⟩ := h.toFilled.extend hids
  refine ⟨⟨h.type, h.columnCount, fun hty => ?_, hnodup, hlt⟩, h.whereNull, h.whereUnassigned⟩
  show node.valuesCount.map (· + 1) = some (node.values ++ [e]).length
  rw [h.valuesCount hty, List.length_append]
  rfl

/-- The name of the table is a field that `ast_destroy` does not follow. -/
theorem InProgress.withTable (h : InProgress ty node m) (table : List UInt8) :
    InProgress ty { node with table := some table } m :=
  ⟨⟨h.type, h.columnCount, h.valuesCount, h.nodup, h.lt⟩, h.whereNull, h.whereUnassigned⟩

/-! ## What the nodes hold -/

/-- The node holds the expression. -/
inductive ElementNode.Holds : ElementNode → Expr → Prop
  | primary (id : ℕ) (e : Expr) : Holds (.primary id e) e
  | equals {id : ℕ} {left right : ElementNode} {l r : Expr} : left.Holds l → right.Holds r →
      Holds (.equals id left right) (.equals l r)

/-- The node holds the definition. -/
inductive ElementNode.Defines : ElementNode → ColumnDefinition → Prop
  | definition (id : ℕ) (d : ColumnDefinition) : Defines (.definition id d) d

/-- The node of a statement holds the tree. -/
inductive StatementNode.Holds : StatementNode → AstNode → Prop
  | insert {node : StatementNode} {table : List UInt8} {values : List Expr} :
      node.type = .astInsert → node.table = some table →
      List.Forall₂ ElementNode.Holds node.values values → Holds node (.insert table values)
  | select {node : StatementNode} {table : List UInt8} {isStar : Bool} {columns : List Expr}
      {where_ : Option Expr} {condition : Option ElementNode} : node.type = .astSelect →
      node.table = some table → node.isStar = some isStar →
      List.Forall₂ ElementNode.Holds node.columns columns → node.where_ = some condition →
      Option.Rel ElementNode.Holds condition where_ →
      Holds node (.select table isStar columns where_)
  | createTable {node : StatementNode} {table : List UInt8} {definitions : List ColumnDefinition} :
      node.type = .astCreateTable → node.table = some table →
      List.Forall₂ ElementNode.Defines node.columns definitions →
      Holds node (.createTable table definitions)
  | updateTable {node : StatementNode} {table : List UInt8} {columns values : List Expr}
      {where_ : Option Expr} {condition : Option ElementNode} : node.type = .astUpdate →
      node.table = some table → List.Forall₂ ElementNode.Holds node.columns columns →
      List.Forall₂ ElementNode.Holds node.values values → node.where_ = some condition →
      Option.Rel ElementNode.Holds condition where_ →
      Holds node (.updateTable table columns values where_)
  | deleteTable {node : StatementNode} {table : List UInt8} {where_ : Option Expr}
      {condition : Option ElementNode} : node.type = .astDelete → node.table = some table →
      node.where_ = some condition → Option.Rel ElementNode.Holds condition where_ →
      Holds node (.deleteTable table where_)

/-! ## Tokens and expressions -/

theorem InProgress.token (h : InProgress ty node m) (p : Parser) (type : TokenType)
    (expected : String) : BuildsAs Eq (ty = .astUpdate) (buildToken node p type expected)
      (expectToken p type expected) := by
  unfold buildToken expectToken
  split
  · exact .ok rfl
  · exact h.giveUp _

theorem InProgress.tableName (h : InProgress ty node m) (p : Parser) :
    BuildsAs (fun a b => a = ({ node with table := some b.1 }, b.2)) (ty = .astUpdate)
      (buildTableName node p) (parseTableName p) := by
  unfold buildTableName parseTableName
  split
  · exact .ok rfl
  · exact h.giveUp _

/-- The node of a primary expression. -/
theorem InProgress.element (h : InProgress ty node m) (p : Parser) (n : ℕ) :
    BuildsAs (fun a b => a = (.primary n b.1, b.2)) (ty = .astUpdate)
      (buildElement node p n) (parsePrimaryExpression p) := by
  unfold buildElement buildPrimaryExpression
  cases hrun : parsePrimaryExpression p with
  | ok r => exact .ok rfl
  | error f =>
    cases f with
    | error e => exact h.giveUp e
    | fault f => exact absurd hrun (answers_parsePrimaryExpression p f)

/-- **A condition.** Where it fails, its left side has been destroyed. -/
theorem buildExpression_buildsAs (p : Parser) (m : ℕ) :
    BuildsAs (fun a b => a.1.Holds b.1 ∧ a.2.1 = b.2) False (buildExpression p m)
      (parseExpression p) := by
  unfold buildExpression buildPrimaryExpression parseExpression
  cases hleft : parsePrimaryExpression p with
  | error f =>
    cases f with
    | error e => exact .null not_false List.nodup_nil
    | fault f => exact absurd hleft (answers_parsePrimaryExpression p f)
  | ok r =>
    obtain ⟨left, p₁⟩ := r
    dsimp only [bind, Except.bind, pure, Except.pure]
    split
    · cases hright : parsePrimaryExpression (parserAdvance p₁) with
      | error f =>
        cases f with
        | error e => exact .null not_false (List.nodup_singleton m)
        | fault f => exact absurd hright (answers_parsePrimaryExpression _ f)
      | ok r' => exact .ok ⟨.equals (.primary m left) (.primary (m + 1) r'.1), rfl⟩
    · exact .ok ⟨.primary m left, rfl⟩

/-- The nodes that a failing condition frees are its own. -/
theorem buildExpression_freed {e : ParseError} {freed : List ℕ}
    (h : buildExpression p m = .error (.null e freed)) : freed.Nodup ∧ ∀ i ∈ freed, m ≤ i := by
  unfold buildExpression buildPrimaryExpression at h
  cases hleft : parsePrimaryExpression p with
  | error f =>
    rw [hleft] at h
    cases f with
    | error e =>
      cases h
      exact ⟨List.nodup_nil, fun i hi => absurd hi List.not_mem_nil⟩
    | fault f => cases h
  | ok r =>
    rw [hleft] at h
    dsimp only [bind, Except.bind, pure, Except.pure] at h
    split at h
    · cases hright : parsePrimaryExpression (parserAdvance r.2) with
      | error f =>
        rw [hright] at h
        cases f with
        | error e =>
          cases h
          refine ⟨List.nodup_singleton m, fun i hi => ?_⟩
          rw [List.mem_singleton.mp hi]
        | fault f => cases h
      | ok r' =>
        rw [hright] at h
        cases h
    · cases h

/-- **The condition of a statement.** Its node can be destroyed, whatever its type is. -/
theorem Filled.condition (h : Filled ty node m) (p : Parser) :
    BuildsAs (fun a b => ∃ c m', a = ({ node with where_ := some (some c) }, b.2, m') ∧ c.Holds b.1)
      False (buildCondition node p m) (parseExpression p) := by
  have hexpr := buildExpression_buildsAs p m
  unfold buildCondition
  generalize parseExpression p = r at hexpr ⊢
  cases hbuild : buildExpression p m with
  | ok a =>
    rw [hbuild] at hexpr
    cases hexpr with
    | ok hab =>
      obtain ⟨c, p', m'⟩ := a
      obtain ⟨hholds, hp⟩ := hab
      obtain rfl : p' = _ := hp
      exact .ok ⟨c, m', rfl, hholds⟩
  | error f =>
    rw [hbuild] at hexpr
    cases hexpr with
    | undefined hfalse => exact hfalse.elim
    | fault => exact .fault
    | null _ hfreed =>
      obtain ⟨-, hge⟩ := buildExpression_freed hbuild
      have hnull : Filled ty { node with where_ := some none } m :=
        ⟨h.type, h.columnCount, h.valuesCount, h.nodup, h.lt⟩
      obtain ⟨ids, hids, hnodup, hlt⟩ := hnull.destroy fun _ => rfl
      dsimp only
      unfold MiniDB.giveUp
      rw [hids]
      refine .null not_false (List.nodup_append.mpr ⟨hfreed, hnodup, ?_⟩)
      intro i hi j hj heq
      have hlt' := hlt j hj
      have hge' := hge i hi
      omega

/-- The `WHERE` clause of a statement that may do without one. -/
theorem InProgress.where_ (h : InProgress ty node m) (hty : ty = .astSelect ∨ ty = .astDelete)
    (p : Parser) :
    BuildsAs (fun a b => ∃ c m', a = ({ node with where_ := some c }, b.2, m') ∧
        Option.Rel ElementNode.Holds c b.1)
      (ty = .astUpdate) (buildWhere node p m) (parseWhere p) := by
  have hne : ty ≠ .astUpdate := by
    rcases hty with rfl | rfl <;> decide
  unfold buildWhere parseWhere
  split
  · have hcondition := h.toFilled.condition (parserAdvance p)
    generalize buildCondition node (parserAdvance p) m = r at hcondition ⊢
    generalize parseExpression (parserAdvance p) = r' at hcondition ⊢
    cases hcondition with
    | ok hab =>
      obtain ⟨c, m', rfl, hholds⟩ := hab
      exact .ok ⟨some c, m', rfl, .some hholds⟩
    | null _ hfreed => exact .null hne hfreed
    | undefined hbad => exact hbad.elim
    | fault => exact .fault
  · refine .ok ⟨none, m, ?_, .none⟩
    rw [← h.whereNull hty]

/-! ## Lists -/

theorem InProgress.selectColumns {columns : List Expr} (h : InProgress ty node m)
    (hty : ty = .astSelect) (hcolumns : List.Forall₂ ElementNode.Holds node.columns columns) :
    BuildsAs (fun a b => ∃ node' m', a = (node', b.2, m') ∧ InProgress ty node' m' ∧
        List.Forall₂ ElementNode.Holds node'.columns b.1 ∧ node'.isStar = node.isStar)
      (ty = .astUpdate) (buildSelectColumns rounds p node m)
      (parseSelectColumns rounds p columns) := by
  induction rounds generalizing p node m columns with
  | zero => exact .fault
  | succ rounds ih =>
    unfold buildSelectColumns parseSelectColumns
    split
    · exact .ok ⟨node, m, rfl, h, hcolumns, rfl⟩
    split
    · exact ih h hcolumns
    split
    · exact h.giveUp _
    rw [h.columnCount (Or.inl hty), hcolumns.length_eq]
    show BuildsAs _ _ (if _ then _ else _) _
    split
    · exact h.giveUp _
    refine (h.element p m).bind ?_
    rintro _ ⟨e, q⟩ rfl
    exact ih (h.addColumn rfl) (List.rel_append hcolumns (.cons (.primary m e) .nil))

theorem InProgress.values {values : List Expr} (h : InProgress ty node m)
    (hvalues : List.Forall₂ ElementNode.Holds node.values values) :
    BuildsAs (fun a b => ∃ node' m', a = (node', b.2, m') ∧ InProgress ty node' m' ∧
        List.Forall₂ ElementNode.Holds node'.values b.1 ∧ node'.table = node.table)
      (ty = .astUpdate) (buildValues rounds p node m) (parseValues rounds p values) := by
  induction rounds generalizing p node m values with
  | zero => exact .fault
  | succ rounds ih =>
    unfold buildValues parseValues
    split
    · exact .ok ⟨node, m, rfl, h, hvalues, rfl⟩
    split
    · exact ih h hvalues
    rw [hvalues.length_eq]
    split
    · exact h.giveUp _
    refine (h.element p m).bind ?_
    rintro _ ⟨e, q⟩ rfl
    exact ih (h.addValue rfl) (List.rel_append hvalues (.cons (.primary m e) .nil))

theorem InProgress.assignments {columns values : List Expr} (h : InProgress ty node m)
    (hty : ty = .astUpdate) (hcolumns : List.Forall₂ ElementNode.Holds node.columns columns)
    (hvalues : List.Forall₂ ElementNode.Holds node.values values) :
    BuildsAs (fun a b => ∃ node' m', a = (node', b.2.2, m') ∧ InProgress ty node' m' ∧
        List.Forall₂ ElementNode.Holds node'.columns b.1 ∧
        List.Forall₂ ElementNode.Holds node'.values b.2.1 ∧ node'.table = node.table)
      (ty = .astUpdate) (buildAssignments rounds p node m)
      (parseAssignments rounds p columns values) := by
  induction rounds generalizing p node m columns values with
  | zero => exact .fault
  | succ rounds ih =>
    unfold buildAssignments parseAssignments
    split
    · exact .ok ⟨node, m, rfl, h, hcolumns, hvalues, rfl⟩
    split
    · exact ih h hcolumns hvalues
    split
    · exact h.giveUp _
    rw [h.columnCount (Or.inr (Or.inr hty)), hcolumns.length_eq]
    show BuildsAs _ _ (if _ then _ else _) _
    split
    · exact h.giveUp _
    refine (h.element p m).bind ?_
    rintro _ ⟨column, q⟩ rfl
    have h' := h.addColumn (e := .primary m column) rfl
    refine (h'.token q _ _).bind ?_
    rintro q' _ rfl
    rw [h'.valuesCount (Or.inr hty)]
    show BuildsAs _ _ (if maxTableColumns ≤ node.values.length then _ else _) _
    rw [hvalues.length_eq]
    split
    · exact h'.giveUp _
    refine (h'.element q' (m + 1)).bind ?_
    rintro _ ⟨value, q''⟩ rfl
    exact ih (h'.addValue rfl) (List.rel_append hcolumns (.cons (.primary m column) .nil))
      (List.rel_append hvalues (.cons (.primary (m + 1) value) .nil))

/-- A column definition. Where it fails, the node that it was read for is freed behind the
others. -/
theorem InProgress.columnDefinition (h : InProgress ty node m) (p : Parser) :
    BuildsAs (fun a b => a = (.definition m b.1, b.2)) (ty = .astUpdate)
      (buildColumnDefinition node p m) (parseColumnDefinition p) := by
  unfold buildColumnDefinition
  cases hrun : parseColumnDefinition p with
  | ok r => exact .ok rfl
  | error f =>
    cases f with
    | fault f => exact absurd hrun (answers_parseColumnDefinition p f)
    | error e =>
      dsimp only
      by_cases hty : ty = .astUpdate
      · subst hty
        rw [h.destroy_update]
        exact .undefined rfl
      · obtain ⟨ids, hids, hnodup, hlt⟩ := h.destroy hty
        rw [hids]
        refine .null hty (List.nodup_append.mpr ⟨hnodup, List.nodup_singleton m, ?_⟩)
        intro i hi j hj heq
        rw [List.mem_singleton.mp hj] at heq
        exact absurd (hlt i hi) (by omega)

theorem InProgress.columnDefinitions {definitions : List ColumnDefinition}
    (h : InProgress ty node m) (hty : ty = .astCreateTable)
    (hcolumns : List.Forall₂ ElementNode.Defines node.columns definitions) :
    BuildsAs (fun a b => ∃ node' m', a = (node', b.2, m') ∧ InProgress ty node' m' ∧
        List.Forall₂ ElementNode.Defines node'.columns b.1 ∧ node'.table = node.table)
      (ty = .astUpdate) (buildColumnDefinitions rounds p node m)
      (parseColumnDefinitions rounds p definitions) := by
  induction rounds generalizing p node m definitions with
  | zero => exact .fault
  | succ rounds ih =>
    unfold buildColumnDefinitions parseColumnDefinitions
    split
    · exact .ok ⟨node, m, rfl, h, hcolumns, rfl⟩
    rw [h.columnCount (Or.inr (Or.inl hty)), hcolumns.length_eq]
    have hcomma : BuildsAs Eq (ty = .astUpdate) (if definitions.length = 0 then pure p
        else buildToken node p .tokenComma "',' or ')'") (if definitions.length = 0 then pure p
        else expectToken p .tokenComma "',' or ')'") := by
      split
      · exact .ok rfl
      · exact h.token p _ _
    refine hcomma.bind ?_
    rintro q _ rfl
    split
    · exact h.giveUp _
    refine (h.columnDefinition q).bind ?_
    rintro _ ⟨d, q'⟩ rfl
    exact ih (h.addColumn rfl) (List.rel_append hcolumns (.cons (.definition m d) .nil))

/-! ## Statements -/

/-- A node from `malloc` with its counts. -/
theorem inProgress_malloc (id : ℕ) (node : StatementNode) (htype : node.type = ty)
    (hid : node.id = id) (hcolumns : node.columns = []) (hvalues : node.values = [])
    (hcolumn : ty = .astSelect ∨ ty = .astCreateTable ∨ ty = .astUpdate → node.columnCount = some 0)
    (hvalue : ty = .astInsert ∨ ty = .astUpdate → node.valuesCount = some 0)
    (hnull : ty = .astSelect ∨ ty = .astDelete → node.where_ = some none)
    (hunassigned : ty = .astUpdate → node.where_ = none) : InProgress ty node (id + 1) := by
  have hids : node.ids = [id] := by
    unfold StatementNode.ids
    rw [hcolumns, hvalues, hid]
    rfl
  refine ⟨⟨htype, fun h => ?_, fun h => ?_, ?_, ?_⟩, hnull, hunassigned⟩
  · rw [hcolumns, hcolumn h, List.length_nil]
  · rw [hvalues, hvalue h, List.length_nil]
  · rw [hids]
    exact List.nodup_singleton id
  · intro i hi
    rw [hids] at hi
    rw [List.mem_singleton.mp hi]
    exact Nat.lt_succ_self id

/-- The result of a building function holds the tree. -/
def HoldsTree (a : StatementNode × Parser × ℕ) (b : AstNode × Parser) : Prop :=
  a.2.1 = b.2 ∧ a.1.Holds b.1

/-- The keyword that a statement begins with. -/
theorem buildsAs_keyword {α β : Type} {R : α → β → Prop} {bad : Prop} {r : Build α}
    {r' : Parser → Parse β} {type : TokenType} {expected : String} (hbad : ¬ bad)
    (h : BuildsAs R bad r (r' (parserAdvance p))) :
    BuildsAs R bad (if p.current.type ≠ type then .error (.null (p.errorAt expected) []) else r)
      (expectToken p type expected >>= r') := by
  unfold expectToken
  by_cases htype : p.current.type = type
  · rw [if_neg (not_not.mpr htype), if_pos htype]
    exact h
  · rw [if_pos htype, if_neg htype]
    exact .null hbad List.nodup_nil

theorem buildSelectStatement_buildsAs (p : Parser) (m : ℕ) :
    BuildsAs HoldsTree (StatementType.astSelect = .astUpdate) (buildSelectStatement p m)
      (parseSelectStatement p) := by
  refine buildsAs_keyword (by decide) ?_
  have hnode : ∀ star, InProgress .astSelect { StatementNode.malloc m .astSelect with
      isStar := some star, columnCount := some 0, where_ := some none } (m + 1) := fun star =>
    inProgress_malloc m _ rfl rfl rfl rfl (fun _ => rfl) (by rintro (h | h) <;> cases h)
      (fun _ => rfl) (by rintro ⟨⟩)
  have hlist : ∀ q : Parser, BuildsAs (fun a b => ∃ node' m', a = (node', b.2, m') ∧
      InProgress .astSelect node' m' ∧ List.Forall₂ ElementNode.Holds node'.columns b.1 ∧
      node'.isStar = some (decide (q.current.type = .tokenStar)))
      (StatementType.astSelect = .astUpdate)
      (if q.current.type = .tokenStar then pure ({ StatementNode.malloc m .astSelect with
          isStar := some true, columnCount := some 0, where_ := some none }, parserAdvance q, m + 1)
        else buildSelectColumns q.rounds q { StatementNode.malloc m .astSelect with
          isStar := some false, columnCount := some 0, where_ := some none } (m + 1))
      (if q.current.type = .tokenStar then pure ([], parserAdvance q)
        else parseSelectColumns q.rounds q []) := by
    intro q
    by_cases hstar : q.current.type = .tokenStar
    · rw [if_pos hstar, if_pos hstar]
      exact .ok ⟨_, m + 1, rfl, hnode true, .nil, by simp [hstar]⟩
    · rw [if_neg hstar, if_neg hstar, decide_eq_false hstar]
      exact (hnode false).selectColumns rfl .nil
  refine (hlist (parserAdvance p)).bind ?_
  rintro _ ⟨columns, q⟩ ⟨node, m', rfl, hprogress, hcolumns, hstar⟩
  refine (hprogress.token q _ _).bind ?_
  rintro q' _ rfl
  refine (hprogress.tableName q').bind ?_
  rintro _ ⟨table, q''⟩ rfl
  refine ((hprogress.withTable table).where_ (Or.inl rfl) q'').bind_right ?_
  rintro _ ⟨where_, q₃⟩ ⟨c, m'', rfl, hholds⟩
  exact ⟨_, rfl, rfl, .select hprogress.type rfl hstar hcolumns rfl hholds⟩

theorem buildInsertStatement_buildsAs (p : Parser) (m : ℕ) :
    BuildsAs HoldsTree (StatementType.astInsert = .astUpdate) (buildInsertStatement p m)
      (parseInsertStatement p) := by
  refine buildsAs_keyword (by decide) ?_
  have hnode : InProgress .astInsert { StatementNode.malloc m .astInsert with
      valuesCount := some 0 } (m + 1) :=
    inProgress_malloc m _ rfl rfl rfl rfl (by rintro (h | h | h) <;> cases h) (fun _ => rfl)
      (by rintro (h | h) <;> cases h) (by rintro ⟨⟩)
  refine (hnode.token _ _ _).bind ?_
  rintro q _ rfl
  refine (hnode.tableName q).bind ?_
  rintro _ ⟨table, q₁⟩ rfl
  have htable := hnode.withTable table
  refine (htable.token q₁ _ _).bind ?_
  rintro q₂ _ rfl
  refine (htable.token q₂ _ _).bind ?_
  rintro q₃ _ rfl
  refine (htable.values (p := q₃) .nil).bind ?_
  rintro _ ⟨values, q₄⟩ ⟨node, m', rfl, hprogress, hvalues, hname⟩
  refine (hprogress.token q₄ _ _).bind ?_
  rintro q₅ _ rfl
  exact .ok ⟨rfl, .insert hprogress.type hname hvalues⟩

/-- **In front of its condition** an `UPDATE` cannot be given up. -/
theorem buildUpdateHead_buildsAs (p : Parser) (m : ℕ) :
    BuildsAs (fun a b => ∃ node m', a = (node, b.2.2.2, m') ∧ InProgress .astUpdate node m' ∧
        node.table = some b.1 ∧ List.Forall₂ ElementNode.Holds node.columns b.2.1 ∧
        List.Forall₂ ElementNode.Holds node.values b.2.2.1) (StatementType.astUpdate = .astUpdate)
      (buildUpdateHead { StatementNode.malloc m .astUpdate with
        columnCount := some 0, valuesCount := some 0 } p (m + 1)) (parseUpdateHead p) := by
  have hnode : InProgress .astUpdate { StatementNode.malloc m .astUpdate with
      columnCount := some 0, valuesCount := some 0 } (m + 1) :=
    inProgress_malloc m _ rfl rfl rfl rfl (fun _ => rfl) (fun _ => rfl)
      (by rintro (h | h) <;> cases h) (fun _ => rfl)
  refine (hnode.tableName p).bind ?_
  rintro _ ⟨table, q⟩ rfl
  have htable := hnode.withTable table
  refine (htable.token q _ _).bind ?_
  rintro q₁ _ rfl
  refine (htable.assignments (p := q₁) rfl .nil .nil).bind ?_
  rintro _ ⟨columns, values, q₂⟩ ⟨node, m', rfl, hprogress, hcolumns, hvalues, hname⟩
  refine (hprogress.token q₂ _ _).bind ?_
  rintro q₃ _ rfl
  exact .ok ⟨node, m', rfl, hprogress, hname, hcolumns, hvalues⟩

theorem buildUpdateStatement_buildsAs (p : Parser) (m : ℕ) :
    BuildsAs HoldsTree False (buildUpdateStatement p m) (parseUpdateStatement p) := by
  refine buildsAs_keyword not_false ?_
  have hhead := buildUpdateHead_buildsAs (parserAdvance p) m
  dsimp only
  generalize buildUpdateHead _ (parserAdvance p) (m + 1) = r at hhead ⊢
  generalize hrun : parseUpdateHead (parserAdvance p) = r' at hhead ⊢
  cases hhead with
  | undefined => exact .fault
  | null hbad => exact absurd rfl hbad
  | fault => exact absurd hrun (parseUpdateHead_answers _ _)
  | @ok _ b hab =>
    obtain ⟨node, m', rfl, hprogress, hname, hcolumns, hvalues⟩ := hab
    obtain ⟨table, columns, values, q⟩ := b
    refine (hprogress.toFilled.condition q).bind_right ?_
    rintro _ ⟨where_, q'⟩ ⟨c, m'', rfl, hholds⟩
    exact ⟨_, rfl, rfl, .updateTable hprogress.type hname hcolumns hvalues rfl (.some hholds)⟩

theorem buildDeleteStatement_buildsAs (p : Parser) (m : ℕ) :
    BuildsAs HoldsTree (StatementType.astDelete = .astUpdate) (buildDeleteStatement p m)
      (parseDeleteStatement p) := by
  refine buildsAs_keyword (by decide) ?_
  have hnode : InProgress .astDelete { StatementNode.malloc m .astDelete with
      where_ := some none } (m + 1) :=
    inProgress_malloc m _ rfl rfl rfl rfl (by rintro (h | h | h) <;> cases h)
      (by rintro (h | h) <;> cases h) (fun _ => rfl) (by rintro ⟨⟩)
  refine (hnode.token _ _ _).bind ?_
  rintro q _ rfl
  refine (hnode.tableName q).bind ?_
  rintro _ ⟨table, q₁⟩ rfl
  refine ((hnode.withTable table).where_ (Or.inr rfl) q₁).bind_right ?_
  rintro _ ⟨where_, q₂⟩ ⟨c, m', rfl, hholds⟩
  exact ⟨_, rfl, rfl, .deleteTable rfl rfl rfl hholds⟩

/-- The definitions are read back from the nodes. -/
theorem mapM_asColumnDefinition {elements : List ElementNode} {definitions : List ColumnDefinition}
    (h : List.Forall₂ ElementNode.Defines elements definitions) :
    elements.mapM ElementNode.asColumnDefinition = .ok definitions := by
  induction h with
  | nil => rfl
  | cons hd _ ih =>
    obtain ⟨id, d⟩ := hd
    rw [List.mapM_cons, ih]
    rfl

theorem buildCreateStatement_buildsAs (p : Parser) (m : ℕ) :
    BuildsAs HoldsTree (StatementType.astCreateTable = .astUpdate) (buildCreateStatement p m)
      (parseCreateStatement p) := by
  refine buildsAs_keyword (by decide) ?_
  have hnode : InProgress .astCreateTable { StatementNode.malloc m .astCreateTable with
      columnCount := some 0 } (m + 1) :=
    inProgress_malloc m _ rfl rfl rfl rfl (fun _ => rfl) (by rintro (h | h) <;> cases h)
      (by rintro (h | h) <;> cases h) (by rintro ⟨⟩)
  refine (hnode.token _ _ _).bind ?_
  rintro q _ rfl
  refine (hnode.tableName q).bind ?_
  rintro _ ⟨table, q₁⟩ rfl
  have htable := hnode.withTable table
  refine (htable.token q₁ _ _).bind ?_
  rintro q₂ _ rfl
  refine (htable.columnDefinitions (p := q₂) rfl .nil).bind ?_
  rintro _ ⟨definitions, q₃⟩ ⟨node, m', rfl, hprogress, hcolumns, hname⟩
  refine (hprogress.token q₃ _ _).bind ?_
  rintro q₄ _ rfl
  rw [mapM_asColumnDefinition hcolumns]
  dsimp only
  generalize definitions.filter ColumnDefinition.isPrimary = primaries
  match primaries with
  | [] => exact hprogress.giveUp _
  | _ :: _ :: _ => exact hprogress.giveUp _
  | [primary] =>
    dsimp only
    split
    · exact .ok ⟨rfl, .createTable hprogress.type hname hcolumns⟩
    · exact hprogress.giveUp _

/-! ## What an `UPDATE` reads in front of its condition -/

/-- `table SET column = value ... WHERE`, with at most eight assignments, and commas anywhere
between, in front of and behind them. -/
inductive SpellsUpdateHead : List Token → Prop
  | mk {t t₁ t₂ : Token} {assignments : List (Expr × Expr)} {ts : List Token} :
      t.type = .tokenIdentifier → t₁.type = .tokenSet → Scattered SpellsAssignment assignments ts →
      assignments.length ≤ maxTableColumns → t₂.type = .tokenWhere →
      SpellsUpdateHead (t :: t₁ :: (ts ++ [t₂]))

/-- The text goes on with such tokens. -/
def ReadsUpdateHead (p : Parser) : Prop := ∃ ts q, Advances p ts q ∧ SpellsUpdateHead ts

theorem Advances.split {q : Parser} {ts us : List Token} (h : Advances p (ts ++ us) q) :
    ∃ p', Advances p ts p' ∧ Advances p' us q := by
  induction ts generalizing p with
  | nil => exact ⟨p, .refl p, h⟩
  | cons t ts ih =>
    obtain ⟨p', hts, hus⟩ := ih h.tail
    rw [h.head]
    exact ⟨p', .step hts, hus⟩

theorem expectToken_of_type {type : TokenType} {expected : String} (h : p.current.type = type) :
    expectToken p type expected = .ok (parserAdvance p) := if_pos h

theorem SpellsPrimary.parse {e : Expr} (h : SpellsPrimary e p.current) :
    parsePrimaryExpression p = .ok (e, parserAdvance p) := by
  unfold parsePrimaryExpression
  generalize htoken : p.current = t at h
  cases h with
  | integer htype | string htype | column htype | true htype | false htype => rw [htype]

/-- **Assignments that are there are read.** -/
theorem parseAssignments_reads {q : Parser} {columns values : List Expr} {xs : List (Expr × Expr)}
    {ts : List Token} (hs : Scattered SpellsAssignment xs ts) (hadv : Advances p ts q)
    (hend : q.current.type = .tokenWhere) (hlen : columns.length = values.length)
    (hfit : columns.length + xs.length ≤ maxTableColumns)
    (hfuel : p.unread + (maxTableColumns - columns.length) < rounds) :
    ∃ columns' values', parseAssignments rounds p columns values = .ok (columns', values', q) := by
  induction hs generalizing p columns values rounds with
  | nil =>
    obtain ⟨k, rfl⟩ : ∃ k, rounds = k + 1 := ⟨rounds - 1, by omega⟩
    cases hadv
    exact ⟨columns, values, if_pos (Or.inr hend)⟩
  | comma ht _ ih =>
    obtain ⟨k, rfl⟩ : ∃ k, rounds = k + 1 := ⟨rounds - 1, by omega⟩
    rw [hadv.head] at ht
    have hlt := unread_comma ht
    have hless : (parserAdvance p).unread + (maxTableColumns - columns.length) < k := by omega
    obtain ⟨columns', values', hrun⟩ := ih hadv.tail hlen hfit hless
    refine ⟨columns', values', ?_⟩
    unfold parseAssignments
    rw [if_neg (by rw [ht]; decide), if_pos ht, hrun]
  | cons hx _ ih =>
    obtain ⟨k, rfl⟩ : ∃ k, rounds = k + 1 := ⟨rounds - 1, by omega⟩
    obtain @⟨t, eq, u, value, ht, heq, hvalue⟩ := hx
    obtain ⟨p₁, hone, hrest⟩ := hadv.split
    have h₁ := hone.head
    have h₂ := hone.tail.head
    have h₃ := hone.tail.tail.head
    obtain rfl : p₁ = parserAdvance (parserAdvance (parserAdvance p)) := by
      cases hone with
      | step hone =>
        cases hone with
        | step hone =>
          cases hone with
          | step hone =>
            cases hone
            rfl
    subst h₁ h₂ h₃
    have hle₁ := unread_parserAdvance_le p
    have hle₂ := unread_parserAdvance_le (parserAdvance p)
    have hle₃ := unread_parserAdvance_le (parserAdvance (parserAdvance p))
    rw [List.length_cons] at hfit
    have hlen' : (columns ++ [Expr.column p.current.text]).length = (values ++ [value]).length := by
      rw [List.length_append, List.length_append, hlen]
      rfl
    have hcount : (columns ++ [Expr.column p.current.text]).length = columns.length + 1 :=
      List.length_append
    have hless : (parserAdvance (parserAdvance (parserAdvance p))).unread +
        (maxTableColumns - (columns ++ [Expr.column p.current.text]).length) < k := by omega
    obtain ⟨columns', values', hrun⟩ := ih hrest hlen' (by omega) hless
    refine ⟨columns', values', ?_⟩
    unfold parseAssignments
    rw [if_neg (by rw [ht]; decide), if_neg (by rw [ht]; decide), if_neg (not_not.mpr ht),
      if_neg (by omega), parsePrimaryExpression_identifier ht, ok_bind]
    dsimp only
    rw [expectToken_of_type heq, ok_bind, if_neg (by omega), hvalue.parse, ok_bind]
    exact hrun

/-- **Exactly such a text is read up to the condition.** -/
theorem parseUpdateHead_iff (p : Parser) :
    (∃ r, parseUpdateHead p = .ok r) ↔ ReadsUpdateHead p := by
  constructor
  · rintro ⟨⟨table, columns, values, q⟩, hrun⟩
    have hfit := (parseUpdateHead_length hrun).1
    unfold parseUpdateHead at hrun
    obtain ⟨⟨table', p₁⟩, htable, hrun⟩ := bind_eq_ok hrun
    obtain ⟨hname, -, rfl⟩ := parseTableName_eq_ok htable
    obtain ⟨p₂, hset, hrun⟩ := bind_eq_ok hrun
    obtain ⟨hkeyword, rfl⟩ := expectToken_eq_ok hset
    obtain ⟨⟨columns', values', p₃⟩, hassign, hrun⟩ := bind_eq_ok hrun
    obtain ⟨p₄, hwhere, hrun⟩ := bind_eq_ok hrun
    obtain ⟨hlast, rfl⟩ := expectToken_eq_ok hwhere
    cases hrun
    obtain ⟨xs, ts, hxs, -, hadv, hspells⟩ := parseAssignments_spells hassign
    rw [hxs, List.nil_append, List.length_map] at hfit
    exact ⟨_, _, .step (.step (hadv.trans (.one p₃))), .mk hname hkeyword hspells hfit hlast⟩
  · rintro ⟨_, q, hadv, hname, hset, hspells, hfit, hwhere⟩
    have h₁ := hadv.head
    have h₂ := hadv.tail.head
    subst h₁ h₂
    obtain ⟨p₃, hlist, hlast⟩ := hadv.tail.tail.split
    have h₃ := hlast.head
    subst h₃
    have hless : (parserAdvance (parserAdvance p)).unread +
        (maxTableColumns - ([] : List Expr).length) < (parserAdvance (parserAdvance p)).rounds :=
      unread_lt_rounds _
    obtain ⟨columns, values, hrun⟩ := parseAssignments_reads hspells hlist hwhere rfl
      (by rw [List.length_nil]; omega) hless
    refine ⟨(p.current.text, columns, values, parserAdvance p₃), ?_⟩
    unfold parseUpdateHead parseTableName
    rw [if_pos hname, ok_bind]
    dsimp only
    rw [expectToken_of_type hset, ok_bind, hrun, ok_bind]
    dsimp only
    rw [expectToken_of_type hwhere]
    rfl

/-! ## What is destroyed -/

/-- If the function fails, `ast_destroy` has met assigned fields only, and no node twice. -/
def DestroysBuilt {α : Type} : Build α → Prop
  | .ok _ => True
  | .error (.null _ freed) => freed.Nodup
  | .error (.fault _) => False

theorem BuildsAs.destroysBuilt {α β : Type} {R : α → β → Prop} {bad : Prop} {r : Build α}
    {r' : Parse β} (h : BuildsAs R bad r r') (hbad : ¬ bad) (hr : Answers r') :
    DestroysBuilt r := by
  cases h with
  | ok => trivial
  | null _ hfreed => exact hfreed
  | undefined hbad' => exact hbad hbad'
  | fault => exact absurd rfl (hr _)

/-- **An `UPDATE`** destroys what was built exactly when it is read up to its condition. -/
theorem buildUpdateStatement_destroysBuilt (p : Parser) (m : ℕ) :
    DestroysBuilt (buildUpdateStatement p m) ↔
      (p.current.type = .tokenUpdate → ReadsUpdateHead (parserAdvance p)) := by
  have hbuild := buildUpdateStatement_buildsAs p m
  rw [← parseUpdateHead_iff]
  constructor
  · intro hdestroys hkeyword
    cases hhead : parseUpdateHead (parserAdvance p) with
    | ok r => exact ⟨r, rfl⟩
    | error f =>
      have hparse : parseUpdateStatement p = .error (.fault .uninitialised) := by
        unfold parseUpdateStatement
        rw [expectToken_of_type hkeyword, ok_bind, hhead]
      rw [hparse] at hbuild
      generalize buildUpdateStatement p m = r at hbuild hdestroys
      cases hbuild
      exact hdestroys.elim
  · intro hreads
    refine hbuild.destroysBuilt not_false ?_
    unfold parseUpdateStatement
    by_cases hkeyword : p.current.type = .tokenUpdate
    · obtain ⟨r, hhead⟩ := hreads hkeyword
      rw [expectToken_of_type hkeyword, ok_bind, hhead]
      exact (answers_parseExpression _).bind fun a _ => Answers.ok _
    · unfold expectToken
      rw [if_neg hkeyword]
      exact Answers.setError p "UPDATE"

/-- The functions of the parser. -/
def statementBuilders : List (Parser → ℕ → Build (StatementNode × Parser × ℕ)) :=
  [buildSelectStatement, buildInsertStatement, buildUpdateStatement, buildDeleteStatement,
    buildCreateStatement]

/-- **The error paths destroy what was built**, exactly unless an `UPDATE` fails in front of its
condition. -/
theorem destroysBuilt_iff (p : Parser) (m : ℕ) :
    ((∀ build ∈ statementBuilders, DestroysBuilt (build p m)) ∧
      DestroysBuilt (buildExpression p m)) ↔
      (p.current.type = .tokenUpdate → ReadsUpdateHead (parserAdvance p)) := by
  rw [← buildUpdateStatement_destroysBuilt p m]
  constructor
  · intro hall
    exact hall.1 _ (by simp [statementBuilders])
  · intro hupdate
    refine ⟨?_, (buildExpression_buildsAs p m).destroysBuilt not_false (answers_parseExpression p)⟩
    intro build hmem
    simp only [statementBuilders, List.mem_cons, List.not_mem_nil, or_false] at hmem
    rcases hmem with rfl | rfl | rfl | rfl | rfl
    · exact (buildSelectStatement_buildsAs p m).destroysBuilt (by decide)
        (parseSelectStatement_answers p)
    · exact (buildInsertStatement_buildsAs p m).destroysBuilt (by decide)
        (parseInsertStatement_answers p)
    · exact hupdate
    · exact (buildDeleteStatement_buildsAs p m).destroysBuilt (by decide)
        (parseDeleteStatement_answers p)
    · exact (buildCreateStatement_buildsAs p m).destroysBuilt (by decide)
        (parseCreateStatement_answers p)

/-- An `UPDATE` without its `SET`. -/
theorem not_destroysBuilt_update :
    ¬ DestroysBuilt (buildUpdateStatement (parserInit (ascii "UPDATE notes")) 0) := by
  have hrun : buildUpdateStatement (parserInit (ascii "UPDATE notes")) 0 =
    .error (.fault .uninitialised) := rfl
  rw [hrun]
  exact id

end MiniDB
