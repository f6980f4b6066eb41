import SqlDraft.Proofs.Reading.Weave
import SqlDraft.Proofs.Tree.Texts

/-! A statement is laid out without regard to what its string literals say: blanking the tokens of
its parts blanks its own (`Site.statement_blank`), and whether it can be written at all does not
depend on it. -/

namespace SqlDraft.Sql

open Reading

/-- The tokens with nothing of what the literals among them say. -/
def blank (ts : Tokens) : Tokens := ts.map blankToken

theorem blank_append (xs ys : Tokens) : blank (xs ++ ys) = blank xs ++ blank ys :=
  List.map_append

theorem blank_enclosed (ts : Tokens) : blank ts.enclosed = (blank ts).enclosed := by
  simp [blank, Tokens.enclosed, blankToken]

theorem blank_separated {sep : Tokens} (hs : blank sep = sep) (parts : List Tokens) :
    blank (Tokens.separated sep parts) = Tokens.separated sep (parts.map blank) := by
  induction parts with
  | nil => rfl
  | cons p parts ih =>
    cases parts with
    | nil => simp [Tokens.separated]
    | cons r parts =>
      simp only [Tokens.separated, List.map_cons, List.intercalate_cons_cons, blank_append, hs]
        at ih ⊢
      rw [ih]

theorem blank_listed (parts : List Tokens) :
    blank (Tokens.listed parts) = Tokens.listed (parts.map blank) := blank_separated rfl parts

theorem blank_spaced (parts : List Tokens) :
    blank (Tokens.spaced parts) = Tokens.spaced (parts.map blank) := blank_separated rfl parts

namespace Site

/-! ## Calls -/

theorem operand_blank (s : Site) (misread : Rat → Bool) (e : Expr) (ts : Tokens) :
    s.operand misread e (blank ts) = blank (s.operand misread e ts) := by
  unfold operand
  split
  · split
    · exact (blank_enclosed ts).symm
    · rfl
  · rfl

/-- The argument with its tokens blanked. -/
def blankArgument (a : Argument) : Argument := ⟨a.expr, a.outcome.map blank⟩

theorem operandAt_blank (s : Site) (function : String) (args : List Argument) (i : Nat)
    (misread : Rat → Bool) :
    s.operandAt function (args.map blankArgument) i misread =
      (s.operandAt function args i misread).map blank := by
  unfold operandAt
  rw [List.getElem?_map]
  cases args[i]? with
  | none => rfl
  | some a => simp [blankArgument, map_map, operand_blank]

theorem containerAt_blank (s : Site) (function : String) (args : List Argument) (i : Nat) :
    s.containerAt function (args.map blankArgument) i =
      (s.containerAt function args i).map blank := by
  unfold containerAt
  rw [List.getElem?_map]
  cases args[i]? with
  | none => rfl
  | some a =>
    show container (blankArgument a) = (container a).map blank
    unfold container blankArgument
    dsimp only
    cases a.expr with
    | list vs t => rfl
    | subquery q => rfl
    | _ => simp [map_map, blank_enclosed]

theorem outcomes_blank (args : List Argument) :
    (args.map blankArgument).map Argument.outcome =
      (args.map Argument.outcome).map (Except.map blank) := by
  simp [blankArgument, Function.comp_def]

theorem call_blank {f : Flavor} {s : Site} (hs : s.dialect = f.dialect) (function : String)
    (args : List Argument) :
    s.call function (args.map blankArgument) = (s.call function args).map blank := by
  unfold call
  cases hr : s.dialect.rule? function with
  | none => rfl
  | some r =>
    show s.apply function (args.map blankArgument) r = (s.apply function args r).map blank
    unfold apply
    cases r with
    | custom write =>
      have hw : ∀ parts, blank (write parts) = write (parts.map blank) := by
        rcases f.isWord_of_rule? (hs ▸ hr) with ⟨w, hw, -⟩ | ht
        · cases hw
        · cases ht
          exact fun parts => rfl
      dsimp only
      rw [outcomes_blank, gather_map, bind_map, map_bind]
      simp only [map_pure, hw]
    | call n =>
      dsimp only
      rw [outcomes_blank, gather_map, bind_map, map_bind]
      simp only [map_pure, ← blank_listed, ← blank_enclosed]
      rfl
    | _ =>
      simp only [operandAt_blank, containerAt_blank, bind_map, map_bind, map_pure, blank_append]
      rfl

/-! ## Clauses -/

theorem introduced_blank (s : Site) (k : Keyword) (ts : Tokens) :
    blank (s.introduced k ts) = s.introduced k (blank ts) := rfl

theorem tableName_blank (s : Site) (t : Table) : blank (s.tableName t) = s.tableName t := by
  unfold tableName
  split <;> rfl

theorem clause?_blank (s : Site) (c : Clause) (o : Option (Outcome Tokens)) :
    s.clause? c (o.map (Except.map blank)) = (s.clause? c o).map (List.map blank) := by
  unfold clause?
  rw [gatherOption_map, bind_map, map_bind]
  refine congrArg _ (funext fun t => ?_)
  cases t <;> rfl

theorem listed?_blank (s : Site) (k : Keyword) (os : List (Outcome Tokens)) :
    s.listed? k (os.map (Except.map blank)) = (s.listed? k os).map (List.map blank) := by
  unfold listed?
  rw [gather_map, bind_map, map_bind]
  refine congrArg _ (funext fun ts => ?_)
  cases ts with
  | nil => rfl
  | cons t ts =>
    show pure [s.introduced k (Tokens.listed ((t :: ts).map blank))] =
      pure [blank (s.introduced k (Tokens.listed (t :: ts)))]
    rw [introduced_blank, blank_listed]

theorem item_blank (s : Site) (label : Option String) (ts : Tokens) :
    s.item label (blank ts) = blank (s.item label ts) := by
  unfold item
  split
  · rw [blank_append]; rfl
  · rfl

theorem assignment_blank (s : Site) (c : Column) (ts : Tokens) :
    s.assignment c (blank ts) = blank (s.assignment c ts) := rfl

theorem names_blank (s : Site) (ns : List String) :
    blank (Tokens.listed (ns.map fun n => [s.name n])) =
      Tokens.listed (ns.map fun n => [s.name n]) := by
  rw [blank_listed, List.map_map]
  rfl

theorem join_blank (s : Site) (j : Join) (o : Option (Outcome Tokens)) :
    s.join j (o.map (Except.map blank)) = (s.join j o).map blank := by
  obtain ⟨kind, t, condition, shared⟩ := j
  have head : blank (s.introduced (.join kind) (s.tableName t)) =
      s.introduced (.join kind) (s.tableName t) := by
    rw [introduced_blank, tableName_blank]
  cases kind with
  | cross =>
    unfold join
    dsimp only
    split
    · rfl
    · exact congrArg Except.ok head.symm
  | _ =>
    rcases o with - | o
    · rcases shared with - | - | ⟨n, ns⟩
      · rfl
      · rfl
      · refine congrArg Except.ok (Eq.symm ?_)
        rw [blank_append, head]
        show _ ++ Tokens.space :: blank (s.introduced _ _) = _
        rw [introduced_blank, blank_enclosed, names_blank]
    · show Except.map _ (o.map blank) = (o.map _).map blank
      rw [map_map, map_map]
      refine congrArg (fun g => Except.map g o) (funext fun ts => ?_)
      rw [blank_append, head]
      rfl

/-! ## Statements -/

/-- The parts with their tokens blanked. -/
def blankParts (p : Parts) : Parts where
  projection := p.projection.map (Except.map blank)
  joins := p.joins.map (Except.map blank)
  filter := p.filter.map (Except.map blank)
  grouping := p.grouping.map (Except.map blank)
  having := p.having.map (Except.map blank)
  ordering := p.ordering.map (Except.map blank)
  rows := p.rows.map fun row => row.map (Except.map blank)
  assignments := p.assignments.map (Except.map blank)

theorem projection_blank (s : Site) (q : Query) (p : Parts) :
    s.projection q (blankParts p) = (s.projection q p).map blank := by
  unfold projection
  split
  · split
    · refine congrArg Except.ok (Eq.symm ?_)
      rw [blank_listed, List.map_map]
      refine congrArg _ (List.map_congr_left fun t _ => ?_)
      rw [Function.comp, blank_append, tableName_blank]
      rfl
    · rfl
  · rw [blankParts, gather_map, map_map, map_map]
    exact congrArg (fun g => Except.map g _) (funext fun ts => (blank_listed ts).symm)

theorem front_blank (s : Site) (q : Query) : (s.front q).map blank = s.front q := by
  unfold front
  split <;> rfl

theorem paging_blank (s : Site) (q : Query) : (s.paging q).map blank = s.paging q := by
  have clause (o : Option Float) (k : Keyword) (g : Float → Tokens)
      (hg : ∀ n, blank (g n) = g n) : (o.toList.map fun n => s.introduced k (g n)).map blank =
        o.toList.map fun n => s.introduced k (g n) := by
    cases o with
    | none => rfl
    | some n => exact congrArg (fun t => [s.introduced k t]) (hg n)
  unfold paging
  split
  · rw [List.map_append, clause _ _ _ fun n => rfl, clause _ _ _ fun n => rfl]
  · split
    · rfl
    · rw [List.map_append, clause _ _ _ fun n => rfl, clause _ _ _ fun n => rfl]

theorem select_blank (s : Site) (q : Query) (p : Parts) :
    s.select q (blankParts p) = (s.select q p).map blank := by
  have distinct : (if q.isDistinct then [[s.keyword .distinct]] else []).map blank =
      if q.isDistinct then [[s.keyword .distinct]] else [] := by
    split <;> rfl
  have word : blank [s.keyword .select] = [s.keyword .select] := rfl
  unfold select
  rw [projection_blank, blankParts]
  simp only [gather_map, clause?_blank, listed?_blank, bind_map, map_bind, map_pure, blank_spaced,
    List.map_append, List.map_cons, List.map_nil, front_blank, paging_blank, introduced_blank,
    tableName_blank, distinct, word]

theorem rows_blank (rows : List (List (Outcome Tokens))) :
    gather ((rows.map fun row => row.map (Except.map blank)).map fun row =>
        (gather row).map fun ts => (Tokens.listed ts).enclosed) =
      (gather (rows.map fun row => (gather row).map fun ts => (Tokens.listed ts).enclosed)).map
        (List.map blank) := by
  rw [← gather_map, List.map_map, List.map_map]
  refine congrArg gather (List.map_congr_left fun row _ => ?_)
  simp only [Function.comp, gather_map, map_map, blank_enclosed, blank_listed]

theorem insert_blank (s : Site) (q : Query) (p : Parts) :
    s.insert q (blankParts p) = (s.insert q p).map blank := by
  have columns : blank (Tokens.listed (q.insertColumns.map fun c => [s.name c.name])) =
      Tokens.listed (q.insertColumns.map fun c => [s.name c.name]) := by
    rw [blank_listed, List.map_map]
    rfl
  have word : blank [s.keyword .values] = [s.keyword .values] := rfl
  unfold insert
  rw [map_bind]
  refine congrArg _ (funext fun t => ?_)
  split
  · rfl
  · show gather _ >>= _ = _
    rw [blankParts, rows_blank]
    simp only [bind_map, map_bind, map_pure, blank_spaced, List.map_cons, List.map_nil,
      introduced_blank, tableName_blank, blank_enclosed, columns, word, blank_listed]

theorem update_blank (s : Site) (q : Query) (p : Parts) :
    s.update q (blankParts p) = (s.update q p).map blank := by
  unfold update
  rw [map_bind]
  refine congrArg _ (funext fun t => ?_)
  split
  · rfl
  · simp only [blankParts, gather_map, clause?_blank, bind_map, map_bind, map_pure, blank_spaced,
      List.map_append, List.map_cons, List.map_nil, introduced_blank, tableName_blank, blank_listed]

theorem delete_blank (s : Site) (q : Query) (p : Parts) :
    s.delete q (blankParts p) = (s.delete q p).map blank := by
  unfold delete blankParts
  simp only [clause?_blank, bind_map, map_bind, map_pure, blank_spaced, List.map_cons,
    introduced_blank, tableName_blank]

theorem definition_blank (s : Site) (c : Column) :
    (s.definition c).map blank = s.definition c := by
  unfold definition
  split <;> rfl

theorem create_blank (s : Site) (q : Query) : (s.create q).map blank = s.create q := by
  have definitions (cs : List Column) :
      (gather (cs.map s.definition)).map (List.map blank) = gather (cs.map s.definition) := by
    rw [← gather_map, List.map_map]
    exact congrArg gather (List.map_congr_left fun c _ => definition_blank s c)
  have missing : (if q.ifNotExists then [[s.keyword .ifNotExists]] else []).map blank =
      if q.ifNotExists then [[s.keyword .ifNotExists]] else [] := by
    split <;> rfl
  have word : blank [s.keyword .createTable] = [s.keyword .createTable] := rfl
  unfold create
  rw [map_bind]
  refine congrArg _ (funext fun t => ?_)
  by_cases h : t.declaredColumns.isEmpty = true
  · simp only [h, if_true]
    rfl
  · simp only [h, Bool.false_eq_true, if_false]
    conv_rhs => rw [← definitions, bind_map]
    simp only [map_bind, map_pure, blank_spaced, List.map_append, List.map_cons, List.map_nil,
      tableName_blank, missing, word, blank_enclosed, blank_listed]

theorem drop_blank (s : Site) (q : Query) : (s.drop q).map blank = s.drop q := by
  have present : (if q.ifExists then [[s.keyword .ifExists]] else []).map blank =
      if q.ifExists then [[s.keyword .ifExists]] else [] := by
    split <;> rfl
  have word : blank [s.keyword .dropTable] = [s.keyword .dropTable] := rfl
  unfold drop
  simp only [map_bind, map_pure, blank_spaced, List.map_append, List.map_cons, List.map_nil,
    tableName_blank, present, word]

/-- Blanking the parts of a statement blanks the statement. -/
theorem statement_blank (s : Site) (q : Query) (p : Parts) :
    s.statement q (blankParts p) = (s.statement q p).map blank := by
  unfold statement
  cases q.command with
  | scope c => rfl
  | statement c =>
    dsimp only
    split
    · cases c with
      | select => exact select_blank s q p
      | insert => exact insert_blank s q p
      | update => exact update_blank s q p
      | delete => exact delete_blank s q p
      | create => exact (create_blank s q).symm
      | drop => exact (drop_blank s q).symm
    · rfl

end Site

end SqlDraft.Sql
