import SqlDraft.Decimal.Binary
import SqlDraft.Proofs.Dialect.Flavor
import SqlDraft.Signature.Term
import SqlDraft.Sql.Outcomes

/-! Formulas over the columns of one table: negation, what is judged of an operand in words behind
it, and operators between two operands. `Formula.Stands` relates a formula to the expressions that
are calls of its functions, whatever types the calls have been given; each term of a formula that
can be evaluated gives one (`Formula.stands_of_eval`). -/

namespace SqlDraft

open Sql

/-- The functions that dialects write between two operands. -/
inductive Operator where
  | arithmetic (op : Arithmetic)
  | comparison (op : Comparison)
  | connective (op : Connective)
  | like | ilike
deriving DecidableEq, Repr

def Operator.builtin : Operator → Builtin
  | arithmetic op => .arithmetic op
  | comparison op => .comparison op
  | connective op => .connective op
  | like => .like
  | ilike => .ilike

/-- A whole number above zero. -/
structure Whole where
  number : Float
  reads : ∃ m, Decimal.read number = .finite false m ∧ m.isWhole = true ∧ m.mantissa ≠ 0

/-- What is said of an operand behind it. -/
inductive Judgement where
  | null
  | notNull
  | among (first : Whole) (rest : List Whole)

inductive Formula where
  | column (name : String)
  | not (x : Formula)
  | judged (x : Formula) (j : Judgement)
  | binary (op : Operator) (l r : Formula)

namespace Judgement

def builtin : Judgement → Builtin
  | null => .isNull
  | notNull => .isNotNull
  | among _ _ => .member

/-- The values of a list to search. -/
def values (first : Whole) (rest : List Whole) : List Value :=
  (first :: rest).map fun n => .number n.number

theorem values_ne_nil (first : Whole) (rest : List Whole) : values first rest ≠ [] :=
  List.cons_ne_nil _ _

/-- The expressions are what the judgement is called on besides its operand. -/
inductive Stands : Judgement → List Expr → Prop
  | null : Stands .null []
  | notNull : Stands .notNull []
  | among (first : Whole) (rest : List Whole) (t : Ty) :
      Stands (.among first rest) [.list (values first rest) t]

def terms : Judgement → List Term
  | null | notNull => []
  | among first rest => [.operand (.list (values first rest))]

end Judgement

namespace Formula

/-- The expression is the formula over columns of the table. -/
inductive Stands (t : Table) : Formula → Expr → Prop
  | column (n : String) (data : Ty) : Stands t (.column n) (.column ⟨t, n, data⟩)
  | not {head : CallHead} {x : Formula} {e : Expr} (hf : head.function = Builtin.not.name)
      (h : Stands t x e) : Stands t (.not x) (.call head [e])
  | judged {head : CallHead} {x : Formula} {j : Judgement} {e : Expr} {es : List Expr}
      (hf : head.function = j.builtin.name) (h : Stands t x e) (hj : j.Stands es) :
      Stands t (.judged x j) (.call head (e :: es))
  | binary {head : CallHead} {op : Operator} {x y : Formula} {l r : Expr}
      (hf : head.function = op.builtin.name) (hl : Stands t x l) (hr : Stands t y r) :
      Stands t (.binary op x y) (.call head [l, r])

/-- The expression of a formula, with calls of no type in particular. -/
def expr (t : Table) : Formula → Expr
  | column n => .column ⟨t, n, .any⟩
  | not x => .call ⟨Builtin.not.name, .any, [], ∅⟩ [x.expr t]
  | judged x .null => .call ⟨Builtin.isNull.name, .any, [], ∅⟩ [x.expr t]
  | judged x .notNull => .call ⟨Builtin.isNotNull.name, .any, [], ∅⟩ [x.expr t]
  | judged x (.among first rest) =>
    .call ⟨Builtin.member.name, .any, [], ∅⟩ [x.expr t, .list (Judgement.values first rest) .any]
  | binary op x y => .call ⟨op.builtin.name, .any, [], ∅⟩ [x.expr t, y.expr t]

theorem stands_expr (t : Table) (F : Formula) : F.Stands t (F.expr t) := by
  induction F with
  | column n => exact .column n _
  | not x ih => exact .not rfl ih
  | judged x j ih =>
    cases j with
    | null => exact .judged rfl ih .null
    | notNull => exact .judged rfl ih .notNull
    | among first rest => exact .judged rfl ih (.among first rest _)
  | binary op x y ihx ihy => exact .binary rfl ihx ihy

/-- The term that calls the functions of a formula. -/
def term (t : Table) : Formula → Term
  | column n => .column (.named t n)
  | not x => .builtin .not [x.term t]
  | judged x j => .builtin j.builtin (x.term t :: j.terms)
  | binary op x y => .builtin op.builtin [x.term t, y.term t]

end Formula

/-! ## Terms that are evaluated -/

namespace Term

/-- A call that is evaluated is the call of the function on what its arguments are evaluated to. -/
theorem exists_of_eval_builtin {b : Builtin} {ts : List Term} {o : Operand}
    (h : (Term.builtin b ts).eval = .ok o) :
    ∃ os es head, Term.evalAll ts = .ok os ∧ os.mapM (Operand.toExpr b.name) = .ok es ∧
      head.function = b.name ∧ o = .expr (.call head es) := by
  rw [Term.builtin, Term.eval] at h
  obtain ⟨os, hos, h⟩ := bind_eq_ok_iff.mp h
  obtain ⟨e, he, h⟩ := bind_eq_ok_iff.mp h
  unfold Signature.apply at he
  obtain ⟨es, hes, he⟩ := bind_eq_ok_iff.mp he
  unfold Signature.applyExprs at he
  obtain ⟨m, -, he⟩ := bind_eq_ok_iff.mp he
  obtain ⟨type, -, he⟩ := bind_eq_ok_iff.mp he
  split at he
  · cases he
    cases h
    exact ⟨os, es, _, hos, hes, rfl, rfl⟩
  · cases he

theorem evalAll_cons {t : Term} {ts : List Term} {os : List Operand} :
    Term.evalAll (t :: ts) = .ok os ↔
      ∃ o os', t.eval = .ok o ∧ Term.evalAll ts = .ok os' ∧ o :: os' = os := by
  rw [Term.evalAll, bind_eq_ok_iff]
  constructor
  · rintro ⟨o, ho, h⟩
    obtain ⟨os', hos', h⟩ := bind_eq_ok_iff.mp h
    exact ⟨o, os', ho, hos', Except.ok.inj h⟩
  · rintro ⟨o, os', ho, hos', rfl⟩
    exact ⟨o, ho, bind_eq_ok_iff.mpr ⟨os', hos', rfl⟩⟩

theorem mapM_toExpr_cons {m : String} {e : Expr} {os : List Operand} {es : List Expr} :
    (Operand.expr e :: os).mapM (Operand.toExpr m) = .ok es ↔
      ∃ es', os.mapM (Operand.toExpr m) = .ok es' ∧ e :: es' = es := by
  rw [List.mapM_cons]
  show (os.mapM (Operand.toExpr m) >>= fun es' => .ok (e :: es')) = _ ↔ _
  simp only [bind_eq_ok_iff, Except.ok.injEq]

end Term

open Term

/-- What the terms of a judgement are evaluated to is what it is called on. -/
theorem Judgement.stands_of_eval {j : Judgement} {m : String} {os : List Operand} {es : List Expr}
    (hos : Term.evalAll j.terms = .ok os) (hes : os.mapM (Operand.toExpr m) = .ok es) :
    j.Stands es := by
  cases j with
  | null => cases hos; cases hes; exact .null
  | notNull => cases hos; cases hes; exact .notNull
  | among first rest =>
    cases hos
    rw [List.mapM_cons] at hes
    obtain ⟨e, he, hes⟩ := bind_eq_ok_iff.mp hes
    cases hes
    obtain ⟨t, -, rfl⟩ := map_eq_ok_iff.mp he
    exact .among first rest t

/-- What the term of a formula is evaluated to is the formula. -/
theorem Formula.stands_of_eval {t : Table} {F : Formula} :
    ∀ {o : Operand}, (F.term t).eval = .ok o → ∃ e, o = .expr e ∧ F.Stands t e := by
  induction F with
  | column n =>
    intro o h
    rw [term, Term.eval] at h
    obtain ⟨c, hc, rfl⟩ := map_eq_ok_iff.mp h
    obtain ⟨htable, hname⟩ := Table.column_table hc
    obtain ⟨_, _, data⟩ := c
    cases htable
    cases hname
    exact ⟨_, rfl, .column _ data⟩
  | not x ih =>
    intro o h
    obtain ⟨os, es, head, hos, hes, hf, rfl⟩ := exists_of_eval_builtin h
    obtain ⟨p, os', hp, hos', rfl⟩ := evalAll_cons.mp hos
    obtain ⟨e, rfl, he⟩ := ih hp
    cases hos'
    obtain ⟨es', hes', rfl⟩ := mapM_toExpr_cons.mp hes
    cases hes'
    exact ⟨_, rfl, .not hf he⟩
  | judged x j ih =>
    intro o h
    obtain ⟨os, es, head, hos, hes, hf, rfl⟩ := exists_of_eval_builtin h
    obtain ⟨p, os', hp, hos', rfl⟩ := evalAll_cons.mp hos
    obtain ⟨e, rfl, he⟩ := ih hp
    obtain ⟨es', hes', rfl⟩ := mapM_toExpr_cons.mp hes
    exact ⟨_, rfl, .judged hf he (Judgement.stands_of_eval hos' hes')⟩
  | binary op x y ihx ihy =>
    intro o h
    obtain ⟨os, es, head, hos, hes, hf, rfl⟩ := exists_of_eval_builtin h
    obtain ⟨p, os', hp, hos', rfl⟩ := evalAll_cons.mp hos
    obtain ⟨q, os'', hq, hos'', rfl⟩ := evalAll_cons.mp hos'
    obtain ⟨l, rfl, hl⟩ := ihx hp
    obtain ⟨r, rfl, hr⟩ := ihy hq
    cases hos''
    obtain ⟨es', hes', rfl⟩ := mapM_toExpr_cons.mp hes
    obtain ⟨es'', hes'', rfl⟩ := mapM_toExpr_cons.mp hes'
    cases hes''
    exact ⟨_, rfl, .binary hf hl hr⟩

end SqlDraft
