import SqlDraft.Proofs.Formula.Syntax
import SqlDraft.Proofs.Reading.Printed

/-! What is written of a formula, and the phrase that is read of it. A formula can be written where
its table is in sight, and if the dialect has a rule for each of its operators. -/

namespace SqlDraft

open Reading Sql

/-- How a column of the table is written. -/
def Sql.Site.spelled (s : Site) (t : Table) (n : String) : Tokens :=
  if s.qualifies t then s.tableName t ++ [.mark ".", s.name n] else [s.name n]

theorem Sql.Site.column_eq_ok_iff {s : Site} {col : Column} {ts : Tokens} :
    s.column col = .ok ts ↔ s.Sees col.table ∧ s.spelled col.table col.name = ts := by
  unfold column reference spelled
  split <;> simp_all

/-- How a dialect writes an operator: the word for it, its precedence, and whether it chains. -/
def Operator.written? (op : Operator) (f : Flavor) : Option (String × Rat × Option Bool) :=
  match f.rule? op.builtin with
  | some (.between w p alone) => some (w, p, alone)
  | _ => none

/-- Whatever is an operator is written between its operands. -/
theorem Operator.rule?_eq (op : Operator) (f : Flavor) :
    f.rule? op.builtin = (op.written? f).map fun r => .between r.1 r.2.1 r.2.2 := by
  cases op with
  | arithmetic op => cases f <;> cases op <;> rfl
  | comparison op => cases f <;> cases op <;> rfl
  | connective op => cases f <;> cases op <;> rfl
  | like => cases f <;> rfl
  | ilike => cases f <;> rfl

theorem Operator.written?_eq_some {op : Operator} {f : Flavor} {w : String} {p : Rat}
    {alone : Option Bool} (h : op.written? f = some (w, p, alone)) :
    f.dialect.rule? op.builtin.name = some (.between w p alone) := by
  rw [f.dialect_rule?_name, op.rule?_eq, h]
  rfl

theorem Flavor.rule?_not (f : Flavor) : f.rule? .not = some (.before "not") := by
  cases f <;> rfl

/-- How a judgement is written behind its operand. -/
def Judgement.rule : Judgement → Rule
  | null => .after "is null"
  | notNull => .after "is not null"
  | among _ _ => .membership "in"

theorem Judgement.rule?_eq (j : Judgement) (f : Flavor) : f.rule? j.builtin = some j.rule := by
  cases f <;> cases j <;> rfl

namespace Judgement

/-- A phrase with the judgement behind it. -/
def phrase (c : LetterCase) (x : Phrase) : Judgement → Phrase
  | null => .judged x (c.pieces "is null")
  | notNull => .judged x (c.pieces "is not null")
  | among first rest =>
    .among x (c.write "in")
      ((first :: rest).map fun n => .atom (chars c [.number (Decimal.text n.number)]))

theorem gather_values (s : Site) (t : Ty) (first : Whole) (rest : List Whole) :
    gather ((values first rest).map (s.literal t)) =
      .ok ((first :: rest).map fun n => [.number (Decimal.text n.number)]) := by
  refine gather_eq_ok_iff.mpr ?_
  rw [values, List.map_map, List.map_map]
  refine List.map_congr_left fun n _ => ?_
  obtain ⟨m, hm, -⟩ := n.reads
  have hfinite : Decimal.isFinite n.number = true := by rw [Decimal.isFinite, hm]
  exact if_pos hfinite

end Judgement

namespace Formula

variable (f : Flavor) (c : LetterCase) (s : Site) (t : Table)

/-- The dialect has a way to write all that is in the formula. -/
def Written : Formula → Prop
  | column _ => True
  | not x => x.Written
  | judged x _ => x.Written
  | binary op l r => (op.written? f).isSome ∧ l.Written ∧ r.Written

def precedence? : Formula → Option Rat
  | binary op _ _ => (op.written? f).map fun r => r.2.1
  | _ => none

/-- The phrase of an operand, enclosed if it would be misread. -/
def enclose (x : Formula) (misread : Rat → Bool) (φ : Phrase) : Phrase :=
  match x.precedence? f with
  | some p => if misread p then .grouped φ else φ
  | none => φ

/-- What is read of a formula that can be written. -/
def phrase : Formula → Phrase
  | column n => .atom (chars c (s.spelled t n))
  | not x => (x.enclose f (fun _ => true) x.phrase).tighten [c.write "not"]
  | judged x j => j.phrase c (x.enclose f (fun _ => true) x.phrase)
  | binary op l r =>
    match op.written? f with
    | some (w, p, alone) =>
      .binary (l.enclose f
        (fun q => if alone = some true then q ≤ p else q < p) l.phrase) (c.write w)
        (r.enclose f (fun q => q ≤ p) r.phrase)
    | none => .atom []

variable {f c s t}

theorem Stands.precedence?_eq {F : Formula} {e : Expr} (h : F.Stands t e)
    (hs : s.dialect = f.dialect) : s.precedence? e = F.precedence? f := by
  cases h with
  | column n data => rfl
  | not hf _ =>
    rw [precedence?_call hs (hf ▸ (f.dialect_rule?_name _).trans f.rule?_not)]
    rfl
  | @judged _ _ j _ _ hf _ _ =>
    rw [precedence?_call hs (hf ▸ (f.dialect_rule?_name _).trans (j.rule?_eq f))]
    cases j <;> rfl
  | @binary head op _ _ l r hf _ _ =>
    rw [precedence?]
    cases hw : op.written? f with
    | none =>
      rw [Site.precedence?, hs, hf, f.dialect_rule?_name, op.rule?_eq, hw]
      rfl
    | some r =>
      rw [precedence?_call hs (hf ▸ Operator.written?_eq_some hw)]
      rfl

theorem Stands.held_eq {F : Formula} {e : Expr} (h : F.Stands t e) (hs : s.dialect = f.dialect)
    (misread : Rat → Bool) (φ : Phrase) : held s misread e φ = F.enclose f misread φ := by
  have hp := h.precedence?_eq hs
  cases hF : F.precedence? f with
  | none => simp only [held, enclose, hp, hF]
  | some p => simp only [held, enclose, hp, hF]

theorem write_of_rule?_none (hs : s.dialect = f.dialect) {head : CallHead}
    (h : f.dialect.rule? head.function = none) (args : List Expr) (ts : Tokens) :
    (Expr.call head args).write s ≠ .ok ts := by
  rw [Expr.write, Site.call, hs, h]
  intro hok
  cases hok

/-- A formula that is written is written in words that are read as its phrase. -/
theorem Stands.printed {F : Formula} {e : Expr} (h : F.Stands t e) (hs : s.dialect = f.dialect) :
    ∀ {ts : Tokens}, e.write s = .ok ts →
      s.Sees t ∧ F.Written f ∧ Printed f c s e ts (F.phrase f c s t) := by
  induction h with
  | column n data =>
    intro ts h
    rw [Expr.write] at h
    obtain ⟨hsees, rfl⟩ := Site.column_eq_ok_iff.mp h
    exact ⟨hsees, trivial, .column h⟩
  | not hf hx ih =>
    intro ts h
    have hrule := hf ▸ (f.dialect_rule?_name _).trans f.rule?_not
    obtain ⟨xs, hxs, rfl⟩ := (write_before hs hrule).mp h
    obtain ⟨hsees, hwritten, hp⟩ := ih hxs
    rw [phrase, ← hx.held_eq hs]
    exact ⟨hsees, hwritten, .before hrule hp⟩
  | @judged head x j e es hf hx hj ih =>
    intro ts h
    have hrule := hf ▸ (f.dialect_rule?_name _).trans (j.rule?_eq f)
    rw [phrase, ← hx.held_eq hs]
    cases hj with
    | null =>
      obtain ⟨xs, hxs, rfl⟩ := (write_after hs hrule).mp h
      obtain ⟨hsees, hwritten, hp⟩ := ih hxs
      exact ⟨hsees, hwritten, .after hrule hp⟩
    | notNull =>
      obtain ⟨xs, hxs, rfl⟩ := (write_after hs hrule).mp h
      obtain ⟨hsees, hwritten, hp⟩ := ih hxs
      exact ⟨hsees, hwritten, .after hrule hp⟩
    | among first rest type =>
      have hne := Judgement.values_ne_nil first rest
      obtain ⟨xs, yss, hxs, hvs, rfl⟩ := (write_membership hs hrule hne).mp h
      obtain ⟨hsees, hwritten, hp⟩ := ih hxs
      have hm := Printed.membership hrule hp hne hvs
      rw [Judgement.gather_values] at hvs
      cases hvs
      rw [List.map_map] at hm
      exact ⟨hsees, hwritten, hm⟩
  | @binary head op x y l r hf hl hr ihl ihr =>
    intro ts h
    cases hw : op.written? f with
    | none =>
      refine absurd h (write_of_rule?_none hs ?_ _ _)
      rw [hf, f.dialect_rule?_name, op.rule?_eq, hw]
      rfl
    | some r =>
      obtain ⟨w, p, alone⟩ := r
      have hrule := hf ▸ Operator.written?_eq_some hw
      obtain ⟨xs, ys, hxs, hys, rfl⟩ := (write_between hs hrule).mp h
      obtain ⟨hsees, hlwritten, hlp⟩ := ihl hxs
      obtain ⟨-, hrwritten, hrp⟩ := ihr hys
      rw [phrase, hw]
      dsimp only
      rw [← hl.held_eq hs, ← hr.held_eq hs]
      exact ⟨hsees, ⟨by rw [hw]; rfl, hlwritten, hrwritten⟩, .between hrule hlp hrp⟩

/-- A formula can be written wherever its table is in sight. -/
theorem Stands.exists_write {F : Formula} {e : Expr} (h : F.Stands t e) (hs : s.dialect = f.dialect)
    (hsees : s.Sees t) (hF : F.Written f) : ∃ ts, e.write s = .ok ts := by
  induction h with
  | column n data =>
    rw [Expr.write]
    exact ⟨_, Site.column_eq_ok_iff.mpr ⟨hsees, rfl⟩⟩
  | not hf hx ih =>
    obtain ⟨xs, hxs⟩ := ih hF
    exact ⟨_, (write_before hs (hf ▸ (f.dialect_rule?_name _).trans f.rule?_not)).mpr
      ⟨xs, hxs, rfl⟩⟩
  | @judged head x j e es hf hx hj ih =>
    obtain ⟨xs, hxs⟩ := ih hF
    have hrule := hf ▸ (f.dialect_rule?_name _).trans (j.rule?_eq f)
    cases hj with
    | null => exact ⟨_, (write_after hs hrule).mpr ⟨xs, hxs, rfl⟩⟩
    | notNull => exact ⟨_, (write_after hs hrule).mpr ⟨xs, hxs, rfl⟩⟩
    | among first rest type =>
      have hne := Judgement.values_ne_nil first rest
      exact ⟨_, (write_membership hs hrule hne).mpr
        ⟨xs, _, hxs, Judgement.gather_values s type first rest, rfl⟩⟩
  | @binary head op x y l r hf hl hr ihl ihr =>
    obtain ⟨hop, hx, hy⟩ := hF
    obtain ⟨⟨w, p, alone⟩, hw⟩ := Option.isSome_iff_exists.mp hop
    obtain ⟨xs, hxs⟩ := ihl hx
    obtain ⟨ys, hys⟩ := ihr hy
    have hrule := hf ▸ Operator.written?_eq_some hw
    exact ⟨_, (write_between hs hrule).mpr ⟨xs, ys, hxs, hys, rfl⟩⟩

/-- Two formulas have one text just when they have one phrase. -/
theorem text_eq_iff_phrase_eq (hs : s.dialect = f.dialect) {F G : Formula} {d e : Expr}
    (hF : F.Stands t d) (hG : G.Stands t e) {xs ys : Tokens} (hx : d.write s = .ok xs)
    (hy : e.write s = .ok ys) : chars c xs = chars c ys ↔ F.phrase f c s t = G.phrase f c s t := by
  obtain ⟨-, -, hF⟩ := hF.printed (c := c) hs hx
  obtain ⟨-, -, hG⟩ := hG.printed (c := c) hs hy
  constructor
  · intro h
    have hread := hF.read hs
    rw [h, hG.read hs] at hread
    exact (Option.some.inj hread).symm
  · intro h
    rw [hF.text, hG.text, h]

end Formula

end SqlDraft
