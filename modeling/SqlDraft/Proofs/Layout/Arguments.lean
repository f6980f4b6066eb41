import SqlDraft.Proofs.Drafting.Made
import SqlDraft.Proofs.Layout.Inclusion
import SqlDraft.Proofs.Matching.Rematch
import SqlDraft.Proofs.Reading.Atom
import SqlDraft.Query.Condition
import SqlDraft.Sql.Compile

/-! Which of its arguments a call shows. A rule is looked up by the name of the function, whatever
arguments a call of it has: an operator has one place or two, fails where an argument for one of
them is missing and passes over the arguments that are left, while the form with parentheses lists
all there are. Main statement (`Sql.Site.shows_iff_places`): the arguments with a place stand in the
text in order, the others have no say in it, and all calls of a number of arguments show them just
when there are as many places. -/

namespace SqlDraft

open Sql Reading

namespace Sql

/-- The parts stand in the whole one behind the other, with anything before, between and after
them. -/
inductive InOrder {α : Type} : List (List α) → List α → Prop
  | nil (rest : List α) : InOrder [] rest
  | cons {part rest : List α} {parts : List (List α)} (gap : List α) (h : InOrder parts rest) :
      InOrder (part :: parts) (gap ++ part ++ rest)

namespace InOrder

variable {α β : Type} {part whole whole' : List α} {parts parts' : List (List α)}

theorem append_left (h : InOrder parts whole) (gap : List α) : InOrder parts (gap ++ whole) := by
  cases h with
  | nil => exact .nil _
  | cons gap' h =>
    rw [List.append_assoc gap', ← List.append_assoc gap, ← List.append_assoc]
    exact .cons (gap ++ gap') h

theorem append (h : InOrder parts whole) (h' : InOrder parts' whole') :
    InOrder (parts ++ parts') (whole ++ whole') := by
  induction h with
  | nil rest => exact h'.append_left rest
  | cons gap _ ih =>
    rw [List.append_assoc]
    exact .cons gap ih

theorem single (h : part <:+: whole) : InOrder [part] whole := by
  obtain ⟨front, back, rfl⟩ := h
  exact .cons front (.nil back)

theorem append_right (h : InOrder parts whole) (rest : List α) : InOrder parts (whole ++ rest) := by
  simpa using h.append (.nil rest)

theorem infix_of_mem (h : InOrder parts whole) (hpart : part ∈ parts) : part <:+: whole := by
  induction h with
  | nil => cases hpart
  | @cons part' rest parts gap _ ih =>
    rcases List.mem_cons.mp hpart with rfl | hpart
    · exact ⟨gap, rest, rfl⟩
    · exact (ih hpart).trans (List.suffix_append _ _).isInfix

theorem separated {separator : Tokens} :
    ∀ parts : List Tokens, InOrder parts (Tokens.separated separator parts)
  | [] => .nil _
  | [part] => by
    rw [Tokens.separated, List.intercalate_singleton]
    exact .single List.infix_rfl
  | part :: part' :: parts => by
    rw [Tokens.separated, List.intercalate_cons_cons, List.append_assoc]
    exact .cons [] ((separated (part' :: parts)).append_left separator)

theorem chars {c : LetterCase} {parts : List Tokens} {ts : Tokens} (h : InOrder parts ts) :
    InOrder (parts.map (chars c)) (chars c ts) := by
  induction h with
  | nil => exact .nil _
  | cons gap _ ih =>
    rw [List.map_cons, chars_append, chars_append]
    exact .cons _ ih

end InOrder

end Sql

/-! ## Places -/

/-- The number of arguments that an operator has a place for. Where all arguments are listed there
is no such number. -/
def Rule.places? : Rule → Option Nat
  | between .. | membership _ => some 2
  | before _ | after _ => some 1
  | call _ | custom _ => none

namespace Rule

variable {α β : Type} {rule : Rule}

theorem written_eq_take {n : Nat} (h : rule.places? = some n) (args : List α) :
    rule.written args = args.take n := by
  cases rule <;> cases h <;> rfl

theorem written_eq_self (hform : ∀ write, rule ≠ .custom write) (h : rule.places? = none)
    (args : List α) :
    rule.written args = args := by
  cases rule with
  | call => rfl
  | custom write => exact absurd rfl (hform write)
  | _ => cases h

theorem written_of_length_le (hform : ∀ write, rule ≠ .custom write) {args : List α}
    (h : ∀ n ∈ rule.places?, args.length ≤ n) : rule.written args = args := by
  cases hplaces : rule.places? with
  | none => exact written_eq_self hform hplaces args
  | some n =>
    rw [written_eq_take hplaces]
    exact List.take_of_length_le (h n hplaces)

end Rule

namespace Sql.Site

variable {s : Site} {function : String} {rule : Rule} {args : List Argument} {ts : Tokens}

theorem operandAt_take {i n : Nat} (hi : i < n) (misread : Rat → Bool) :
    s.operandAt function (args.take n) i misread = s.operandAt function args i misread := by
  rw [operandAt, operandAt, List.getElem?_take_of_lt hi]

theorem containerAt_take {i n : Nat} (hi : i < n) :
    s.containerAt function (args.take n) i = s.containerAt function args i := by
  rw [containerAt, containerAt, List.getElem?_take_of_lt hi]

/-- An argument without a place has no say in what is written. -/
theorem apply_written (hform : ∀ write, rule ≠ .custom write) :
    s.apply function (rule.written args) rule = s.apply function args rule := by
  cases rule with
  | between =>
    simp only [apply, Rule.written, operandAt_take Nat.zero_lt_two, operandAt_take Nat.one_lt_two]
  | before => simp only [apply, Rule.written, operandAt_take Nat.zero_lt_one]
  | after => simp only [apply, Rule.written, operandAt_take Nat.zero_lt_one]
  | call => rfl
  | membership =>
    simp only [apply, Rule.written, operandAt_take Nat.zero_lt_two, containerAt_take Nat.one_lt_two]
  | custom write => exact absurd rfl (hform write)

theorem exists_of_operandAt {i : Nat} {misread : Rat → Bool}
    (h : s.operandAt function args i misread = .ok ts) :
    ∃ a xs, args[i]? = some a ∧ a.outcome = .ok xs ∧ xs <:+: ts := by
  cases ha : args[i]? with
  | none => rw [operandAt, ha] at h; cases h
  | some a =>
    obtain ⟨xs, hxs, hinfix⟩ := operandAt_includes ha misread ts h
    exact ⟨a, xs, rfl, hxs, hinfix⟩

theorem exists_of_containerAt {i : Nat} (h : s.containerAt function args i = .ok ts) :
    ∃ a xs, args[i]? = some a ∧ a.outcome = .ok xs ∧ xs <:+: ts := by
  cases ha : args[i]? with
  | none => rw [containerAt, ha] at h; cases h
  | some a =>
    obtain ⟨xs, hxs, hinfix⟩ := containerAt_includes ha ts h
    exact ⟨a, xs, rfl, hxs, hinfix⟩

theorem outcomes_take_one {a : Argument} {xs : Tokens} (ha : args[0]? = some a)
    (hxs : a.outcome = .ok xs) :
    (args.take 1).map Argument.outcome = [xs].map .ok := by
  simp [List.take_add_one, ha, hxs]

theorem outcomes_take_two {a b : Argument} {xs ys : Tokens} (ha : args[0]? = some a)
    (hxs : a.outcome = .ok xs) (hb : args[1]? = some b) (hys : b.outcome = .ok ys) :
    (args.take 2).map Argument.outcome = [xs, ys].map .ok := by
  simp [List.take_add_one, ha, hxs, hb, hys]

/-- The arguments that have a place stand in what is written in order. -/
theorem apply_inOrder (hform : ∀ write, rule ≠ .custom write)
    (h : s.apply function args rule = .ok ts) :
    ∃ parts, (rule.written args).map Argument.outcome = parts.map .ok ∧ InOrder parts ts := by
  cases apply_eq_ok h with
  | between hleft hright =>
    obtain ⟨a, xs, ha, hxs, hx⟩ := exists_of_operandAt hleft
    obtain ⟨b, ys, hb, hys, hy⟩ := exists_of_operandAt hright
    exact ⟨[xs, ys], outcomes_take_two ha hxs hb hys,
      ((InOrder.single hx).append_right _).append (.single hy)⟩
  | membership hleft hright =>
    obtain ⟨a, xs, ha, hxs, hx⟩ := exists_of_operandAt hleft
    obtain ⟨b, ys, hb, hys, hy⟩ := exists_of_containerAt hright
    exact ⟨[xs, ys], outcomes_take_two ha hxs hb hys,
      ((InOrder.single hx).append_right _).append (.single hy)⟩
  | before hoperand =>
    obtain ⟨a, xs, ha, hxs, hx⟩ := exists_of_operandAt hoperand
    exact ⟨[xs], outcomes_take_one ha hxs, (InOrder.single hx).append_left _⟩
  | after hoperand =>
    obtain ⟨a, xs, ha, hxs, hx⟩ := exists_of_operandAt hoperand
    exact ⟨[xs], outcomes_take_one ha hxs, (InOrder.single hx).append_right _⟩
  | @call name parts hparts =>
    exact ⟨parts, gather_eq_ok_iff.mp hparts,
      ((InOrder.separated parts).append_right [.mark ")"]).append_left [.word name, .mark "("]⟩
  | custom => exact absurd rfl (hform _)

/-- If the call is written, so are the arguments, and they stand in its text in order. -/
def Shows (s : Site) (c : LetterCase) (call : Expr) (args : List Expr) : Prop :=
  ∀ ts, call.write s = .ok ts →
    ∃ parts : List Tokens, args.map (fun a => a.write s) = parts.map .ok ∧
    InOrder (parts.map (chars c)) (chars c ts)

/-- All calls of the function on so many operands that can be written, whatever signature they are
made by, show their arguments. -/
def ShowsAll (s : Site) (c : LetterCase) (function : String) (k : Nat) : Prop :=
  ∀ (g : Signature) (operands : List Operand) (head : CallHead) (args : List Expr),
    g.name = function → operands.length = k → g.apply operands = .ok (.call head args) →
    (∀ a ∈ args, ∃ ts, a.write s = .ok ts) → s.Shows c (.call head args) args

theorem mem_of_map_write {es : List Expr} {parts : List Tokens} {e : Expr} {xs : Tokens}
    (h : es.map (fun e => e.write s) = parts.map .ok) (he : e ∈ es) (hxs : e.write s = .ok xs) :
      xs ∈ parts := by
  have hok : (.ok xs : Outcome Tokens) ∈ parts.map .ok := h ▸ List.mem_map.mpr ⟨e, he, hxs⟩
  obtain ⟨ys, hys, hxy⟩ := List.mem_map.mp hok
  exact Except.ok.inj hxy ▸ hys

theorem write_call (hrule : s.dialect.rule? function = some rule) {head : CallHead}
    (hhead : head.function = function)
    (args : List Expr) :
      (Expr.call head args).write s = s.apply function (Expr.arguments s args) rule := by
  rw [Expr.write, hhead, call, hrule]

theorem written_arguments (rule : Rule) (args : List Expr) :
    rule.written (Expr.arguments s args) = Expr.arguments s (rule.written args) := by
  rw [Expr.arguments_eq_map, Expr.arguments_eq_map, Rule.map_written]

theorem write_call_written (hrule : s.dialect.rule? function = some rule)
    (hform : ∀ write, rule ≠ .custom write)
    {head : CallHead} (hhead : head.function = function) (args : List Expr) :
    (Expr.call head (rule.written args)).write s = (Expr.call head args).write s := by
  rw [write_call hrule hhead, write_call hrule hhead, ← written_arguments, apply_written hform]

theorem shows_written (hrule : s.dialect.rule? function = some rule)
    (hform : ∀ write, rule ≠ .custom write)
    {head : CallHead} (hhead : head.function = function) (args : List Expr) (c : LetterCase) :
    s.Shows c (.call head args) (rule.written args) := by
  intro ts hts
  rw [write_call hrule hhead] at hts
  obtain ⟨parts, hparts, h⟩ := apply_inOrder hform hts
  refine ⟨parts, ?_, h.chars⟩
  rw [written_arguments, Expr.arguments_eq_map, List.map_map] at hparts
  exact hparts

end Sql.Site

/-! ## Calls of any number of arguments -/

/-- Any operands are the arguments of a call under any name. -/
theorem Signature.exists_apply_eq_call (function : String) {operands : List Operand}
    {es : List Expr}
    (hes : operands.mapM (Operand.toExpr function) = .ok es)
    (hground : ∀ e ∈ es, e.type.isGround = true) :
    ∃ (g : Signature) (head : CallHead), g.name = function ∧ head.function = function ∧
      g.apply operands = .ok (.call head es) := by
  have hrun : Match.run .strict function (es.map Expr.type) (es.map Expr.type) =
      .ok ⟨es.map Expr.type, ∅⟩ := by
    refine Match.run_of_settled function rfl (List.forall_mem_map.mpr hground) fun p hp => ?_
    rw [List.zip_map'] at hp
    obtain ⟨e, he, rfl⟩ := List.mem_map.mp hp
    exact Ty.settled_self (hground e he)
  refine ⟨⟨function, es.map Expr.type, .fixed (.concrete .boolean), none⟩,
    ⟨function, .concrete .boolean, es.map Expr.type, ∅⟩, rfl, rfl, ?_⟩
  refine bind_eq_ok_iff.mpr ⟨es, hes, bind_eq_ok_iff.mpr ⟨_, hrun, ?_⟩⟩
  rfl

/-- A call made has the operands for its arguments, and the name of its function. -/
theorem Signature.apply_eq_ok {g : Signature} {operands : List Operand} {e : Expr}
    (h : g.apply operands = .ok e) :
    ∃ head es, operands.mapM (Operand.toExpr g.name) = .ok es ∧ head.function = g.name ∧
      e = .call head es := by
  obtain ⟨es, hes, h⟩ := bind_eq_ok_iff.mp h
  obtain ⟨head, hhead, -, he⟩ := applyExprs_eq_ok h
  exact ⟨head, es, hes, hhead, he⟩

/-- A list of nulls, as long as wanted. -/
def Value.nulls (n : Nat) : List Value := List.replicate (n + 1) .null

theorem Value.commonKind_nulls (method : String) (n : Nat) :
    commonKind method none (List.replicate n .null) = .ok none := by
  induction n with
  | zero => rfl
  | succ n ih => exact ih

/-- The expression that a bare null stands for. -/
def Expr.plain : Expr := .literal .null .any

/-- The expression that a list of nulls stands for. -/
def Expr.long (n : Nat) : Expr := .list (Value.nulls n) (.collection .any)

theorem Operand.toExpr_nulls (method : String) (n : Nat) :
    (Operand.list (Value.nulls n)).toExpr method = .ok (.long n) := by
  have htype : Value.listType method (Value.nulls n) = .ok (.collection .any) := by
    rw [Value.listType, if_neg (by simp [Value.nulls]), Value.nulls, Value.commonKind_nulls]
    rfl
  rw [Operand.toExpr, htype]
  rfl

/-- A call under any name of plain arguments, and behind them others as long as wanted. -/
theorem Signature.exists_apply_eq_plain_long (function : String) (n m length : Nat) :
    ∃ (g : Signature) (operands : List Operand) (head : CallHead), g.name = function ∧
      operands.length = n + m ∧
      head.function = function ∧ g.apply operands =
        .ok (.call head (List.replicate n .plain ++ List.replicate m (.long length))) := by
  let operands : List Operand :=
    List.replicate n (.value .null) ++ List.replicate m (.list (Value.nulls length))
  have hargs : operands.mapM (Operand.toExpr function) =
      .ok (List.replicate n .plain ++ List.replicate m (.long length)) := by
    rw [mapM_eq_ok_iff]
    simp only [operands, List.map_append, List.map_replicate, Operand.toExpr_nulls]
    rfl
  obtain ⟨g, head, hg, hhead, happly⟩ := exists_apply_eq_call function hargs fun e he => by
    rcases List.mem_append.mp he with he | he <;> rw [List.eq_of_mem_replicate he] <;> rfl
  exact ⟨g, operands, head, hg, by simp [operands], hhead, happly⟩

namespace Sql.Site

variable {s : Site} {function : String} {rule : Rule}

theorem le_length_chars_listed (c : LetterCase) (ts : Tokens) (n : Nat) :
    n ≤ (chars c (Tokens.listed (List.replicate (n + 1) ts))).length := by
  induction n with
  | zero => exact Nat.zero_le _
  | succ n ih =>
    have hlisted : Tokens.listed (List.replicate (n + 2) ts) =
        ts ++ Tokens.comma ++ Tokens.listed (List.replicate (n + 1) ts) :=
      List.intercalate_cons_cons
    have hcomma : (chars c Tokens.comma).length = 2 := by
      simp [Tokens.comma, chars_singleton, Token.write]
    rw [hlisted, chars_append, chars_append, List.length_append, List.length_append, hcomma]
    omega

theorem exists_write_long (s : Site) (c : LetterCase) (n : Nat) :
    ∃ ts, (Expr.long n).write s = .ok ts ∧ n ≤ (chars c ts).length := by
  let ts := Tokens.listed (List.replicate (n + 1) [s.keyword .null])
  have hgather : gather ((Value.nulls n).map (s.literal (.collection .any))) =
      .ok (List.replicate (n + 1) [s.keyword .null]) := by
    rw [gather_eq_ok_iff, Value.nulls, List.map_replicate, List.map_replicate]
    rfl
  refine ⟨ts.enclosed, ?_, ?_⟩
  · rw [Expr.long, Expr.write, if_neg (by simp [Value.nulls]), hgather]
    rfl
  · exact (le_length_chars_listed c _ n).trans (infix_chars (infix_enclosed ts)).length_le

/-- Operators write plain operands. -/
theorem exists_apply_eq_ok {n : Nat} (h : rule.places? = some n) (s : Site) (function : String) :
    ∃ ts, s.apply function (Expr.arguments s (List.replicate n .plain)) rule = .ok ts := by
  cases rule <;> cases h <;> exact ⟨_, rfl⟩

/-- Where an operator has fewer places than a call has arguments, one that is longer than the whole
text may be among those it passes over. -/
theorem ShowsAll.le {k n : Nat} {c : LetterCase} (h : s.ShowsAll c function k)
    (hrule : s.dialect.rule? function = some rule) (hform : ∀ write, rule ≠ .custom write)
    (hplaces : rule.places? = some n) : k ≤ n := by
  by_contra hlt
  obtain ⟨m, hm⟩ : ∃ m, k = n + (m + 1) := ⟨k - n - 1, by omega⟩
  obtain ⟨ts, hts⟩ := exists_apply_eq_ok hplaces s function
  obtain ⟨xs, hxs, hlong⟩ := s.exists_write_long c ((chars c ts).length + 1)
  obtain ⟨g, operands, head, hg, hlength, hhead, happly⟩ :=
    Signature.exists_apply_eq_plain_long function n (m + 1) ((chars c ts).length + 1)
  set args : List Expr :=
    List.replicate n .plain ++ List.replicate (m + 1) (.long ((chars c ts).length + 1))
  have hwhole : (Expr.call head args).write s = .ok ts := by
    rw [← write_call_written hrule hform hhead, Rule.written_eq_take hplaces,
      List.take_left' List.length_replicate, write_call hrule hhead, hts]
  have hwritten : ∀ a ∈ args, ∃ ts, a.write s = .ok ts := by
    intro a ha
    rcases List.mem_append.mp ha with ha | ha <;> rw [List.eq_of_mem_replicate ha]
    · exact ⟨_, rfl⟩
    · exact ⟨xs, hxs⟩
  obtain ⟨parts, hparts, horder⟩ :=
    h g operands head args hg (hlength.trans hm.symm) happly hwritten ts hwhole
  have hpart : xs ∈ parts :=
    mem_of_map_write hparts (List.mem_append_right _ List.mem_cons_self) hxs
  have hle := (horder.infix_of_mem (List.mem_map_of_mem hpart)).length_le
  omega

theorem showsAll_of_le {k : Nat} (hrule : s.dialect.rule? function = some rule)
    (hform : ∀ write, rule ≠ .custom write) (hk : ∀ n ∈ rule.places?, k ≤ n) (c : LetterCase) :
    s.ShowsAll c function k := by
  intro g operands head args hg hlength happly _
  obtain ⟨head', es, hes, hhead, he⟩ := Signature.apply_eq_ok happly
  cases he
  have hargs : args.length = k := (mapM_eq_ok_iff_forall₂.mp hes).length_eq.symm.trans hlength
  have hshows := shows_written hrule hform (hhead.trans hg) args c
  rwa [Rule.written_of_length_le hform (hargs.symm ▸ hk)] at hshows

/-- A function that its dialect writes by other than a template is written as if the call had only
the arguments that the rule has places for, and these stand in the text in order. All its calls of a
number of arguments show them just when the rule has a place for as many, or lists all there are. -/
theorem shows_iff_places (hrule : s.dialect.rule? function = some rule)
    (hform : ∀ write, rule ≠ .custom write) (c : LetterCase) :
    (∀ (head : CallHead) (args : List Expr), head.function = function →
      (Expr.call head args).write s = (Expr.call head (rule.written args)).write s ∧
        s.Shows c (.call head args) (rule.written args)) ∧
    ∀ k : Nat, s.ShowsAll c function k ↔ ∀ n ∈ rule.places?, k ≤ n :=
  ⟨fun _ args hhead => ⟨(write_call_written hrule hform hhead args).symm,
    shows_written hrule hform hhead args c⟩, fun _ => ⟨fun h _ hn => h.le hrule hform hn,
    fun hk => showsAll_of_le hrule hform hk c⟩⟩

/-- The word between two conditions has a place for either, and none for a third. -/
theorem shows_iff_places_and :
    let s : Site := ⟨Flavor.generic.dialect, [], []⟩
    let both : Rule := .between "and" 2
    s.dialect.rule? "and" = some both ∧ (∀ write, both ≠ .custom write) ∧
      (∀ (head : CallHead) (args : List Expr), head.function = "and" →
        (Expr.call head args).write s = (Expr.call head (args.take 2)).write s ∧
          s.Shows .lower (.call head args) (args.take 2)) ∧
      s.ShowsAll .lower "and" 2 ∧ ¬ s.ShowsAll .lower "and" 3 := by
  intro s both
  have hrule : s.dialect.rule? "and" = some both := rfl
  have hform : ∀ write, both ≠ .custom write := by simp [both]
  obtain ⟨hwritten, hshows⟩ := shows_iff_places hrule hform .lower
  exact ⟨hrule, hform, hwritten, (hshows 2).mpr (by decide),
    fun h => absurd ((hshows 3).mp h) (by decide)⟩

/-- A condition made of three columns by the name of the word between two: the third is not in the
statement, and more rows are deleted than meet all three. -/
theorem shows_not :
    let t := Table.declare 0 "t" none (some ⟨[("x", .concrete .boolean), ("y", .concrete .boolean),
      ("z", .concrete .boolean)], by decide⟩)
    let x : Expr := .column ⟨t, "x", .concrete .boolean⟩
    let y : Expr := .column ⟨t, "y", .concrete .boolean⟩
    let z : Expr := .column ⟨t, "z", .concrete .boolean⟩
    let column : Ty := .scalarOrColumn (.concrete .boolean)
    let g : Signature := ⟨"and", [column, column, column], .fixed (.concrete .boolean), none⟩
    let s : Site := ⟨Flavor.generic.dialect, [t], []⟩
    ∃ head : CallHead, g.apply [.expr x, .expr y, .expr z] = .ok (.call head [x, y, z]) ∧
      ((Query.ofStatement .delete (some t)).restrict .filter .plain
        (.operand (.expr (.call head [x, y, z]))) >>=
        fun r => r.compile Flavor.generic.dialect) = .ok "delete from t where x and y;" ∧
      z.write s = .ok [.name "z"] ∧ ¬ s.Shows .lower (.call head [x, y, z]) [x, y, z] := by
  intro t x y z column g s
  let taken : Ty := .collection (.concrete .boolean)
  refine ⟨⟨"and", .concrete .boolean, [taken, taken, taken], ∅⟩, rfl, by decide +kernel,
    by decide +kernel, fun h => ?_⟩
  obtain ⟨parts, hparts, horder⟩ :=
    h [.name "x", Tokens.space, .word "and", Tokens.space, .name "y"] (by decide +kernel)
  have hz : [.name "z"] ∈ parts := mem_of_map_write (e := z) hparts (by simp) (by decide +kernel)
  have hinfix := horder.infix_of_mem (List.mem_map_of_mem hz)
  exact absurd hinfix (by decide +kernel)

end Sql.Site

end SqlDraft
