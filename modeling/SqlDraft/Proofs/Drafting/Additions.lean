import Mathlib.Data.List.ModifyLast
import SqlDraft.Proofs.Drafting.Action

/-! Conditions as they are added. Each call adds one expression or one group to a condition that
grows from left to right: what is joined by the word of the call is added to, anything else is taken
together first. So a word joins two conditions or more, of which only the first is joined by a word
as well, and by the other one; and the leaves and groups of a condition, read from left to right,
are those that the calls added, in the order of the calls
(`Query.Reached.conditions_accumulate`). -/

namespace SqlDraft

open Sql

/-! ## Reading a condition -/

/-- What a call adds to a condition: an expression, or a group with all that was added to it. -/
inductive Addition where
  | predicate (e : Expr)
  | group (inside : List Addition)

namespace Cond

mutual

/-- The leaves and groups of a condition from left to right, with those inside of each group. -/
def additions : Cond → List Addition
  | predicate e => [.predicate e]
  | joined _ cs => additionsEach cs
  | group c => [.group c.additions]

def additionsEach : List Cond → List Addition
  | [] => []
  | c :: cs => c.additions ++ additionsEach cs

end

mutual

/-- A condition and all that stand in it, at any depth and within groups. -/
def parts : Cond → List Cond
  | predicate e => [predicate e]
  | joined j cs => joined j cs :: partsEach cs
  | group c => group c :: c.parts

def partsEach : List Cond → List Cond
  | [] => []
  | c :: cs => c.parts ++ partsEach cs

end

/-- What was added to a condition, if there is one. -/
def additions? (c : Option Cond) : List Addition := c.toList.flatMap additions

theorem additionsEach_eq_flatMap (cs : List Cond) : additionsEach cs = cs.flatMap additions := by
  induction cs with
  | nil => rfl
  | cons c cs ih => rw [additionsEach, ih, List.flatMap_cons]

theorem partsEach_eq_flatMap (cs : List Cond) : partsEach cs = cs.flatMap parts := by
  induction cs with
  | nil => rfl
  | cons c cs ih => rw [partsEach, ih, List.flatMap_cons]

/-- What is added comes behind all there was. -/
theorem additions_combine (existing : Option Cond) (j : Joiner) (added : Cond) :
    (combine existing j added).additions = additions? existing ++ added.additions := by
  unfold combine
  split
  · rfl
  · split <;> simp [additions?, additions, additionsEach_eq_flatMap]
  · simp [additions?, additions, additionsEach_eq_flatMap]

/-! ## The shape of a condition -/

/-- No word stands at the root. -/
def Single (c : Cond) : Prop := ∀ i inner, c ≠ joined i inner

end Cond

/-- There are two operands or more; the first may be joined, by the other word, and the others are
predicates or groups. -/
structure Joiner.Accumulates (j : Joiner) (operands : List Cond) : Prop where
  two : 2 ≤ operands.length
  first : ∀ i inner, operands.head? = some (.joined i inner) → i ≠ j
  rest : ∀ c ∈ operands.tail, c.Single

namespace Cond

/-- Every word in the condition joins what calls have accumulated. -/
def Accumulated (c : Cond) : Prop :=
  ∀ j operands, joined j operands ∈ c.parts → j.Accumulates operands

variable {j : Joiner} {c added : Cond} {cs : List Cond}

theorem accumulated_predicate (e : Expr) : (predicate e).Accumulated := by
  intro j operands h
  rw [parts, List.mem_singleton] at h
  cases h

theorem accumulated_group_iff : (group c).Accumulated ↔ c.Accumulated := by
  unfold Accumulated
  simp [parts]

theorem accumulated_joined_iff :
    (joined j cs).Accumulated ↔ j.Accumulates cs ∧ ∀ c ∈ cs, c.Accumulated := by
  unfold Accumulated
  simp only [parts, partsEach_eq_flatMap, List.mem_cons, List.mem_flatMap, joined.injEq]
  constructor
  · intro h
    exact ⟨h j cs (.inl ⟨rfl, rfl⟩), fun c hc i operands hpart =>
      h i operands (.inr ⟨c, hc, hpart⟩)⟩
  · rintro ⟨hj, hcs⟩ i operands (⟨rfl, rfl⟩ | ⟨c, hc, hpart⟩)
    · exact hj
    · exact hcs c hc i operands hpart

end Cond

namespace Joiner.Accumulates

variable {j : Joiner} {c added : Cond} {cs : List Cond}

theorem pair (hc : ∀ i inner, c = .joined i inner → i ≠ j) (hadded : added.Single) :
    j.Accumulates [c, added] where
  two := Nat.le_refl _
  first i inner h := hc i inner (Option.some.inj h)
  rest := List.forall_mem_singleton.mpr hadded

theorem concat (h : j.Accumulates cs) (hadded : added.Single) : j.Accumulates (cs ++ [added]) := by
  obtain ⟨hlength, hfirst, hrest⟩ := h
  obtain ⟨c, cs, rfl⟩ := List.exists_cons_of_length_pos (Nat.lt_of_lt_of_le Nat.zero_lt_two hlength)
  exact
    { two := by simp
      first := hfirst
      rest := List.forall_mem_append.mpr ⟨hrest, List.forall_mem_singleton.mpr hadded⟩ }

end Joiner.Accumulates

/-- The shape is kept when a predicate or a group is added. -/
theorem Cond.Accumulated.combine {existing : Option Cond} {j : Joiner} {added : Cond}
    (h : ∀ c ∈ existing, c.Accumulated) (hadded : added.Accumulated) (hsingle : added.Single) :
    (combine existing j added).Accumulated := by
  have both {c : Cond} (hc : c.Accumulated) (hj : ∀ i inner, c = joined i inner → i ≠ j) :
      (joined j [c, added]).Accumulated :=
    accumulated_joined_iff.mpr ⟨.pair hj hsingle,
      List.forall_mem_cons.mpr ⟨hc, List.forall_mem_singleton.mpr hadded⟩⟩
  unfold Cond.combine
  split
  · exact hadded
  · next i operands =>
    have hexisting : (joined i operands).Accumulated := h _ rfl
    split
    · next hi =>
      obtain ⟨hoperands, hall⟩ := accumulated_joined_iff.mp hexisting
      rw [← hi]
      exact accumulated_joined_iff.mpr ⟨hoperands.concat hsingle,
        List.forall_mem_append.mpr ⟨hall, List.forall_mem_singleton.mpr hadded⟩⟩
    · next hi =>
      refine both hexisting fun i' inner hjoined => ?_
      cases hjoined
      exact hi
  · next c hc => exact both (h c rfl) fun i inner hjoined => absurd hjoined (hc i inner)

/-! ## What calls add -/

/-- What was added to the conditions of rows, of groups, and of each join, in the order of the
calls. -/
structure Ledger where
  filter : List Addition := []
  having : List Addition := []
  joins : List (List Addition) := []

/-- One more addition to the condition that is kept in the field, which among joins is that of the
last. -/
def Ledger.enter (L : Ledger) (a : Addition) : Query.Field → Ledger
  | .having => { L with having := L.having ++ [a] }
  | .joins => { L with joins := L.joins.modifyLast (· ++ [a]) }
  | _ => { L with filter := L.filter ++ [a] }

namespace Query

/-- The calls that led to the query added what the ledger lists, each to the clause that its method
writes. A group holds what was added in its draft, and a join what was added to the first join of
its draft. -/
inductive Recorded : Query → Ledger → Prop
  | started {q : Query} (h : q.Started Listed.Named) :
      Recorded q { joins := q.joins.map fun _ => [] }
  | predicate {q r : Query} {L : Ledger} {K : Clause} {link : Link} {o : Operand} {e : Expr}
      (hq : Recorded q L)
      (he : o.toExpr (Method.condition K link).name = .ok e)
      (h : q.restrict K link (.operand o) = .ok r) :
      Recorded r (L.enter (.predicate e) (q.command.field (.condition K link)))
  | group {q r result : Query} {L inside : Ledger} {K : Clause} {link : Link}
      {build : Query → Outcome Query}
      (hq : Recorded q L) (hbuild : build (.inScope (.condition K)) = .ok result)
      (hresult : Recorded result inside) (h : q.restrict K link (.draft build) = .ok r) :
      Recorded r (L.enter (.group inside.filter) (q.command.field (.condition K link)))
  | join {q r : Query} {L : Ledger} {kind : JoinKind} {t : Table} (hq : Recorded q L)
      (h : q.join kind t = .ok r) : Recorded r { L with joins := L.joins ++ [[]] }
  | joinDraft {q r result : Query} {L drafted : Ledger} {kind : JoinKind} {t : Table}
      {build : Query → Outcome Query} (hq : Recorded q L)
      (hbuild : build (.joining { kind, table := t }) = .ok result)
      (hresult : Recorded result drafted) (h : q.join kind t (some build) = .ok r) :
      Recorded r { L with joins := L.joins ++ drafted.joins.take 1 }
  | other {A : Operand → Prop} {P : Query → Prop} {q r : Query} {L : Ledger} {m : Method}
      (hq : Recorded q L)
      (h : Called A P m q r) (hcondition : ∀ K link, m ≠ .condition K link)
      (hjoin : ∀ kind, m ≠ .join kind) : Recorded r L

/-- What the conditions of a query read as. -/
def ledger (q : Query) : Ledger where
  filter := Cond.additions? q.filter
  having := Cond.additions? q.having
  joins := q.joins.map fun j => Cond.additions? j.condition

/-- All conditions of a query are accumulated. -/
structure Accumulated (q : Query) : Prop where
  filter : ∀ c ∈ q.filter, c.Accumulated
  having : ∀ c ∈ q.having, c.Accumulated
  pairing : ∀ j ∈ q.joins, ∀ c ∈ j.condition, c.Accumulated

variable {A : Operand → Prop} {N : Listed → Prop} {q r : Query}

theorem Called.kept {P : Query → Prop} {m : Method} (h : Called A P m q r)
    (hcondition : ∀ K link, m ≠ .condition K link) (hjoin : ∀ kind, m ≠ .join kind) :
    r.filter = q.filter ∧ r.having = q.having ∧
    r.joins.map Join.condition = q.joins.map Join.condition := by
  cases h with
  | restrict => exact absurd rfl (hcondition _ _)
  | join => exact absurd rfl (hjoin _)
  | joinDraft => exact absurd rfl (hjoin _)
  | target h => obtain ⟨-, rfl⟩ := target_eq_ok h; exact ⟨rfl, rfl, rfl⟩
  | share h =>
    obtain ⟨-, -, front, last, hjoins, -, -, rfl⟩ := share_eq_ok h
    exact ⟨rfl, rfl, by simp [hjoins]⟩
  | groupBy _ h => obtain ⟨-, -, rfl⟩ := groupBy_eq_ok h; exact ⟨rfl, rfl, rfl⟩
  | orderBy _ h => obtain ⟨-, nodes, -, rfl⟩ := orderBy_eq_ok h; exact ⟨rfl, rfl, rfl⟩
  | fetch h => obtain ⟨-, -, rfl⟩ := fetch_eq_ok h; exact ⟨rfl, rfl, rfl⟩
  | skip h => obtain ⟨-, -, rfl⟩ := skip_eq_ok h; exact ⟨rfl, rfl, rfl⟩
  | distinct h => obtain ⟨-, rfl⟩ := distinct_eq_ok h; exact ⟨rfl, rfl, rfl⟩
  | values _ h =>
    obtain ⟨-, columns, built, -, -, -, rfl⟩ := insertRows_eq_ok h; exact ⟨rfl, rfl, rfl⟩
  | assign _ h => obtain ⟨-, added, -, -, rfl⟩ := assign_eq_ok h; exact ⟨rfl, rfl, rfl⟩
  | assignColumn _ h => obtain ⟨-, e, -, rfl⟩ := assignColumn_eq_ok h; exact ⟨rfl, rfl, rfl⟩
  | ifExists h => obtain ⟨-, rfl⟩ := onlyIfExists_eq_ok h; exact ⟨rfl, rfl, rfl⟩
  | ifNotExists h => obtain ⟨-, rfl⟩ := onlyIfMissing_eq_ok h; exact ⟨rfl, rfl, rfl⟩

theorem Restricts.ledger_eq {K : Clause} {link : Link} {added : Cond} {a : Addition}
    (hadmits : q.command.admits (.condition K link) = true) (hadded : added.additions = [a])
    (h : q.Restricts K link.joiner added r) :
    r.ledger = q.ledger.enter a (q.command.field (.condition K link)) := by
  have hcombine (c : Option Cond) :
      Cond.additions? (some (.combine c link.joiner added)) = Cond.additions? c ++ [a] := by
    rw [← hadded, ← Cond.additions_combine]
    exact List.append_nil _
  cases h with
  | having hK hholds =>
    subst hK
    rw [field_having_of_holds link hholds]
    simp [ledger, Ledger.enter, hcombine]
  | pairing hK hholds hjoins =>
    subst hK
    rw [field_pairing_of_holds link hholds]
    simp [ledger, Ledger.enter, hcombine, hjoins, List.modifyLast_concat]
  | filter hK =>
    rw [field_condition_of_admits hadmits hK]
    simp [ledger, Ledger.enter, hcombine]

theorem Started.ledger_eq (h : q.Started N) : q.ledger = { joins := q.joins.map fun _ => [] } := by
  cases h with
  | select _ h =>
    obtain ⟨items, -, h⟩ := bind_eq_ok_iff.mp h
    cases h
    rfl
  | _ => rfl

theorem ledger_congr (hfilter : r.filter = q.filter) (hhaving : r.having = q.having)
    (hjoins : r.joins.map Join.condition = q.joins.map Join.condition) : r.ledger = q.ledger := by
  have hmap (q : Query) : q.joins.map (fun j => Cond.additions? j.condition) =
      (q.joins.map Join.condition).map Cond.additions? := by
    rw [List.map_map]
    rfl
  rw [ledger, ledger, hmap, hmap, hfilter, hhaving, hjoins]

/-- The ledger of the calls is what the conditions read as. -/
theorem Recorded.eq_ledger {L : Ledger} (h : q.Recorded L) : L = q.ledger := by
  induction h with
  | started h => exact h.ledger_eq.symm
  | predicate _ he h ih =>
    obtain ⟨hadmits, added, hadded, hr⟩ := restrict_eq_ok h
    obtain ⟨e', he', -, rfl⟩ := Criterion.condition_operand_eq_ok hadded
    obtain rfl := Except.ok.inj (he.symm.trans he')
    rw [ih, hr.ledger_eq hadmits rfl]
  | @group _ _ result _ _ _ _ _ _ hbuild _ h ih ihresult =>
    obtain ⟨hadmits, added, hadded, hr⟩ := restrict_eq_ok h
    obtain ⟨result', c, hok, -, hc, rfl⟩ := Criterion.condition_draft_eq_ok hadded
    obtain rfl := Except.ok.inj (hbuild.symm.trans hok)
    have hinside : result.ledger.filter = c.additions := by
      rw [ledger, hc]
      exact List.append_nil _
    rw [ih, hr.ledger_eq hadmits rfl, ihresult, hinside]
  | join _ h ih =>
    obtain ⟨-, rfl⟩ := join_none_eq_ok h
    rw [ih]
    simp [ledger, Cond.additions?]
  | joinDraft _ hbuild _ h ih ihresult =>
    obtain ⟨-, result, j, rest, hok, -, hjoins, rfl⟩ := join_some_eq_ok h
    obtain rfl := Except.ok.inj (hbuild.symm.trans hok)
    rw [ih, ihresult]
    simp [ledger, hjoins]
  | other _ h hcondition hjoin ih =>
    obtain ⟨hfilter, hhaving, hjoins⟩ := h.kept hcondition hjoin
    rw [ih, ledger_congr hfilter hhaving hjoins]

/-! ## The shape that calls keep -/

theorem Started.accumulated (h : q.Started N) : q.Accumulated := by
  cases h with
  | select _ h =>
    obtain ⟨items, -, h⟩ := bind_eq_ok_iff.mp h
    cases h
    exact ⟨nofun, nofun, nofun⟩
  | joining => exact ⟨nofun, nofun, List.forall_mem_singleton.mpr nofun⟩
  | _ => exact ⟨nofun, nofun, nofun⟩

theorem Accumulated.kept (hq : q.Accumulated) (hfilter : r.filter = q.filter)
    (hhaving : r.having = q.having)
    (hjoins : r.joins.map Join.condition = q.joins.map Join.condition) : r.Accumulated where
  filter := hfilter ▸ hq.filter
  having := hhaving ▸ hq.having
  pairing j hj := by
    obtain ⟨j', hj', hcondition⟩ :=
      List.mem_map.mp (hjoins ▸ List.mem_map_of_mem (f := Join.condition) hj)
    exact hcondition ▸ hq.pairing j' hj'

theorem Accumulated.joined {j : Join} (hq : q.Accumulated) (hj : ∀ c ∈ j.condition, c.Accumulated) :
    ({ q with joins := q.joins ++ [j] } : Query).Accumulated :=
  { hq with pairing := List.forall_mem_append.mpr ⟨hq.pairing, List.forall_mem_singleton.mpr hj⟩ }

theorem Accumulated.restricts {K : Clause} {j : Joiner} {added : Cond} (hq : q.Accumulated)
    (hadded : added.Accumulated) (hsingle : added.Single) (h : q.Restricts K j added r) :
      r.Accumulated := by
  have combined {c : Option Cond} (hc : ∀ d ∈ c, d.Accumulated) :
      ∀ d ∈ some (Cond.combine c j added), d.Accumulated := by
    rintro d ⟨⟩
    exact .combine hc hadded hsingle
  cases h with
  | having => exact { hq with having := combined hq.having }
  | filter => exact { hq with filter := combined hq.filter }
  | pairing _ _ hjoins =>
    have hpairing := hq.pairing
    rw [hjoins, List.forall_mem_append, List.forall_mem_singleton] at hpairing
    refine { hq with pairing := List.forall_mem_append.mpr ⟨hpairing.1, ?_⟩ }
    exact List.forall_mem_singleton.mpr (combined hpairing.2)

theorem Called.accumulated {m : Method} (hq : q.Accumulated) (h : Called A Accumulated m q r) :
    r.Accumulated := by
  cases m with
  | condition K link =>
    cases h with
    | restrict ha h =>
      obtain ⟨-, added, hadded, hr⟩ := restrict_eq_ok h
      cases ha with
      | operand =>
        obtain ⟨e, -, -, rfl⟩ := Criterion.condition_operand_eq_ok hadded
        exact hq.restricts (Cond.accumulated_predicate e) nofun hr
      | draft hbuild hresult =>
        obtain ⟨result, c, hok, -, hc, rfl⟩ := Criterion.condition_draft_eq_ok hadded
        obtain rfl := Except.ok.inj (hbuild.symm.trans hok)
        exact hq.restricts (Cond.accumulated_group_iff.mpr (hresult.filter c hc)) nofun hr
  | join kind =>
    cases h with
    | join h => obtain ⟨-, rfl⟩ := join_none_eq_ok h; exact hq.joined nofun
    | joinDraft hbuild hresult h =>
      obtain ⟨-, result, j, rest, hok, -, hjoins, rfl⟩ := join_some_eq_ok h
      obtain rfl := Except.ok.inj (hbuild.symm.trans hok)
      exact hq.joined (hresult.pairing j (hjoins ▸ List.mem_cons_self))
  | _ =>
    obtain ⟨hfilter, hhaving, hjoins⟩ := h.kept nofun nofun
    exact hq.kept hfilter hhaving hjoins

/-! ## Queries that are reached -/

theorem Recorded.ledger {L : Ledger} (h : q.Recorded L) : q.Recorded q.ledger := h.eq_ledger ▸ h

theorem Called.recorded {m : Method} (hq : q.Recorded q.ledger)
    (h : Called A (fun q => q.Recorded q.ledger) m q r) : r.Recorded r.ledger := by
  cases m with
  | condition K link =>
    cases h with
    | restrict ha h =>
      cases ha with
      | operand =>
        obtain ⟨-, added, hadded, -⟩ := restrict_eq_ok h
        obtain ⟨e, he, -, -⟩ := Criterion.condition_operand_eq_ok hadded
        exact (Recorded.predicate hq he h).ledger
      | draft hbuild hresult => exact (Recorded.group hq hbuild hresult h).ledger
  | join kind =>
    cases h with
    | join h => exact (Recorded.join hq h).ledger
    | joinDraft hbuild hresult h => exact (Recorded.joinDraft hq hbuild hresult h).ledger
  | _ => exact (Recorded.other hq h nofun nofun).ledger

/-- In every query that calls reach, each word joins two conditions or more, of which only the first
may be joined by a word as well, and by the other one; and from left to right the conditions read as
what the calls added, in order. -/
theorem Reached.conditions_accumulate (h : q.Reached) :
    q.Accumulated ∧ ∀ L, q.Recorded L ↔ L = q.ledger := by
  have hrecorded : q.Recorded q.ledger :=
    h.induction (fun _ h => (Recorded.started h).ledger) fun _ _ _ hq h => h.recorded hq
  refine ⟨h.induction (fun _ h => h.accumulated) fun _ _ _ hq h => h.accumulated hq, fun L => ?_⟩
  exact ⟨Recorded.eq_ledger, fun hL => hL ▸ hrecorded⟩

/-- Such as a group behind two conditions that another word joins. -/
theorem Reached.conditions_accumulate_mixed :
    let yes : Expr := .literal (.truth true) (.concrete .boolean)
    let no : Expr := .literal (.truth false) (.concrete .boolean)
    let q : Query :=
      { delete with filter := some (.joined .both
        [.joined .either [.predicate yes, .predicate no],
          .group (.joined .either [.predicate no, .predicate yes])]) }
    q.Reached ∧ q.Accumulated ∧
      q.Recorded { filter := [.predicate yes, .predicate no,
        .group [.predicate no, .predicate yes]] } := by
  intro yes no q
  let truth (b : Bool) : Criterion := .operand (.value (.truth b))
  let draft (s : Query) : Outcome Query := do
    (← s.restrict .filter .plain (truth false)).restrict .filter .either (truth true)
  let one : Query := { inScope (.condition .filter) with filter := some (.predicate no) }
  let group : Query := { one with filter := some (.joined .either [.predicate no, .predicate yes]) }
  have hone : (inScope (.condition .filter)).restrict .filter .plain (truth false) = .ok one := rfl
  have hboth : one.restrict .filter .either (truth true) = .ok group := rfl
  have hdraft : draft (.inScope (.condition .filter)) = .ok group := rfl
  have hgroup : group.Reached :=
    .called (.called (.started (.inScope _)) (.restrict (.operand trivial) hone))
      (.restrict (.operand trivial) hboth)
  let first : Query := { delete with filter := some (.predicate yes) }
  let either : Query :=
    { delete with filter := some (.joined .either [.predicate yes, .predicate no]) }
  have hfirst : delete.restrict .filter .plain (truth true) = .ok first := rfl
  have heither : first.restrict .filter .either (truth false) = .ok either := rfl
  have hq : either.restrict .filter .both (.draft draft) = .ok q := rfl
  have hreached : q.Reached :=
    .called (.called (.called (.started .delete) (.restrict (.operand trivial) hfirst))
      (.restrict (.operand trivial) heither))
      (.restrict (.draft hdraft hgroup) hq)
  obtain ⟨haccumulated, hrecorded⟩ := hreached.conditions_accumulate
  exact ⟨hreached, haccumulated, (hrecorded _).mpr rfl⟩

end Query

end SqlDraft
