import SqlDraft.Proofs.Decimal.Count
import SqlDraft.Proofs.Drafting.Made
import SqlDraft.Proofs.Drafting.Reached

/-! Queries are well typed in all their clauses, whatever expressions their methods were called with
(`Query.Reached.clauses_wellTyped`). Conditions come from operands, which are checked, and from
drafts, which come of the same calls; both are kept in one of three places, and only ever joined to
what is there. -/

namespace SqlDraft

open Sql

/-- At every leaf stands an expression that is a truth value, or one of a type that is not known. -/
def Cond.Decides (c : Cond) : Prop :=
  ∀ e ∈ c.exprs, e.type.inner = .any ∨ e.type.inner = .concrete .boolean

/-- A call that tells in which direction rows are ordered. -/
def Expr.Orders (e : Expr) : Prop :=
  ∃ head args, e = .call head args ∧ (head.function = "asc" ∨ head.function = "desc")

structure Query.WellTyped (q : Query) : Prop where
  filter : ∀ c ∈ q.filter, c.Decides
  having : ∀ c ∈ q.having, c.Decides
  pairing : ∀ j ∈ q.joins, ∀ c ∈ j.condition, c.Decides
  grouping : ∀ e ∈ q.grouping, ∃ t, e.type = .collection t
  ordering : ∀ e ∈ q.ordering, e.Orders
  projection : ∀ i ∈ q.projection, ∀ vs t, i.expr ≠ .list vs t
  limit : ∀ n ∈ q.limit, ∃ k : ℕ, Decimal.value? n = some (k : Rat)
  offset : ∀ n ∈ q.offset, ∃ k : ℕ, Decimal.value? n = some (k : Rat)

/-! ## Conditions -/

theorem Cond.Decides.combine {existing : Option Cond} {j : Joiner} {added : Cond}
    (h : ∀ c ∈ existing, c.Decides) (hadded : added.Decides) :
    ∀ c ∈ some (Cond.combine existing j added), c.Decides := by
  rintro c ⟨⟩
  exact Cond.forall_exprs_combine h hadded

theorem Criterion.Within.decides {A : Operand → Prop} {m : Method} {K : Clause} {a : Criterion}
    {added : Cond}
    (ha : a.Within A Query.WellTyped K) (h : a.condition m K = .ok added) : added.Decides := by
  cases ha with
  | operand =>
    obtain ⟨e, -, htype, rfl⟩ := condition_operand_eq_ok h
    exact List.forall_mem_singleton.mpr (by simpa [Ty.decides] using htype)
  | draft hbuild hresult =>
    obtain ⟨result, inside, hok, -, hinside, rfl⟩ := condition_draft_eq_ok h
    obtain rfl := Except.ok.inj (hbuild.symm.trans hok)
    exact hresult.filter inside hinside

namespace Query

variable {A : Operand → Prop} {q r : Query}

/-! ## Clauses -/

theorem orders_ordering? {e e' : Expr} (h : ordering? e = .ok e') : e'.Orders := by
  unfold ordering? at h
  split at h
  · obtain ⟨head, hname, -, rfl⟩ := Signature.applyExprs_eq_ok h
    exact ⟨head, _, rfl, .inl hname⟩
  · next head args =>
    split at h
    · next hname => cases h; exact ⟨head, args, rfl, hname⟩
    · cases h
  · cases h

theorem item_ne_list {i : Listed} {item : Item} (hi : i.Named) (h : i.item = .ok item) :
    ∀ vs t, item.expr ≠ .list vs t := by
  cases i with
  | star t => cases h; nofun
  | labelled e label => cases h; exact hi
  | operand o =>
    obtain ⟨e, -, h⟩ := bind_eq_ok_iff.mp h
    split at h
    · cases h
    · next hlist => cases h; exact fun vs t => hlist vs t

theorem wellTyped_of_empty (c : Command) (t : Option Table) :
    ({ command := c, table := t } : Query).WellTyped := by
  constructor <;> nofun

theorem Started.wellTyped (h : q.Started Listed.Named) : q.WellTyped := by
  cases h with
  | @select items _ hitems h =>
    obtain ⟨made, hmade, h⟩ := bind_eq_ok_iff.mp h
    cases h
    refine { wellTyped_of_empty (.statement .select) none with projection := fun item hitem => ?_ }
    obtain ⟨i, hi, hok⟩ := exists_of_mem_mapM hmade hitem
    exact item_ne_list (hitems i hi) hok
  | joining kind t =>
    exact { wellTyped_of_empty
      (.scope .join) t with pairing := List.forall_mem_singleton.mpr nofun }
  | _ => exact wellTyped_of_empty _ _

/-! ## Methods -/

theorem WellTyped.joined {j : Join} (hq : q.WellTyped) (hj : ∀ c ∈ j.condition, c.Decides) :
    ({ q with joins := q.joins ++ [j] } : Query).WellTyped :=
  { hq with pairing := List.forall_mem_append.mpr ⟨hq.pairing, List.forall_mem_singleton.mpr hj⟩ }

theorem WellTyped.changed {front : List Join} {last j : Join} (hq : q.WellTyped)
    (hjoins : q.joins = front ++ [last])
    (hj : (∀ c ∈ last.condition, c.Decides) → ∀ c ∈ j.condition, c.Decides) :
    ({ q with joins := front ++ [j] } : Query).WellTyped := by
  have hpairing := hq.pairing
  rw [hjoins, List.forall_mem_append, List.forall_mem_singleton] at hpairing
  refine { hq with pairing := List.forall_mem_append.mpr ⟨hpairing.1, ?_⟩ }
  exact List.forall_mem_singleton.mpr (hj hpairing.2)

theorem WellTyped.restricts {K : Clause} {j : Joiner} {added : Cond} (hq : q.WellTyped)
    (hadded : added.Decides) (hr : q.Restricts K j added r) : r.WellTyped := by
  cases hr with
  | having => exact { hq with having := .combine hq.having hadded }
  | filter => exact { hq with filter := .combine hq.filter hadded }
  | pairing _ _ hjoins => exact hq.changed hjoins fun hlast => .combine hlast hadded

theorem Called.wellTyped {m : Method} (hq : q.WellTyped) (h : Called A WellTyped m q r) :
    r.WellTyped := by
  cases h with
  | target h => obtain ⟨-, rfl⟩ := target_eq_ok h; exact { hq with }
  | restrict ha h =>
    obtain ⟨-, added, hadded, hr⟩ := restrict_eq_ok h
    exact hq.restricts (ha.decides hadded) hr
  | join h => obtain ⟨-, rfl⟩ := join_none_eq_ok h; exact hq.joined nofun
  | joinDraft hbuild hresult h =>
    obtain ⟨-, result, j, rest, hok, -, hjoins, rfl⟩ := join_some_eq_ok h
    obtain rfl := Except.ok.inj (hbuild.symm.trans hok)
    exact hq.joined (hresult.pairing j (hjoins ▸ List.mem_cons_self))
  | share h =>
    obtain ⟨-, -, front, last, hjoins, -, -, rfl⟩ := share_eq_ok h
    exact hq.changed hjoins id
  | groupBy _ h =>
    obtain ⟨-, hcollection, rfl⟩ := groupBy_eq_ok h
    refine { hq with grouping := List.forall_mem_append.mpr ⟨hq.grouping, fun e he => ?_⟩ }
    exact Ty.isCollection_iff.mp (hcollection e he)
  | orderBy _ h =>
    obtain ⟨-, nodes, hnodes, rfl⟩ := orderBy_eq_ok h
    refine { hq with ordering := List.forall_mem_append.mpr ⟨hq.ordering, fun e he => ?_⟩ }
    obtain ⟨e', -, he'⟩ := exists_of_mem_mapM hnodes he
    exact orders_ordering? he'
  | fetch h =>
    obtain ⟨-, hn, rfl⟩ := fetch_eq_ok h
    exact { hq with limit := fun _ h => Option.some.inj h ▸ Decimal.isCount_iff.mp hn }
  | skip h =>
    obtain ⟨-, hn, rfl⟩ := skip_eq_ok h
    exact { hq with offset := fun _ h => Option.some.inj h ▸ Decimal.isCount_iff.mp hn }
  | distinct h => obtain ⟨-, rfl⟩ := distinct_eq_ok h; exact { hq with }
  | values _ h => obtain ⟨-, columns, built, -, -, -, rfl⟩ := insertRows_eq_ok h; exact { hq with }
  | assign _ h => obtain ⟨-, added, -, -, rfl⟩ := assign_eq_ok h; exact { hq with }
  | assignColumn _ h => obtain ⟨-, e, -, rfl⟩ := assignColumn_eq_ok h; exact { hq with }
  | ifExists h => obtain ⟨-, rfl⟩ := onlyIfExists_eq_ok h; exact { hq with }
  | ifNotExists h => obtain ⟨-, rfl⟩ := onlyIfMissing_eq_ok h; exact { hq with }

/-- Every query that drafting reaches is well typed in all its clauses. -/
theorem Reached.clauses_wellTyped (h : q.Reached) : q.WellTyped :=
  h.induction (fun _ h => h.wellTyped) fun _ _ _ hq h => h.wellTyped hq

/-- A select by groups, with a group of conditions that was drafted, is well typed when it is
ordered as well. -/
theorem Reached.clauses_wellTyped_pets :
    let pets : Table := { serial := 0, name := "pets" }
    let c : Column := { table := pets, name := "weight", data := .concrete .number }
    let p : Cond := .predicate (.literal (.truth true) (.concrete .boolean))
    let q : Query :=
      { command := .statement .select
        projection := [⟨.column c, none⟩]
        having := some (.group p)
        grouping := [.column c] }
    ∃ r, q.orderBy [.column c] = .ok r ∧ r.Reached ∧ r.WellTyped := by
  intro pets c p q
  let truth : Criterion := .operand (.value (.truth true))
  let s : Query := { command := .statement .select, projection := [⟨.column c, none⟩] }
  let group : Query := { inScope (.condition .having) with filter := some p }
  have hselect : Query.select [.operand (.expr (.column c))] = .ok s := rfl
  have hnamed : Listed.Named (.operand (.expr (.column c))) := trivial
  have hs : s.Reached := .started (.select (List.forall_mem_singleton.mpr hnamed) hselect)
  have hbuild : (inScope (.condition .having)).restrict .filter .plain truth = .ok group := rfl
  have hgroup : group.Reached :=
    .called (.started (.inScope _)) (.restrict (.operand trivial) hbuild)
  have hhaving : s.restrict .having .either
      (.draft fun draft => draft.restrict .filter .plain truth) =
      .ok { s with having := some (.group p) } := rfl
  have hgrouping : Query.groupBy { s with having := some (.group p) } [.column c] = .ok q := rfl
  have hq : q.Reached :=
    .called (.called hs (.restrict (.draft hbuild hgroup) hhaving))
      (.groupBy (fun _ _ => trivial) hgrouping)
  obtain ⟨r, hr⟩ : ∃ r, q.orderBy [.column c] = .ok r := ⟨_, rfl⟩
  have hreached : r.Reached := .called hq (.orderBy (fun _ _ => trivial) hr)
  exact ⟨r, hr, hreached, hreached.clauses_wellTyped⟩

end Query

end SqlDraft
