import SqlDraft.Proofs.Drafting.Action
import SqlDraft.Query.Handle

/-! Runs of methods on handles. A handle goes by a command of its own, beside that of its node; the
two agree where handles begin, and every method keeps both, whatever the drafts among its arguments
hand back. So the methods of a handle are those of its node (`Handle.run_of_agrees`), and what these
leave alone stays as it was at the start (`Handle.run_frame`). -/

namespace SqlDraft

open Sql

namespace Handle

/-- The command of the handle is that of its node. -/
def Agrees (h : Handle) : Prop := h.command = h.node.command

/-- Where handles begin, those given to drafts too. -/
inductive Started (N : Listed → Prop) : Handle → Prop
  | select {items : List Listed} {h : Handle} (hitems : ∀ i ∈ items, N i)
      (hh : Handle.select items = .ok h) : Started N h
  | delete : Started N .delete
  | insertInto (t : Table) : Started N (.insertInto t)
  | update (t : Table) : Started N (.update t)
  | create (t : Table) : Started N (.create t)
  | drop (t : Table) : Started N (.drop t)
  | inScope (s : Scope) : Started N (.inScope s)
  | joining (kind : JoinKind) (t : Table) : Started N (.joining { kind, table := t })

/-- The action called on the handle. -/
def apply (h : Handle) (a : Query.Action) : Outcome Handle := h.call fun q k => a.apply q k

def run : List Query.Action → Handle → Outcome Handle
  | [], h => .ok h
  | a :: l, h => h.apply a >>= run l

variable {N : Listed → Prop} {s h r : Handle}

/-! ## Drafts for handles -/

@[simp] theorem seen_on (q : Query) : (on q).seen = q := by
  cases q
  rfl

/-- Whatever a draft may hand back to a method, it hands back by handles. -/
theorem exists_drafted_eq (build : Query → Outcome Query) : ∃ build', drafted build' = build := by
  refine ⟨fun h => (build h.seen).map on, funext fun q => ?_⟩
  rw [drafted, seen_on, Sql.map_map]
  cases build q with
  | error f => rfl
  | ok r => exact congrArg Except.ok (seen_on r)

/-! ## The two commands -/

theorem on_node (hh : h.Agrees) : on h.node = h := by
  obtain ⟨k, q⟩ := h
  obtain rfl : k = q.command := hh
  rfl

theorem Started.agrees (hs : s.Started N) : s.Agrees := by
  cases hs with
  | select _ hh =>
    obtain ⟨q, hq, hh⟩ := bind_eq_ok_iff.mp hh
    cases hh
    obtain ⟨items, -, hq⟩ := bind_eq_ok_iff.mp hq
    cases hq
    rfl
  | _ => rfl

theorem Started.node (hs : s.Started N) : s.node.Started N := by
  cases hs with
  | select hitems hh =>
    obtain ⟨q, hq, hh⟩ := bind_eq_ok_iff.mp hh
    cases hh
    exact .select hitems hq
  | delete => exact .delete
  | insertInto t => exact .insertInto t
  | update t => exact .update t
  | create t => exact .create t
  | drop t => exact .drop t
  | inScope scope => exact .inScope scope
  | joining kind t => exact .joining kind t

/-- Methods keep the command of a handle, whatever its node goes by. -/
theorem command_apply {a : Query.Action} (hr : h.apply a = .ok r) : r.command = h.command := by
  obtain ⟨q, -, rfl⟩ := map_eq_ok_iff.mp hr
  rfl

/-- A handle that agrees with its node has the methods of the node. -/
theorem apply_of_agrees (hh : h.Agrees) (a : Query.Action) :
    h.apply a = (a.apply h.node).map on := by
  obtain ⟨k, q⟩ := h
  obtain rfl : k = q.command := hh
  change (a.apply q).map (fun n => (⟨q.command, n⟩ : Handle)) = (a.apply q).map on
  cases hq : a.apply q with
  | error f => rfl
  | ok n =>
    have hcommand := Query.Action.command_apply hq
    change Except.ok (⟨q.command, n⟩ : Handle) = .ok ⟨n.command, n⟩
    rw [hcommand]

theorem run_of_agrees (hh : h.Agrees) (l : List Query.Action) :
    run l h = (Query.Action.run l h.node).map on := by
  induction l generalizing h with
  | nil => exact congrArg Except.ok (on_node hh).symm
  | cons a l ih =>
    rw [run, Query.Action.run, apply_of_agrees hh a]
    cases hq : a.apply h.node with
    | error f => rfl
    | ok n => exact ih (h := on n) rfl

end Handle

/-! ## What runs leave alone -/

namespace Query

variable {N : Listed → Prop} {q : Query}

/-- Statements but for a select begin with their target alone. -/
theorem Started.exists_ofStatement {c : Statement} (h : q.Started N)
    (hcommand : q.command = .statement c) (hc : c ≠ .select) : ∃ t, q = ofStatement c t := by
  cases h with
  | select _ h =>
    obtain ⟨items, -, h⟩ := bind_eq_ok_iff.mp h
    cases h
    cases hcommand
    exact absurd rfl hc
  | inScope => cases hcommand
  | joining => cases hcommand
  | _ => cases hcommand; exact ⟨_, rfl⟩

theorem not_writes {c : Statement} (hc : c ≠ .select) :
    ∀ f ∈ [Field.projection, .joins, .grouping, .limit, .offset],
      ¬ (Command.statement c).Writes f := by
  cases c with
  | select => exact absurd rfl hc
  | _ => decide

end Query

namespace Handle

variable {N : Listed → Prop} {s h : Handle}

/-- Runs keep the two commands one, and all fields that the command has no method for as they were
at the start; statements but for a select have no items, joins, groups or paging. Each further
action changes no more than what its method writes. -/
theorem run_frame {l : List Query.Action} (hs : s.Started N) (hrun : run l s = .ok h) :
    h.command = h.node.command ∧ h.command = s.command ∧
      (∀ f, ¬ h.command.Writes f → h.node.field f = s.node.field f) ∧
      (∀ c, h.command = .statement c → c ≠ .select → h.node.projection = [] ∧ h.node.joins = [] ∧
        h.node.grouping = [] ∧ h.node.limit = none ∧ h.node.offset = none) ∧
      ∀ (a : Query.Action) (r : Handle), h.apply a = .ok r →
        h.command.admits a.method = true ∧ r.command = h.command ∧
        h.node.Edited a.method r.node := by
  rw [run_of_agrees hs.agrees] at hrun
  obtain ⟨q, hq, rfl⟩ := map_eq_ok_iff.mp hrun
  have hcommand : q.command = s.node.command := Query.Action.command_run hq
  have hfield (f : Query.Field) (hf : ¬ q.command.Writes f) : q.field f = s.node.field f :=
    Query.Action.field_run hq (hcommand ▸ hf)
  refine ⟨rfl, hcommand.trans hs.agrees.symm, hfield, fun c hc hselect => ?_, fun a r hr => ?_⟩
  · replace hc : q.command = .statement c := hc
    obtain ⟨t, ht⟩ := hs.node.exists_ofStatement (hcommand.symm.trans hc) hselect
    have hkept (f : Query.Field) (hf : f ∈ [.projection, .joins, .grouping, .limit, .offset]) :
        q.field f = (Query.ofStatement c t).field f := by
      rw [hfield f (hc ▸ Query.not_writes hselect f hf), ht]
    exact ⟨hkept .projection (by decide), hkept .joins (by decide), hkept .grouping (by decide),
      hkept .limit (by decide), hkept .offset (by decide)⟩
  · have hsame := command_apply hr
    rw [apply_of_agrees (h := on q) rfl] at hr
    obtain ⟨n, hn, rfl⟩ := map_eq_ok_iff.mp hr
    obtain ⟨hadmits, hedited⟩ := Query.Action.edited hn
    exact ⟨hadmits, hsame, hedited⟩

/-- A condition that is added to a join leaves the items that the select began with, and the select
is one by both commands. -/
theorem run_frame_pets :
    let pets : Table := { serial := 0, name := "pets" }
    let owners : Table := { serial := 1, name := "owners" }
    let truth (b : Bool) : Criterion := .operand (.value (.truth b))
    let c (b : Bool) : Cond := .predicate (.literal (.truth b) (.concrete .boolean))
    let s : Query := { command := .statement .select, projection := [⟨.star pets, none⟩] }
    let join (c : Cond) : Join := { kind := .left, table := owners, condition := some c }
    let h : Handle := ⟨.statement .select, { s with table := some pets, joins := [join (c true)] }⟩
    let draft (h : Handle) : Outcome Handle := h.apply (.restrict .pairing .plain (truth true))
    (on s).Started Listed.Named ∧
    run [.target pets, .join .left owners (some (drafted draft))] (on s) = .ok h ∧
      h.command = h.node.command ∧ h.node.projection = s.projection ∧
      h.node.Edited (.condition .pairing .both)
        { h.node with joins := [join (.joined .both [c true, c false])] } := by
  intro pets owners truth c s join h draft
  have hs : (on s).Started Listed.Named :=
    @Started.select _ [.star pets] _ (List.forall_mem_singleton.mpr trivial) rfl
  have hrun : run [.target pets, .join .left owners (some (drafted draft))] (on s) = .ok h := rfl
  obtain ⟨hagrees, -, hkept, -, hedited⟩ := run_frame hs hrun
  have hr : h.apply (.restrict .pairing .both (truth false)) =
      .ok { h with node := { h.node with joins := [join (.joined .both [c true, c false])] } } :=
    rfl
  exact ⟨hs, hrun, hagrees, hkept .projection (by decide), (hedited _ _ hr).2.2⟩

end Handle

end SqlDraft
