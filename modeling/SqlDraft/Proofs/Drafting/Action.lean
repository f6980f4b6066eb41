import SqlDraft.Proofs.Drafting.Field
import SqlDraft.Proofs.Drafting.Method
import SqlDraft.Proofs.Drafting.Reached

/-! Methods with their arguments, applied one after the other. Drafts among the arguments may hand
back any query. An action changes the one field that its method writes, and of the joins no more
than the last or one that is added (`Query.Edited`); over a run, the command and all that no method
of it writes stay as they were at the start (`Query.Action.command_run`,
`Query.Action.field_run`). -/

namespace SqlDraft

open Sql

/-- Some method that the command admits writes the field. -/
def Command.Writes (k : Command) (f : Query.Field) : Prop := ∃ m, k.admits m = true ∧ k.field m = f

instance (k : Command) (f : Query.Field) : Decidable (k.Writes f) :=
  decidable_of_iff (∃ m ∈ Method.all, k.admits m = true ∧ k.field m = f)
    ⟨fun ⟨m, _, h⟩ => ⟨m, h⟩, fun ⟨m, h⟩ => ⟨m, Method.mem_all m, h⟩⟩

namespace Query

/-- A method with its arguments. -/
inductive Action where
  | target (t : Table)
  | restrict (K : Clause) (link : Link) (a : Criterion)
  | join (kind : JoinKind) (t : Table) (build : Option (Query → Outcome Query))
  | share (columns : List String)
  | groupBy (es : List Expr)
  | orderBy (es : List Expr)
  | fetch (n : Float)
  | skip (n : Float)
  | distinct
  | values (rows : List (Catalog Operand))
  | assign (record : Catalog Operand)
  | assignColumn (c : Column) (o : Operand)
  | onlyIfExists
  | onlyIfMissing

namespace Action

def method : Action → Method
  | target _ => .target
  | restrict K link _ => .condition K link
  | join kind _ _ => .join kind
  | share _ => .shared
  | groupBy _ => .groupBy
  | orderBy _ => .orderBy
  | fetch _ => .fetch
  | skip _ => .skip
  | distinct => .distinct
  | values _ => .values
  | assign _ | assignColumn _ _ => .set
  | onlyIfExists => .ifExists
  | onlyIfMissing => .ifNotExists

def apply : Action → (q : Query) → (k : Command := q.command) → Outcome Query
  | target t, q, k => q.target t k
  | restrict K link a, q, k => q.restrict K link a k
  | join kind t build, q, k => q.join kind t build k
  | share columns, q, k => q.share columns k
  | groupBy es, q, k => q.groupBy es k
  | orderBy es, q, k => q.orderBy es k
  | fetch n, q, k => q.fetch n k
  | skip n, q, k => q.skip n k
  | distinct, q, k => q.distinct k
  | values rows, q, k => q.insertRows rows k
  | assign record, q, k => q.assign record k
  | assignColumn c o, q, k => q.assignColumn c o k
  | onlyIfExists, q, k => q.onlyIfExists k
  | onlyIfMissing, q, k => q.onlyIfMissing k

def run : List Action → Query → Outcome Query
  | [], q => .ok q
  | a :: l, q => a.apply q >>= run l

end Action

/-- What a method may make of a query. -/
inductive Edited (q : Query) : Method → Query → Prop
  | field {m : Method} {f : Field} (hf : q.command.field m = f) (hjoins : f ≠ .joins)
      (v : f.Value) :
      Edited q m (q.withField f v)
  | join {kind : JoinKind} (j : Join) : Edited q (.join kind) { q with joins := q.joins ++ [j] }
  | pairing {link : Link} {front : List Join} {last : Join} (c : Cond)
      (hcommand : q.command = .statement .select ∨ q.command = .scope .join)
      (hjoins : q.joins = front ++ [last]) :
      Edited q (.condition .pairing link)
        { q with joins := front ++ [{ last with condition := some c }] }
  | shared {front : List Join} {last : Join} (columns : List String)
      (hjoins : q.joins = front ++ [last]) :
      Edited q .shared { q with joins := front ++ [{ last with shared := some columns }] }

variable {q r : Query}

/-! ## Where conditions go -/

theorem holds_having_iff : q.command.holds .having = true ↔ q.command = .statement .select := by
  simp [Command.holds]

theorem holds_pairing_iff :
    q.command.holds .pairing = true ↔
      q.command = .statement .select ∨ q.command = .scope .join := by
  simp [Command.holds]

theorem field_having_of_holds (link : Link) (h : q.command.holds .having = true) :
    q.command.field (.condition .having link) = .having := by
  rw [holds_having_iff.mp h]
  rfl

theorem field_pairing_of_holds (link : Link) (h : q.command.holds .pairing = true) :
    q.command.field (.condition .pairing link) = .joins := by
  rcases holds_pairing_iff.mp h with h | h <;> rw [h] <;> rfl

/-- A condition that is admitted and not kept elsewhere is kept with those of rows. -/
theorem field_condition_of_admits {K : Clause} {link : Link}
    (hadmits : q.command.admits (.condition K link) = true)
    (hK : K = .filter ∨ q.command.holds K = false) :
    q.command.field (.condition K link) = .filter := by
  unfold Command.holds at hK
  generalize q.command = k at hadmits hK ⊢
  rcases k with s | L | -
  · cases s <;> cases K <;> first | rfl | exact absurd hK (by decide) | cases hadmits
  · cases L <;> cases K <;> first | rfl | cases hadmits
  · cases K <;> first | exact absurd hK (by decide) | cases hadmits

theorem Restricts.edited {K : Clause} {link : Link} {added : Cond}
    (hadmits : q.command.admits (.condition K link) = true)
    (h : q.Restricts K link.joiner added r) :
    q.Edited (.condition K link) r := by
  cases h with
  | having hK hq =>
    subst hK
    exact .field (f := .having) (field_having_of_holds link hq) nofun _
  | pairing hK hq hjoins =>
    subst hK
    exact .pairing _ (holds_pairing_iff.mp hq) hjoins
  | filter hK => exact .field (f := .filter) (field_condition_of_admits hadmits hK) nofun _

/-! ## Actions -/

/-- An action that is not refused is admitted, and changes no more than what its method writes. -/
theorem Action.edited {a : Action} (h : a.apply q = .ok r) :
    q.command.admits a.method = true ∧ q.Edited a.method r := by
  cases a with
  | target t =>
    obtain ⟨hadmits, rfl⟩ := target_eq_ok h
    exact ⟨hadmits, .field (f := .table) rfl nofun _⟩
  | restrict K link c =>
    obtain ⟨hadmits, added, -, hr⟩ := restrict_eq_ok h
    exact ⟨hadmits, hr.edited hadmits⟩
  | join kind t build =>
    cases build with
    | none =>
      obtain ⟨hadmits, rfl⟩ := join_none_eq_ok h
      exact ⟨hadmits, .join _⟩
    | some build =>
      obtain ⟨hadmits, result, j, rest, -, -, -, rfl⟩ := join_some_eq_ok h
      exact ⟨hadmits, .join j⟩
  | share columns =>
    obtain ⟨hadmits, -, front, last, hjoins, -, -, rfl⟩ := share_eq_ok h
    exact ⟨hadmits, .shared _ hjoins⟩
  | groupBy es =>
    obtain ⟨hadmits, -, rfl⟩ := groupBy_eq_ok h
    exact ⟨hadmits, .field (f := .grouping) rfl nofun _⟩
  | orderBy es =>
    obtain ⟨hadmits, nodes, -, rfl⟩ := orderBy_eq_ok h
    exact ⟨hadmits, .field (f := .ordering) rfl nofun _⟩
  | fetch n =>
    obtain ⟨hadmits, -, rfl⟩ := fetch_eq_ok h
    exact ⟨hadmits, .field (f := .limit) rfl nofun _⟩
  | skip n =>
    obtain ⟨hadmits, -, rfl⟩ := skip_eq_ok h
    exact ⟨hadmits, .field (f := .offset) rfl nofun _⟩
  | distinct =>
    obtain ⟨hadmits, rfl⟩ := distinct_eq_ok h
    exact ⟨hadmits, .field (f := .distinct) rfl nofun _⟩
  | values rows =>
    obtain ⟨hadmits, columns, built, -, -, -, rfl⟩ := insertRows_eq_ok h
    exact ⟨hadmits, .field (f := .rows) rfl nofun (columns, q.rows ++ built)⟩
  | assign record =>
    obtain ⟨hadmits, added, -, -, rfl⟩ := assign_eq_ok h
    exact ⟨hadmits, .field (f := .assignments) rfl nofun _⟩
  | assignColumn c o =>
    obtain ⟨hadmits, e, -, rfl⟩ := assignColumn_eq_ok h
    exact ⟨hadmits, .field (f := .assignments) rfl nofun _⟩
  | onlyIfExists =>
    obtain ⟨hadmits, rfl⟩ := onlyIfExists_eq_ok h
    exact ⟨hadmits, .field (f := .ifExists) rfl nofun _⟩
  | onlyIfMissing =>
    obtain ⟨hadmits, rfl⟩ := onlyIfMissing_eq_ok h
    exact ⟨hadmits, .field (f := .ifNotExists) rfl nofun _⟩

/-- Whatever a method makes of a query differs from it in one field. -/
theorem Edited.exists_withField {m : Method} (h : q.Edited m r) :
    ∃ (f : Field) (v : f.Value), q.command.field m = f ∧ r = q.withField f v := by
  cases h with
  | field hf _ v => exact ⟨_, v, hf, rfl⟩
  | join j => exact ⟨.joins, _, rfl, rfl⟩
  | @pairing link _ _ c hcommand hjoins =>
    exact ⟨.joins, _, field_pairing_of_holds link (holds_pairing_iff.mpr hcommand), rfl⟩
  | shared columns hjoins => exact ⟨.joins, _, rfl, rfl⟩

/-! ## Runs -/

namespace Action

theorem command_apply {a : Action} (h : a.apply q = .ok r) : r.command = q.command := by
  obtain ⟨f, v, -, rfl⟩ := (edited h).2.exists_withField
  exact command_withField v

theorem command_run {l : List Action} (h : run l q = .ok r) : r.command = q.command := by
  induction l generalizing q with
  | nil => cases h; rfl
  | cons a l ih =>
    obtain ⟨s, hs, h⟩ := bind_eq_ok_iff.mp h
    rw [ih h, command_apply hs]

theorem field_apply {a : Action} {f : Field} (h : a.apply q = .ok r) (hf : ¬ q.command.Writes f) :
    r.field f = q.field f := by
  obtain ⟨hadmits, hedited⟩ := edited h
  obtain ⟨f', v, hf', rfl⟩ := hedited.exists_withField
  refine field_withField_of_ne ?_ v
  rintro rfl
  exact hf ⟨a.method, hadmits, hf'⟩

/-- What no method writes stays as it was. -/
theorem field_run {l : List Action} {f : Field} (h : run l q = .ok r) (hf : ¬ q.command.Writes f) :
    r.field f = q.field f := by
  induction l generalizing q with
  | nil => cases h; rfl
  | cons a l ih =>
    obtain ⟨s, hs, h⟩ := bind_eq_ok_iff.mp h
    rw [ih h (by rwa [command_apply hs]), field_apply hs hf]

end Action

end Query

end SqlDraft
