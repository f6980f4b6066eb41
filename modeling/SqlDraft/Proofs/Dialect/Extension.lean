import SqlDraft.Proofs.Dialect.Flavor
import SqlDraft.Proofs.Layout.Parallel

/-! Dialects drawn up as changes to others. A query is written by the rules of the functions that it
calls, so changes to other rules leave it as it is (`Query.compile_extend_uncalled`), unless one of
its rules is not an entry of the dialect's own; and changes made one after another are as good as
the merged ones (`Query.compile_extend_extend`). -/

namespace SqlDraft

open Sql

/-- The fault as it is met in a dialect of the given name. -/
def Fault.under (dialect : String) : Fault → Fault
  | .noRule _ function => .noRule dialect function
  | .writing _ issue => .writing dialect issue
  | φ => φ

/-- What is written in a variant of a dialect is the same, and what is refused is refused for the
same cause. -/
def Parallel.renaming (d : Dialect) (name : String) (functions : Rules) :
    Parallel d name functions where
  Rel o o' := o' = o.mapError (Fault.under name)
  Around outer outer' := outer' = outer
  ok _ := rfl
  bind {_ _ o _ _ _} h hf := by
    subst h
    cases o with
    | error φ => rfl
    | ok a => exact hf a
  writing _ := rfl
  noRule _ := rfl
  noInstant := rfl
  inner h _ := by rw [h]
  reference {_ outer} h own t written called := by
    subst h
    unfold Site.reference
    by_cases hsees : Site.Sees ⟨d, own, outer⟩ t
    · rw [if_pos hsees, if_pos (show Site.Sees ⟨d.variant name functions, own, outer⟩ t from hsees)]
      rfl
    · rw [if_neg hsees,
        if_neg (show ¬ Site.Sees ⟨d.variant name functions, own, outer⟩ t from hsees)]
      rfl

namespace Query

/-- Of a dialect's rules a query takes no more than those of the functions that it calls. -/
theorem write_variant {q : Query} {d : Dialect} {functions : Rules}
    (h : q.Everywhere fun e => ∀ f ∈ e.function?, functions.get? f = d.rule? f) (name : String)
    (outer : List Table) :
    q.write (d.variant name functions) outer = (q.write d outer).mapError (Fault.under name) :=
  (Parallel.renaming d name functions).query h rfl

theorem compile_variant {q : Query} {d : Dialect} {functions : Rules}
    (h : q.Everywhere fun e => ∀ f ∈ e.function?, functions.get? f = d.rule? f) (name : String)
    (finish : Finish) :
    q.compile (d.variant name functions) finish =
      (q.compile d finish).mapError (Fault.under name) := by
  rw [compile, compile, write_variant h]
  cases q.write d [] <;> rfl

/-- The order in which a dialect lists its rules makes no difference. -/
theorem compile_relisted {d : Dialect} {functions : Rules}
    (h : ∀ f, functions.get? f = d.rule? f) (q : Query) (finish : Finish) :
    q.compile (d.variant d.name functions) finish = q.compile d finish := by
  have hall (fs : Rules) (hfs : ∀ f, fs.get? f = d.rule? f) :
      q.Everywhere fun e => ∀ f ∈ e.function?, fs.get? f = d.rule? f :=
    everywhere_of_forall (fun _ f _ => hfs f) q
  -- the dialect is a variant of itself, so its faults are under its name already
  have hsame := compile_variant (hall d.functions fun _ => rfl) d.name finish
  rw [compile_variant (hall functions h)]
  exact hsame.symm

end Query

/-! ## Changes made one after another -/

namespace Catalog

variable {α : Type}

/-- The entries of both, where those of the second one win. -/
def merge (c d : Catalog α) : Catalog α := d.entries.foldl (fun c e => c.insert e.1 e.2) c

theorem get?_merge (c d : Catalog α) (n : String) :
    (c.merge d).get? n = (d.get? n).or (c.get? n) := by
  rw [merge, get?_foldl_insert, lookup_reverse d.nodup]
  rfl

end Catalog

/-- Both changes in one. Rules, keywords and names of types are merged one by one, and a rule taken
away stays among the changes; of every other part the later change counts, if there is one. -/
def Changes.merge (o₁ o₂ : Changes) : Changes where
  name := o₂.name
  functions := o₁.functions.merge o₂.functions
  keywords k := (o₂.keywords k).or (o₁.keywords k)
  quoting := o₂.quoting.or o₁.quoting
  literals := o₂.literals.or o₁.literals
  pagination := o₂.pagination.or o₁.pagination
  typeNames k := (o₂.typeNames k).or (o₁.typeNames k)
  commands := o₂.commands.or o₁.commands

namespace Dialect

theorem getD_or {α : Type} (a b : Option α) (c : α) : (a.or b).getD c = a.getD (b.getD c) := by
  cases a <;> rfl

theorem rule?_extend_merge (b : Dialect) (o₁ o₂ : Changes) (f : String) :
    (b.extend (o₁.merge o₂)).rule? f = ((b.extend o₁).extend o₂).rule? f := by
  have hown : (b.extend o₁).functions.own.get? f = (b.extend o₁).rule? f :=
    (Rules.get?_of_inherited_empty rfl f).symm
  rw [rule?_extend, rule?_extend, hown, rule?_extend, Changes.merge, Catalog.get?_merge, getD_or]

/-- But for the order of its rules, the dialect after both changes is the one after the merged
change. -/
theorem extend_merge (b : Dialect) (o₁ o₂ : Changes) :
    b.extend (o₁.merge o₂) =
      ((b.extend o₁).extend o₂).variant o₂.name (b.extend (o₁.merge o₂)).functions := by
  simp only [extend, variant, Changes.merge, getD_or]

end Dialect

/-- A dialect changed twice writes what the one with both changes in one does, and refuses what that
refuses. -/
theorem Query.compile_extend_extend (b : Dialect) (o₁ o₂ : Changes) (q : Query) (finish : Finish) :
    q.compile ((b.extend o₁).extend o₂) finish = q.compile (b.extend (o₁.merge o₂)) finish := by
  rw [Dialect.extend_merge]
  exact (compile_relisted (Dialect.rule?_extend_merge b o₁ o₂) q finish).symm

end SqlDraft
