import SqlDraft.Proofs.Layout.Parallel

/-! A query is written in one way wherever it can be. More tables around a statement let more of it
be written, and change nothing in what could be written without them (`Query.write_widen`): whether
a column is written with its table depends on the tables of its own statement. -/

namespace SqlDraft

open Sql

namespace Sql

theorem Tokens.write_enclosed (c : LetterCase) (ts : Tokens) :
    ts.enclosed.write c = "(" ++ ts.write c ++ ")" := by
  apply String.toList_inj.mp
  simp [Tokens.write, Tokens.enclosed, Token.write]

/-! ## Outcomes that stay -/

variable {α β : Type}

/-- If the first one is not refused, the other one is the same. -/
def Keeps (o o' : Outcome α) : Prop := ∀ a, o = .ok a → o' = .ok a

theorem Keeps.refl (o : Outcome α) : Keeps o o := fun _ h => h

theorem Keeps.bind {o o' : Outcome α} {f f' : α → Outcome β} (h : Keeps o o')
    (hf : ∀ a, Keeps (f a) (f' a)) : Keeps (o >>= f) (o' >>= f') := by
  intro b hb
  obtain ⟨a, ha, hb⟩ := bind_eq_ok_iff.mp hb
  exact bind_eq_ok_iff.mpr ⟨a, h a ha, hf a b hb⟩

theorem keeps_error (φ : Fault) (o : Outcome α) : Keeps (.error φ) o := nofun

/-! ## Sites with more tables around them -/

namespace Site

/-- The site within other statements. -/
def within (s : Site) (outer : List Table) : Site := { s with outer := outer }

variable {s : Site} {outer : List Table}

theorem reference_keeps (h : s.outer ⊆ outer) (t : Table) (written : Token) (called : String) :
    Keeps (s.reference t written called) ((s.within outer).reference t written called) := by
  intro ts hts
  unfold reference at hts ⊢
  split at hts
  · next hsees =>
    have hwithin : (s.within outer).Sees t := hsees.imp_right fun ht => h ht
    rw [if_pos hwithin]
    exact hts
  · cases hts

end Site

end Sql

/-- What is written in a dialect stays within more tables. -/
def Parallel.widening (d : Dialect) : Parallel d d.name d.functions where
  Rel := Keeps
  Around outer outer' := outer ⊆ outer'
  ok a := .refl (.ok a)
  bind h hf := h.bind hf
  writing _ := keeps_error _ _
  noRule _ := keeps_error _ _
  noInstant := keeps_error _ _
  inner h own := List.append_subset.mpr
    ⟨List.subset_append_left _ _, List.Subset.trans h (List.subset_append_right own _)⟩
  reference {outer _} h own t written called :=
    Site.reference_keeps (s := ⟨d, own, outer⟩) h t written called

theorem Query.keeps_write (q : Query) (d : Dialect) {outer outer' : List Table}
    (h : outer ⊆ outer') :
    Keeps (q.write d outer) (q.write d outer') :=
  (Parallel.widening d).query (Query.everywhere_of_forall (fun _ _ _ => rfl) q) h

/-- A query that can be written within some tables is written in the same way within more of them.
One that can be written on its own stands as that text, in parentheses, wherever it is an
expression. -/
theorem Query.write_widen (q : Query) (d : Dialect) :
    (∀ {outer outer' : List Table}, outer ⊆ outer' → ∀ ts, q.write d outer = .ok ts →
      q.write d outer' = .ok ts) ∧
    ∀ {c : LetterCase} {text : String}, q.compile d ⟨c, false⟩ = .ok text →
      ∀ s : Site, s.dialect = d → ∃ ts, (Expr.subquery q).write s = .ok ts ∧
        ts.write c = "(" ++ text ++ ")" := by
  refine ⟨fun h ts hts => q.keeps_write d h ts hts, fun {c text} htext s hs => ?_⟩
  subst hs
  obtain ⟨ts, hts, htext⟩ := bind_eq_ok_iff.mp htext
  cases htext
  refine ⟨ts.enclosed, ?_, ?_⟩
  · rw [Expr.write, q.keeps_write s.dialect (List.nil_subset _) ts hts]
    rfl
  · rw [Tokens.write_enclosed]
    simp

/-- A query on a column of a table around it, with one more table around that, and a query of its
own within another statement. -/
theorem Query.write_widen_embedded :
    let t : Table := { serial := 0, name := "t" }
    let u : Table := { serial := 1, name := "u" }
    let v : Table := { serial := 2, name := "v" }
    let c : Cond := .predicate (.column ⟨u, "b", .concrete .boolean⟩)
    let alone : Query := { command := .statement .select, table := some t }
    let correlated : Query := { command := .statement .select, table := some t, filter := some c }
    let ts : Tokens := [.word "select", .mark " ", .mark "*", .mark " ", .word "from", .mark " ",
      .name "t", .mark " ", .word "where", .mark " ", .name "u", .mark ".", .name "b"]
    correlated.write .generic [u] = .ok ts ∧ [u] ⊆ [v, u] ∧
    correlated.write .generic [v, u] = .ok ts ∧
      alone.compile .mysql ⟨.upper, false⟩ = .ok "SELECT * FROM t" ∧
      ∃ ts, (Expr.subquery alone).write ⟨.mysql, [v], [u]⟩ = .ok ts ∧
        ts.write .upper = "(" ++ "SELECT * FROM t" ++ ")" := by
  intro t u v c alone correlated ts
  have hts : correlated.write .generic [u] = .ok ts := by decide +kernel
  have hsubset : [u] ⊆ [v, u] := List.subset_cons_self v [u]
  have htext : alone.compile .mysql ⟨.upper, false⟩ = .ok "SELECT * FROM t" := by decide +kernel
  exact ⟨hts, hsubset, (correlated.write_widen .generic).1 hsubset ts hts, htext,
    (alone.write_widen .mysql).2 htext ⟨.mysql, [v], [u]⟩ rfl⟩

end SqlDraft
