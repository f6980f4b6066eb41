import SqlDraft.Proofs.Drafting.Made
import SqlDraft.Proofs.Layout.Inclusion
import SqlDraft.Proofs.Layout.Weave

/-! Why a statement cannot be written. A fault comes from one of the parts that the statement
writes, or it says what the statement lacks (`Query.Lacks`); a sound statement has no other faults
(`Site.statement_fault`). -/

namespace SqlDraft

open Sql

/-! ## Outcomes that are refused -/

namespace Sql

variable {α β : Type} {φ : Fault}

theorem map_eq_error_iff {o : Outcome α} {f : α → β} : o.map f = .error φ ↔ o = .error φ := by
  cases o <;> simp [Except.map]

theorem bind_eq_error {o : Outcome α} {f : α → Outcome β} (h : (o >>= f) = .error φ) :
    o = .error φ ∨ ∃ a, o = .ok a ∧ f a = .error φ := by
  cases o with
  | error e =>
    have h : (.error e : Outcome β) = .error φ := h
    cases h
    exact .inl rfl
  | ok a => exact .inr ⟨a, rfl, h⟩

theorem mem_of_gather_eq_error {os : List (Outcome α)} (h : gather os = .error φ) :
    .error φ ∈ os := by
  induction os with
  | nil => cases h
  | cons o os ih =>
    rcases bind_eq_error h with rfl | ⟨a, -, h⟩
    · exact List.mem_cons_self
    · rcases bind_eq_error h with h | ⟨as, -, h⟩
      · exact List.mem_cons_of_mem _ (ih h)
      · cases h

theorem mem_of_gatherOption_eq_error {o : Option (Outcome α)} (h : gatherOption o = .error φ) :
    .error φ ∈ o := by
  cases o with
  | none => cases h
  | some o => exact congrArg some (map_eq_error_iff.mp h)

end Sql

/-! ## Calls -/

namespace Sql.Site

variable {s : Site} {function : String} {args : List Argument} {φ : Fault}

theorem operandAt_error {i : Nat} {misread : Rat → Bool} (hi : i < args.length)
    (h : s.operandAt function args i misread = .error φ) : ∃ a ∈ args, a.outcome = .error φ := by
  rw [operandAt, List.getElem?_eq_getElem hi] at h
  exact ⟨args[i], List.getElem_mem hi, map_eq_error_iff.mp h⟩

theorem containerAt_error {i : Nat} (hi : i < args.length)
    (h : s.containerAt function args i = .error φ) : ∃ a ∈ args, a.outcome = .error φ := by
  rw [containerAt, List.getElem?_eq_getElem hi] at h
  refine ⟨args[i], List.getElem_mem hi, ?_⟩
  dsimp only [container] at h
  split at h
  · exact h
  · exact h
  · exact map_eq_error_iff.mp h

theorem outcomes_error (h : gather (args.map Argument.outcome) = .error φ) :
    ∃ a ∈ args, a.outcome = .error φ :=
  List.mem_map.mp (mem_of_gather_eq_error h)

/-- A call of as many arguments as its rule asks for is refused for one of them. -/
theorem apply_error {r : Rule} (hr : r.takes args.length = true)
    (h : s.apply function args r = .error φ) : ∃ a ∈ args, a.outcome = .error φ := by
  cases r with
  | between operator p alone =>
    have hlength : args.length = 2 := of_decide_eq_true hr
    rcases bind_eq_error h with h | ⟨left, -, h⟩
    · exact operandAt_error (by omega) h
    rcases bind_eq_error h with h | ⟨right, -, h⟩
    · exact operandAt_error (by omega) h
    cases h
  | membership operator =>
    have hlength : args.length = 2 := of_decide_eq_true hr
    rcases bind_eq_error h with h | ⟨left, -, h⟩
    · exact operandAt_error (by omega) h
    rcases bind_eq_error h with h | ⟨right, -, h⟩
    · exact containerAt_error (by omega) h
    cases h
  | before operator =>
    have hlength : args.length = 1 := of_decide_eq_true hr
    rcases bind_eq_error h with h | ⟨operand, -, h⟩
    · exact operandAt_error (by omega) h
    cases h
  | after operator =>
    have hlength : args.length = 1 := of_decide_eq_true hr
    rcases bind_eq_error h with h | ⟨operand, -, h⟩
    · exact operandAt_error (by omega) h
    cases h
  | call name =>
    rcases bind_eq_error h with h | ⟨parts, -, h⟩
    · exact outcomes_error h
    cases h
  | custom write =>
    rcases bind_eq_error h with h | ⟨parts, -, h⟩
    · exact outcomes_error h
    cases h

end Sql.Site

/-! ## What a statement lacks -/

/-- What a statement needs and does not have, with the fault that says so. -/
inductive Query.Lacks (s : Site) (q : Query) : Fault → Prop
  | table (h : q.table = none) : Lacks s q (s.fault (.noTable q.command.name))
  | pairing {j : Join} (hj : j ∈ q.joins) (hkind : j.kind ≠ .cross)
      (hcondition : j.condition = none) (hshared : j.shared = none) :
      Lacks s q (s.fault (.joinWithoutCondition j.table.qualifiedName))
  | rows {t : Table} (hc : q.command = .statement .insert) (hrows : q.rows = []) :
      Lacks s q (s.fault (.noRows t.qualifiedName))
  | assignments {t : Table} (hc : q.command = .statement .update) (h : q.assignments = []) :
      Lacks s q (s.fault (.noAssignments t.qualifiedName))
  | columns {t : Table} (hc : q.command = .statement .create) (ht : q.table = some t)
      (h : t.declaredColumns = []) : Lacks s q (s.fault (.noColumns t.qualifiedName))
  | kind {t : Table} {c : Column} (hc : q.command = .statement .create) (ht : q.table = some t)
      (hmem : c ∈ t.declaredColumns) (hkind : ∀ k, c.data ≠ .concrete k) :
      Lacks s q (s.fault (.columnWithoutKind c.name c.table.qualifiedName))

namespace Sql.Site

variable {s : Site} {q : Query} {p : Parts} {φ : Fault}

theorem target_eq_error (h : s.target q = .error φ) : q.Lacks s φ := by
  unfold target at h
  split at h
  · cases h
  · next hnone =>
    cases h
    exact .table hnone

theorem mem_of_clause?_eq_error {c : Clause} {condition : Option (Outcome Tokens)}
    (h : s.clause? c condition = .error φ) : .error φ ∈ condition.toList := by
  rcases bind_eq_error h with h | ⟨r, -, h⟩
  · exact Option.mem_toList.mpr (mem_of_gatherOption_eq_error h)
  · cases r <;> cases h

theorem mem_of_listed?_eq_error {k : Keyword} {os : List (Outcome Tokens)}
    (h : s.listed? k os = .error φ) : .error φ ∈ os := by
  rcases bind_eq_error h with h | ⟨r, -, h⟩
  · exact mem_of_gather_eq_error h
  · cases r <;> cases h

theorem mem_of_projection_eq_error (h : s.projection q p = .error φ) : .error φ ∈ p.projection := by
  unfold projection at h
  split at h
  · split at h <;> cases h
  · exact mem_of_gather_eq_error (map_eq_error_iff.mp h)

theorem select_fault (h : s.select q p = .error φ) :
    .error φ ∈ p.written .select ∨ q.Lacks s φ := by
  simp only [Parts.written, List.mem_append, or_assoc]
  rcases bind_eq_error h with h | ⟨t, -, h⟩
  · simp only [target_eq_error h, or_true]
  rcases bind_eq_error h with h | ⟨items, -, h⟩
  · simp only [mem_of_projection_eq_error h, true_or]
  rcases bind_eq_error h with h | ⟨joins, -, h⟩
  · simp only [mem_of_gather_eq_error h, true_or, or_true]
  rcases bind_eq_error h with h | ⟨filter, -, h⟩
  · simp only [mem_of_clause?_eq_error h, true_or, or_true]
  rcases bind_eq_error h with h | ⟨grouping, -, h⟩
  · simp only [mem_of_listed?_eq_error h, true_or, or_true]
  rcases bind_eq_error h with h | ⟨having, -, h⟩
  · simp only [mem_of_clause?_eq_error h, true_or, or_true]
  rcases bind_eq_error h with h | ⟨ordering, -, h⟩
  · simp only [mem_of_listed?_eq_error h, true_or, or_true]
  cases h

theorem insert_fault (hc : q.command = .statement .insert) (hq : q.Sound)
    (h : s.insert q p = .error φ) : .error φ ∈ p.written .insert ∨ q.Lacks s φ := by
  rcases bind_eq_error h with h | ⟨t, -, h⟩
  · exact .inr (target_eq_error h)
  dsimp only at h
  split at h
  · next hempty =>
    cases h
    have hrows : q.rows = [] := by
      by_contra hrows
      have hcolumns := (hq.rows hrows).2
      simp [hrows, hcolumns] at hempty
    exact .inr (.rows hc hrows)
  rcases bind_eq_error h with h | ⟨rows, -, h⟩
  · obtain ⟨row, hrow, h⟩ := List.mem_map.mp (mem_of_gather_eq_error h)
    have hmem := mem_of_gather_eq_error (map_eq_error_iff.mp h)
    exact .inl (List.mem_flatten.mpr ⟨row, hrow, hmem⟩)
  cases h

theorem update_fault (hc : q.command = .statement .update) (h : s.update q p = .error φ) :
    .error φ ∈ p.written .update ∨ q.Lacks s φ := by
  rcases bind_eq_error h with h | ⟨t, -, h⟩
  · exact .inr (target_eq_error h)
  dsimp only at h
  split at h
  · next hempty =>
    cases h
    exact .inr (.assignments hc (List.isEmpty_iff.mp hempty))
  rcases bind_eq_error h with h | ⟨assignments, -, h⟩
  · exact .inl (List.mem_append_left _ (mem_of_gather_eq_error h))
  rcases bind_eq_error h with h | ⟨filter, -, h⟩
  · exact .inl (List.mem_append_right _ (mem_of_clause?_eq_error h))
  cases h

theorem delete_fault (h : s.delete q p = .error φ) :
    .error φ ∈ p.written .delete ∨ q.Lacks s φ := by
  rcases bind_eq_error h with h | ⟨t, -, h⟩
  · exact .inr (target_eq_error h)
  rcases bind_eq_error h with h | ⟨filter, -, h⟩
  · exact .inl (mem_of_clause?_eq_error h)
  cases h

theorem create_fault (hc : q.command = .statement .create) (h : s.create q = .error φ) :
    q.Lacks s φ := by
  rcases bind_eq_error h with h | ⟨t, ht, h⟩
  · exact target_eq_error h
  dsimp only at h
  split at h
  · next hempty =>
    cases h
    exact .columns hc (target_eq_ok ht) (List.isEmpty_iff.mp hempty)
  rcases bind_eq_error h with h | ⟨definitions, -, h⟩
  · obtain ⟨c, hmem, h⟩ := List.mem_map.mp (mem_of_gather_eq_error h)
    unfold definition at h
    split at h
    · cases h
    · next hkind =>
      cases h
      exact .kind hc (target_eq_ok ht) hmem hkind
  cases h

theorem drop_fault (h : s.drop q = .error φ) : q.Lacks s φ := by
  rcases bind_eq_error h with h | ⟨t, -, h⟩
  · exact target_eq_error h
  cases h

/-- A fault of a sound statement is one of its parts, or says what the statement lacks. -/
theorem statement_fault {c : Statement} (hc : q.command = .statement c) (hq : q.Sound)
    (hs : c ∈ s.dialect.commands) (h : s.statement q p = .error φ) :
    .error φ ∈ p.written c ∨ q.Lacks s φ := by
  unfold statement at h
  rw [hc] at h
  dsimp only at h
  rw [if_pos hs] at h
  cases c with
  | select => exact select_fault h
  | insert => exact insert_fault hc hq h
  | update => exact update_fault hc h
  | delete => exact delete_fault h
  | create => exact .inr (create_fault hc h)
  | drop => exact .inr (drop_fault h)

end Sql.Site

/-! ## Parts that are refused -/

theorem Sql.Parts.mem_of_mem_written {p : Parts} {c : Statement} {o : Outcome Tokens}
    (h : o ∈ p.written c) : o ∈ p.projection ∨ o ∈ p.joins ∨ o ∈ p.filter ∨ o ∈ p.grouping ∨
      o ∈ p.having ∨ o ∈ p.ordering ∨ (∃ row ∈ p.rows, o ∈ row) ∨ o ∈ p.assignments := by
  cases c with
  | insert => exact .inr (.inr (.inr (.inr (.inr (.inr (.inl (List.mem_flatten.mp h)))))))
  | create => cases h
  | drop => cases h
  | _ =>
    simp only [Parts.written, List.mem_append, Option.mem_toList, or_assoc] at h
    tauto

mutual

/-- A condition is refused for an expression that it joins. -/
theorem Cond.exists_error {s : Site} {φ : Fault} : ∀ {c : Cond} {within : Option Joiner},
    c.write s within = .error φ → ∃ e ∈ c.exprs, e.write s = .error φ
  | .predicate e, within, h => by
    rw [Cond.write] at h
    exact ⟨e, List.mem_singleton_self e, map_eq_error_iff.mp h⟩
  | .group c, within, h => by
    rw [Cond.write] at h
    exact Cond.exists_error (c := c) (map_eq_error_iff.mp h)
  | .joined j cs, within, h => by
    rw [Cond.write] at h
    rcases bind_eq_error h with h | ⟨parts, -, h⟩
    · exact Cond.exists_error_each (mem_of_gather_eq_error h)
    · cases h

theorem Cond.exists_error_each {s : Site} {φ : Fault} : ∀ {cs : List Cond} {within : Option Joiner},
    .error φ ∈ Cond.writeEach s within cs → ∃ e ∈ Cond.exprsEach cs, e.write s = .error φ
  | [], _, h => nomatch h
  | c :: cs, _, h => by
    rcases List.mem_cons.mp h with h | h
    · obtain ⟨e, he, h⟩ := Cond.exists_error (c := c) h.symm
      exact ⟨e, List.mem_append_left _ he, h⟩
    · obtain ⟨e, he, h⟩ := @Cond.exists_error_each s φ cs _ h
      exact ⟨e, List.mem_append_right _ he, h⟩

end

theorem Cond.exists_error_write? {s : Site} {φ : Fault} {c : Option Cond}
    (h : .error φ ∈ Cond.write? s c) : ∃ e ∈ Cond.exprs? c, e.write s = .error φ := by
  cases c with
  | none => cases h
  | some d =>
    obtain ⟨e, he, h⟩ := Cond.exists_error (Option.some.inj h)
    exact ⟨e, Cond.mem_exprs?_iff.mpr ⟨d, rfl, he⟩, h⟩

/-- A sound join is refused for its condition, or for having none. -/
theorem Join.Sound.exists_error {s : Site} {φ : Fault} {j : Join} (hj : j.Sound)
    (h : j.write s = .error φ) : (∃ e ∈ Cond.exprs? j.condition, e.write s = .error φ) ∨
      j.kind ≠ .cross ∧ j.condition = none ∧ j.shared = none ∧
        φ = s.fault (.joinWithoutCondition j.table.qualifiedName) := by
  rw [Join.write_eq] at h
  unfold Site.join at h
  dsimp only at h
  split at h
  · next hkind =>
    obtain ⟨hcondition, hshared⟩ := hj.cross hkind
    simp [hcondition, hshared] at h
  · next hkind =>
    split at h
    · next o hcondition =>
      exact .inl (Cond.exists_error_write?
        (hcondition.trans (congrArg some (map_eq_error_iff.mp h))))
    · cases h
    · next hcondition hshared =>
      cases h
      refine .inr ⟨hkind, ?_, ?_, rfl⟩
      · rw [Cond.write?_eq_map] at hcondition
        exact Option.map_eq_none_iff.mp hcondition
      · cases hnames : j.shared with
        | none => rfl
        | some names =>
          cases names with
          | nil => exact absurd hnames hj.shared
          | cons n ns => exact absurd hnames (hshared n ns)

theorem Expr.mem_outcomes {s : Site} {es : List Expr} {o : Outcome Tokens}
    (h : o ∈ (Expr.arguments s es).map Argument.outcome) : ∃ e ∈ es, e.write s = o := by
  rw [Expr.arguments_eq_map, List.map_map] at h
  exact List.mem_map.mp h

/-- A part of a sound statement is refused for an expression in it, or a join for having no
condition. -/
theorem Query.Sound.part_error {q : Query} (hq : q.Sound) {c : Statement} {s : Site} {φ : Fault}
    (h : .error φ ∈ (q.parts s).written c) :
    q.Lacks s φ ∨ ∃ e ∈ q.exprs, e.write s = .error φ := by
  rcases Parts.mem_of_mem_written h with h | h | h | h | h | h | ⟨row, hrow, h⟩ | h
  · rw [parts, Item.writeEach_eq_map] at h
    obtain ⟨i, hi, h⟩ := List.mem_map.mp h
    rw [Item.write_eq, map_eq_error_iff] at h
    exact .inr ⟨_, mem_exprs_iff.mpr (.inl ⟨i, hi, rfl⟩), h⟩
  · rw [parts, Join.writeEach_eq_map] at h
    obtain ⟨j, hj, h⟩ := List.mem_map.mp h
    rcases (hq.join j hj).exists_error h with ⟨e, he, h⟩ | ⟨hkind, hcondition, hshared, rfl⟩
    · exact .inr ⟨e, mem_exprs_iff.mpr (.inr (.inl ⟨j, hj, he⟩)), h⟩
    · exact .inl (.pairing hj hkind hcondition hshared)
  · obtain ⟨e, he, h⟩ := Cond.exists_error_write? h
    exact .inr ⟨e, mem_exprs_iff.mpr (.inr (.inr (.inl he))), h⟩
  · obtain ⟨e, he, h⟩ := Expr.mem_outcomes h
    exact .inr ⟨e, mem_exprs_iff.mpr (.inr (.inr (.inr (.inl he)))), h⟩
  · obtain ⟨e, he, h⟩ := Cond.exists_error_write? h
    exact .inr ⟨e, mem_exprs_iff.mpr (.inr (.inr (.inr (.inr (.inl he))))), h⟩
  · obtain ⟨e, he, h⟩ := Expr.mem_outcomes h
    exact .inr ⟨e, mem_exprs_iff.mpr (.inr (.inr (.inr (.inr (.inr (.inl he)))))), h⟩
  · rw [parts, Expr.rows_eq_map] at hrow
    obtain ⟨es, hes, rfl⟩ := List.mem_map.mp hrow
    obtain ⟨e, he, h⟩ := List.mem_map.mp h
    exact .inr ⟨e, mem_exprs_iff.mpr
      (.inr (.inr (.inr (.inr (.inr (.inr (.inl ⟨es, hes, he⟩))))))), h⟩
  · rw [parts, Assignment.writeEach_eq_map] at h
    obtain ⟨a, ha, h⟩ := List.mem_map.mp h
    rw [Assignment.write_eq, map_eq_error_iff] at h
    exact .inr ⟨_, mem_exprs_iff.mpr
      (.inr (.inr (.inr (.inr (.inr (.inr (.inr ⟨a, ha, rfl⟩))))))), h⟩

end SqlDraft
