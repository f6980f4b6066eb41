import SqlDraft.Proofs.Layout.Form
import SqlDraft.Proofs.Tree.Occurrence
import SqlDraft.Proofs.Tree.Texts

/-! The text of a whole has in it the texts of its parts, as they are written on their own
(`Includes`): a statement that of each part that its command writes (`Site.statement_includes`), and
a call that of each argument that its rule asks for (`Site.call_includes`). So nothing is left out
of a text that can be written, and what cannot be written is a part of nothing that can. -/

namespace SqlDraft

open Sql

namespace Sql

/-- If the whole is written, so is the part, as one stretch of it. -/
def Includes (whole part : Outcome Tokens) : Prop :=
  ∀ ts, whole = .ok ts → ∃ xs, part = .ok xs ∧ xs <:+: ts

variable {o whole part : Outcome Tokens}

theorem includes_refl (o : Outcome Tokens) : Includes o o := fun ts h => ⟨ts, h, List.infix_rfl⟩

theorem Includes.trans (h : Includes whole part) (h' : Includes part o) : Includes whole o := by
  intro ts hts
  obtain ⟨xs, hxs, hinfix⟩ := h ts hts
  obtain ⟨ys, hys, hinfix'⟩ := h' xs hxs
  exact ⟨ys, hys, hinfix'.trans hinfix⟩

theorem includes_map {g : Tokens → Tokens} (hg : ∀ xs, xs <:+: g xs) (o : Outcome Tokens) :
    Includes (o.map g) o := by
  intro ts hts
  obtain ⟨xs, hxs, rfl⟩ := map_eq_ok_iff.mp hts
  exact ⟨xs, hxs, hg xs⟩

theorem infix_enclosed (ts : Tokens) : ts <:+: ts.enclosed := ⟨[.mark "("], [.mark ")"], rfl⟩

theorem infix_separated {separator xs : Tokens} {parts : List Tokens} (h : xs ∈ parts) :
    xs <:+: Tokens.separated separator parts := by
  induction parts with
  | nil => cases h
  | cons p parts ih =>
    cases parts with
    | nil =>
      obtain rfl := List.mem_singleton.mp h
      exact ⟨[], [], by
        rw [Tokens.separated, List.intercalate_singleton, List.append_nil, List.nil_append]⟩
    | cons p' parts =>
      rw [Tokens.separated, List.intercalate_cons_cons]
      rcases List.mem_cons.mp h with rfl | h
      · exact List.infix_append_of_infix_left
          (List.infix_append_of_infix_left List.infix_rfl)
      · exact List.infix_append_of_infix_right (ih h)

theorem exists_of_mem_gather {α : Type} {os : List (Outcome α)} {as : List α}
    (h : gather os = .ok as) {o : Outcome α} (ho : o ∈ os) : ∃ a ∈ as, o = .ok a := by
  rw [gather_eq_ok_iff.mp h, List.mem_map] at ho
  obtain ⟨a, ha, rfl⟩ := ho
  exact ⟨a, ha, rfl⟩

/-- A part of what is written with separators is a part of the whole. -/
theorem includes_gather {os : List (Outcome Tokens)} (ho : o ∈ os) {separator : Tokens}
    {g : Tokens → Tokens} (hg : ∀ xs, xs <:+: g xs) :
    Includes ((gather os).map fun tss => g (Tokens.separated separator tss)) o := by
  intro ts hts
  obtain ⟨tss, htss, rfl⟩ := map_eq_ok_iff.mp hts
  obtain ⟨xs, hxs, rfl⟩ := exists_of_mem_gather htss ho
  exact ⟨xs, rfl, (infix_separated hxs).trans (hg _)⟩

end Sql

/-! ## Calls -/

/-- The rule asks for as many arguments. -/
def Rule.takes (n : Nat) : Rule → Bool
  | between .. | membership _ => n = 2
  | before _ | after _ => n = 1
  | call _ => true
  | custom _ => n = 0

theorem Rule.written_eq {α : Type} {r : Rule} {args : List α} (h : r.takes args.length = true) :
    r.written args = args := by
  cases r with
  | between => exact List.take_of_length_le (Nat.le_of_eq (decide_eq_true_eq.mp h))
  | membership => exact List.take_of_length_le (Nat.le_of_eq (decide_eq_true_eq.mp h))
  | before => exact List.take_of_length_le (Nat.le_of_eq (decide_eq_true_eq.mp h))
  | after => exact List.take_of_length_le (Nat.le_of_eq (decide_eq_true_eq.mp h))
  | call => rfl
  | custom => exact (List.eq_nil_of_length_eq_zero (decide_eq_true_eq.mp h)).symm

namespace Sql.Site

variable {s : Site} {function : String} {args : List Argument} {a : Argument}

theorem infix_operand (s : Site) (misread : Rat → Bool) (e : Expr) (ts : Tokens) :
    ts <:+: s.operand misread e ts := by
  unfold operand
  split
  · split
    · exact infix_enclosed ts
    · exact List.infix_rfl
  · exact List.infix_rfl

theorem operandAt_includes {i : Nat} (ha : args[i]? = some a) (misread : Rat → Bool) :
    Includes (s.operandAt function args i misread) a.outcome := by
  rw [operandAt, ha]
  exact includes_map (s.infix_operand misread a.expr) a.outcome

theorem container_includes (a : Argument) : Includes (container a) a.outcome := by
  unfold container
  split
  · exact includes_refl _
  · exact includes_refl _
  · exact includes_map infix_enclosed a.outcome

theorem containerAt_includes {i : Nat} (ha : args[i]? = some a) :
    Includes (s.containerAt function args i) a.outcome := by
  rw [containerAt, ha]
  exact container_includes a

theorem getElem?_of_mem_take_one (ha : a ∈ args.take 1) : args[0]? = some a := by
  cases args with
  | nil => cases ha
  | cons b args => simpa [eq_comm] using ha

theorem getElem?_of_mem_take_two (ha : a ∈ args.take 2) :
    args[0]? = some a ∨ args[1]? = some a := by
  rcases args with - | ⟨b, - | ⟨c, args⟩⟩
  · cases ha
  · simpa [eq_comm] using ha
  · simpa [eq_comm] using ha

/-- Two parts with words between them. -/
theorem exists_infix_pair {o : Outcome Tokens} {left right : Tokens} (words : Tokens)
    (h : (∃ xs, o = .ok xs ∧ xs <:+: left) ∨ ∃ xs, o = .ok xs ∧ xs <:+: right) :
    ∃ xs, o = .ok xs ∧ xs <:+: left ++ words ++ right := by
  rcases h with ⟨xs, hxs, hinfix⟩ | ⟨xs, hxs, hinfix⟩
  · exact ⟨xs, hxs, List.infix_append_of_infix_left (List.infix_append_of_infix_left hinfix)⟩
  · exact ⟨xs, hxs, List.infix_append_of_infix_right hinfix⟩

/-- A call has in it the arguments that its rule asks for. -/
theorem apply_includes {r : Rule} (ha : a ∈ r.written args) :
    Includes (s.apply function args r) a.outcome := by
  intro ts hts
  cases apply_eq_ok hts with
  | between hleft hright =>
    refine exists_infix_pair _ ((getElem?_of_mem_take_two ha).imp ?_ ?_)
    · exact fun h => operandAt_includes h _ _ hleft
    · exact fun h => operandAt_includes h _ _ hright
  | before hoperand =>
    obtain ⟨xs, hxs, hinfix⟩ := operandAt_includes (getElem?_of_mem_take_one ha) _ _ hoperand
    exact ⟨xs, hxs, List.infix_append_of_infix_right hinfix⟩
  | after hoperand =>
    obtain ⟨xs, hxs, hinfix⟩ := operandAt_includes (getElem?_of_mem_take_one ha) _ _ hoperand
    exact ⟨xs, hxs, List.infix_append_of_infix_left hinfix⟩
  | @call _ parts hparts =>
    obtain ⟨xs, hmem, hxs⟩ := exists_of_mem_gather hparts (List.mem_map_of_mem ha)
    have hlisted : xs <:+: Tokens.listed parts := infix_separated hmem
    exact ⟨xs, hxs, (hlisted.trans (infix_enclosed _)).trans (List.suffix_cons _ _).isInfix⟩
  | membership hleft hright =>
    refine exists_infix_pair _ ((getElem?_of_mem_take_two ha).imp ?_ ?_)
    · exact fun h => operandAt_includes h _ _ hleft
    · exact fun h => containerAt_includes h _ hright
  | custom => cases ha

theorem call_includes {r : Rule} (hr : s.dialect.rule? function = some r)
    (ha : a ∈ r.written args) :
    Includes (s.call function args) a.outcome := by
  rw [call, hr]
  exact apply_includes ha

end Sql.Site

/-! ## Conditions -/

mutual

/-- A condition has in it the expressions that it joins. -/
theorem Cond.includes {s : Site} {e : Expr} : ∀ {c : Cond} (within : Option Joiner), e ∈ c.exprs →
    Includes (c.write s within) (e.write s)
  | .predicate x, within, he => by
    obtain rfl := List.mem_singleton.mp he
    rw [Cond.write]
    refine includes_map (fun ts => ?_) _
    split
    · exact List.infix_rfl
    · exact s.infix_operand _ _ ts
  | .group c, _, he => by
    rw [Cond.write]
    exact (includes_map infix_enclosed _).trans (Cond.includes none he)
  | .joined j cs, within, he => by
    obtain ⟨o, ho, hincludes⟩ := Cond.exists_includes (some j) he
    have hmap : (Cond.joined j cs).write s within = (gather (Cond.writeEach s (some j) cs)).map
        fun tss =>
          let ts := Tokens.separated [Tokens.space, s.keyword (.joiner j), Tokens.space] tss
          if j = .either ∧ within = some .both then ts.enclosed else ts := by
      rw [Cond.write]
      rfl
    rw [hmap]
    refine (includes_gather (g := fun ts => if j = .either ∧ within = some .both then ts.enclosed
      else ts) ho fun ts => ?_).trans hincludes
    split
    · exact infix_enclosed ts
    · exact List.infix_rfl

theorem Cond.exists_includes {s : Site} {e : Expr} :
    ∀ {cs : List Cond} (within : Option Joiner), e ∈ Cond.exprsEach cs →
      ∃ o ∈ Cond.writeEach s within cs, Includes o (e.write s)
  | [], _, he => nomatch he
  | c :: cs, within, he => by
    rcases List.mem_append.mp he with he | he
    · exact ⟨_, List.mem_cons_self, Cond.includes within he⟩
    · obtain ⟨o, ho, h⟩ := Cond.exists_includes within he
      exact ⟨o, List.mem_cons_of_mem _ ho, h⟩

end

/-- A join has in it its condition, behind the word for it. -/
theorem Join.write_condition {s : Site} {j : Join} {d : Cond}
    (hd : j.condition = some d) {ts : Tokens} (h : j.write s = .ok ts) :
    ∃ xs, d.write s none = .ok xs ∧ s.introduced (.clause .pairing) xs <:+: ts := by
  rw [Join.write_eq, hd, Cond.write?_eq_map] at h
  have hj := Site.join_eq_ok h
  generalize ho : (some d).map (fun c => c.write s none) = o at hj
  cases hj with
  | cross _ hcondition => cases hd.symm.trans hcondition
  | condition =>
    exact ⟨_, Option.some.inj ho, ((List.suffix_cons _ _).isInfix).trans
      (List.infix_append_of_infix_right List.infix_rfl)⟩
  | shared => cases ho

namespace Sql

/-! ## Statements -/

/-- The parts that a statement writes. -/
def Parts.written (p : Parts) : Statement → List (Outcome Tokens)
  | .select =>
    p.projection ++ p.joins ++ p.filter.toList ++ p.grouping ++ p.having.toList ++ p.ordering
  | .insert => p.rows.flatten
  | .update => p.assignments ++ p.filter.toList
  | .delete => p.filter.toList
  | .create | .drop => []

namespace Site

variable {s : Site} {q : Query} {p : Parts} {t : Table} {o : Outcome Tokens} {ts : Tokens}

theorem infix_introduced (s : Site) (k : Keyword) (ts : Tokens) : ts <:+: s.introduced k ts :=
  ((List.suffix_cons _ _).trans (List.suffix_cons _ _)).isInfix

theorem introduced_mem_clause? {c : Clause} {condition : Option (Outcome Tokens)}
    {tss : List Tokens} (h : s.clause? c condition = .ok tss) (ho : o ∈ condition) :
    ∃ xs, o = .ok xs ∧ s.introduced (.clause c) xs ∈ tss := by
  rcases clause?_eq_ok h with ⟨rfl, -⟩ | ⟨xs, rfl, rfl⟩
  · cases ho
  · cases ho
    exact ⟨xs, rfl, List.mem_singleton_self _⟩

theorem infix_mem_listed? {k : Keyword} {os : List (Outcome Tokens)} {tss : List Tokens}
    (h : s.listed? k os = .ok tss) (ho : o ∈ os) : ∃ xs, o = .ok xs ∧ ∃ us ∈ tss, xs <:+: us := by
  rcases listed?_eq_ok h with ⟨rfl, -⟩ | ⟨parts, hparts, rfl⟩
  · cases ho
  · obtain ⟨xs, hxs, rfl⟩ := exists_of_mem_gather hparts ho
    exact ⟨xs, rfl, _, List.mem_singleton_self _,
      (infix_separated hxs).trans (s.infix_introduced k _)⟩

theorem projection_eq_ok (h : s.projection q p = .ok ts) (hq : q.projection.isEmpty = false)
    (ho : o ∈ p.projection) : ∃ xs, o = .ok xs ∧ xs <:+: ts := by
  rw [projection, hq] at h
  exact includes_gather (g := id) ho (fun _ => List.infix_rfl) ts h

/-- A select has its clauses in it, and the conditions of these behind their words. -/
theorem select_includes (h : s.LaidOut q p t .select ts) :
    (q.projection.isEmpty = false → ∀ o ∈ p.projection, ∃ xs, o = .ok xs ∧ xs <:+: ts) ∧
    (∀ o ∈ p.joins, ∃ xs, o = .ok xs ∧ xs <:+: ts) ∧
    (∀ o ∈ p.filter, ∃ xs, o = .ok xs ∧ s.introduced (.clause .filter) xs <:+: ts) ∧
    (∀ o ∈ p.grouping, ∃ xs, o = .ok xs ∧ xs <:+: ts) ∧
    (∀ o ∈ p.having, ∃ xs, o = .ok xs ∧ s.introduced (.clause .having) xs <:+: ts) ∧
    (∀ o ∈ p.ordering, ∃ xs, o = .ok xs ∧ xs <:+: ts) := by
  cases h with
  | select hitems hjoins hfilter hgrouping hhaving hordering =>
    refine ⟨fun hq o ho => ?_, fun o ho => ?_, fun o ho => ?_, fun o ho => ?_, fun o ho => ?_,
      fun o ho => ?_⟩
    · obtain ⟨xs, hxs, hinfix⟩ := projection_eq_ok hitems hq ho
      exact ⟨xs, hxs, hinfix.trans (infix_separated (by simp))⟩
    · obtain ⟨xs, hxs, rfl⟩ := exists_of_mem_gather hjoins ho
      exact ⟨xs, rfl, infix_separated (by simp [hxs])⟩
    · obtain ⟨xs, hxs, hmem⟩ := introduced_mem_clause? hfilter ho
      exact ⟨xs, hxs, infix_separated (by simp [hmem])⟩
    · obtain ⟨xs, hxs, us, hus, hinfix⟩ := infix_mem_listed? hgrouping ho
      exact ⟨xs, hxs, hinfix.trans (infix_separated (by simp [hus]))⟩
    · obtain ⟨xs, hxs, hmem⟩ := introduced_mem_clause? hhaving ho
      exact ⟨xs, hxs, infix_separated (by simp [hmem])⟩
    · obtain ⟨xs, hxs, us, hus, hinfix⟩ := infix_mem_listed? hordering ho
      exact ⟨xs, hxs, hinfix.trans (infix_separated (by simp [hus]))⟩

theorem insert_includes (h : s.LaidOut q p t .insert ts) {row : List (Outcome Tokens)}
    (hrow : row ∈ p.rows) (ho : o ∈ row) : ∃ xs, o = .ok xs ∧ xs <:+: ts := by
  cases h with
  | @insert rows _ _ hrows =>
    obtain ⟨us, hus, hgather⟩ := exists_of_mem_gather hrows (List.mem_map_of_mem hrow)
    obtain ⟨xs, hxs, hinfix⟩ := includes_gather (g := Tokens.enclosed) ho infix_enclosed us hgather
    have hlisted : xs <:+: Tokens.listed rows := hinfix.trans (infix_separated hus)
    refine ⟨xs, hxs, hlisted.trans (infix_separated ?_)⟩
    exact List.mem_cons_of_mem _ (List.mem_cons_of_mem _ (List.mem_cons_of_mem _
      (List.mem_singleton_self _)))

theorem update_includes (h : s.LaidOut q p t .update ts) :
    (∀ o ∈ p.assignments, ∃ xs, o = .ok xs ∧ xs <:+: ts) ∧
    (∀ o ∈ p.filter, ∃ xs, o = .ok xs ∧ s.introduced (.clause .filter) xs <:+: ts) := by
  cases h with
  | @update assignments _ _ hassignments hfilter =>
    refine ⟨fun o ho => ?_, fun o ho => ?_⟩
    · obtain ⟨xs, hxs, rfl⟩ := exists_of_mem_gather hassignments ho
      have hlisted : xs <:+: Tokens.listed assignments := infix_separated hxs
      refine ⟨xs, rfl, (hlisted.trans (s.infix_introduced .set _)).trans (infix_separated ?_)⟩
      exact List.mem_append_left _ (List.mem_cons_of_mem _ (List.mem_singleton_self _))
    · obtain ⟨xs, hxs, hmem⟩ := introduced_mem_clause? hfilter ho
      exact ⟨xs, hxs, infix_separated (List.mem_append_right _ hmem)⟩

theorem delete_includes (h : s.LaidOut q p t .delete ts) (ho : o ∈ p.filter) :
    ∃ xs, o = .ok xs ∧ s.introduced (.clause .filter) xs <:+: ts := by
  cases h with
  | delete hfilter =>
    obtain ⟨xs, hxs, hmem⟩ := introduced_mem_clause? hfilter ho
    exact ⟨xs, hxs, infix_separated (List.mem_cons_of_mem _ hmem)⟩

/-- A statement has the conditions of its clauses in it, behind their words. -/
theorem statement_clause {c : Statement} (hq : q.command = .statement c)
    (h : s.statement q p = .ok ts) :
    (c ∈ [.select, .update, .delete] → ∀ o ∈ p.filter, ∃ xs, o = .ok xs ∧
      s.introduced (.clause .filter) xs <:+: ts) ∧
    (c = .select → ∀ o ∈ p.having, ∃ xs, o = .ok xs ∧
      s.introduced (.clause .having) xs <:+: ts) := by
  obtain ⟨t, -, h⟩ := LaidOut.of_statement hq h
  refine ⟨fun hc o ho => ?_, fun hc o ho => ?_⟩
  · cases c with
    | select => exact (select_includes h).2.2.1 o ho
    | update => exact (update_includes h).2 o ho
    | delete => exact delete_includes h ho
    | _ => simp at hc
  · subst hc
    exact (select_includes h).2.2.2.2.1 o ho

/-- A statement has in it each part that it writes. -/
theorem statement_includes {c : Statement} (hq : q.command = .statement c)
    (hp : q.projection = [] → p.projection = []) (ho : o ∈ p.written c) :
    Includes (s.statement q p) o := by
  intro ts hts
  obtain ⟨t, -, h⟩ := LaidOut.of_statement hq hts
  have behind {K : Clause} (h : ∃ xs, o = .ok xs ∧ s.introduced (.clause K) xs <:+: ts) :
      ∃ xs, o = .ok xs ∧ xs <:+: ts := by
    obtain ⟨xs, hxs, hinfix⟩ := h
    exact ⟨xs, hxs, (s.infix_introduced _ xs).trans hinfix⟩
  cases c with
  | select =>
    obtain ⟨hprojection, hjoins, hfilter, hgrouping, hhaving, hordering⟩ := select_includes h
    simp only [Parts.written, List.mem_append, Option.mem_toList, or_assoc] at ho
    rcases ho with ho | ho | ho | ho | ho | ho
    · refine hprojection ?_ o ho
      rw [List.isEmpty_eq_false_iff]
      intro hq
      rw [hp hq] at ho
      cases ho
    · exact hjoins o ho
    · exact behind (hfilter o ho)
    · exact hgrouping o ho
    · exact behind (hhaving o ho)
    · exact hordering o ho
  | insert =>
    obtain ⟨row, hrow, ho⟩ := List.mem_flatten.mp ho
    exact insert_includes h hrow ho
  | update =>
    rcases List.mem_append.mp ho with ho | ho
    · exact (update_includes h).1 o ho
    · exact behind ((update_includes h).2 o (Option.mem_toList.mp ho))
  | delete => exact behind (delete_includes h (Option.mem_toList.mp ho))
  | create => cases ho
  | drop => cases ho

end Site

end Sql

end SqlDraft
