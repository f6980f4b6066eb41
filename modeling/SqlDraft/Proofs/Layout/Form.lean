import SqlDraft.Sql.Layout

/-! What a text is made of, if there is one. Layouts put outcomes together, and whatever is shown of
a text begins by taking these apart. That is done here once: a call that can be written has one of
the forms of its rule (`Site.call_eq_ok`), a join one of three (`Site.join_eq_ok`), a statement that
of its command (`Site.statement_eq_ok`). -/

namespace SqlDraft.Sql.Site

open Tokens

variable {s : Site} {ts : Tokens}

/-! ## Calls -/

/-- What a rule makes of arguments, out of those that it has a place for. -/
inductive Applied (s : Site) (function : String) (args : List Argument) : Rule → Tokens → Prop
  | between {operator : String} {p : Rat} {alone : Option Bool} {left right : Tokens}
      (hleft : s.operandAt function args 0 (fun q => if alone = some true then q ≤ p else q < p) =
        .ok left)
      (hright : s.operandAt function args 1 (fun q => q ≤ p) = .ok right) :
      Applied s function args (.between operator p alone)
        (left ++ [space, .word operator, space] ++ right)
  | before {operator : String} {operand : Tokens}
      (hoperand : s.operandAt function args 0 (fun _ => true) = .ok operand) :
      Applied s function args (.before operator) ([.word operator, space] ++ operand)
  | after {operator : String} {operand : Tokens}
      (hoperand : s.operandAt function args 0 (fun _ => true) = .ok operand) :
      Applied s function args (.after operator) (operand ++ [space, .word operator])
  | call {name : String} {parts : List Tokens}
      (hparts : gather (args.map Argument.outcome) = .ok parts) :
      Applied s function args (.call name) (.word name :: (listed parts).enclosed)
  | membership {operator : String} {left right : Tokens}
      (hleft : s.operandAt function args 0 (fun _ => true) = .ok left)
      (hright : s.containerAt function args 1 = .ok right) :
      Applied s function args (.membership operator)
        (left ++ [space, .word operator, space] ++ right)
  | custom {write : List Tokens → Tokens} {parts : List Tokens}
      (hparts : gather (args.map Argument.outcome) = .ok parts) :
      Applied s function args (.custom write) (write parts)

section

variable {function : String} {args : List Argument} {r : Rule}

theorem apply_eq_ok (h : s.apply function args r = .ok ts) : s.Applied function args r ts := by
  cases r with
  | between operator p alone =>
    obtain ⟨left, hleft, h⟩ := bind_eq_ok_iff.mp h
    obtain ⟨right, hright, h⟩ := bind_eq_ok_iff.mp h
    cases h
    exact .between hleft hright
  | before operator =>
    obtain ⟨operand, hoperand, h⟩ := bind_eq_ok_iff.mp h
    cases h
    exact .before hoperand
  | after operator =>
    obtain ⟨operand, hoperand, h⟩ := bind_eq_ok_iff.mp h
    cases h
    exact .after hoperand
  | call name =>
    obtain ⟨parts, hparts, h⟩ := bind_eq_ok_iff.mp h
    cases h
    exact .call hparts
  | membership operator =>
    obtain ⟨left, hleft, h⟩ := bind_eq_ok_iff.mp h
    obtain ⟨right, hright, h⟩ := bind_eq_ok_iff.mp h
    cases h
    exact .membership hleft hright
  | custom write =>
    obtain ⟨parts, hparts, h⟩ := bind_eq_ok_iff.mp h
    cases h
    exact .custom hparts

theorem call_eq_ok (h : s.call function args = .ok ts) :
    ∃ r, s.dialect.rule? function = some r ∧ s.Applied function args r ts := by
  unfold call at h
  split at h
  · next r hr => exact ⟨r, hr, apply_eq_ok h⟩
  · cases h

end

/-! ## Clauses -/

theorem clause?_eq_ok {c : Clause} {o : Option (Outcome Tokens)} {tss : List Tokens}
    (h : s.clause? c o = .ok tss) :
    o = none ∧ tss = [] ∨ ∃ us, o = some (.ok us) ∧ tss = [s.introduced (.clause c) us] := by
  obtain ⟨r, hr, h⟩ := bind_eq_ok_iff.mp h
  cases o with
  | none =>
    cases hr
    cases h
    exact .inl ⟨rfl, rfl⟩
  | some o =>
    obtain ⟨us, rfl, rfl⟩ := map_eq_ok_iff.mp hr
    cases h
    exact .inr ⟨us, rfl, rfl⟩

theorem listed?_eq_ok {k : Keyword} {os : List (Outcome Tokens)} {tss : List Tokens}
    (h : s.listed? k os = .ok tss) :
    os = [] ∧ tss = [] ∨ ∃ uss, gather os = .ok uss ∧ tss = [s.introduced k (listed uss)] := by
  obtain ⟨uss, hu, h⟩ := bind_eq_ok_iff.mp h
  cases uss with
  | nil =>
    cases h
    exact .inl ⟨List.map_nil ▸ gather_eq_ok_iff.mp hu, rfl⟩
  | cons us uss =>
    cases h
    exact .inr ⟨us :: uss, hu, rfl⟩

/-- What is written of a join, given what was written of its condition. -/
inductive Joined (s : Site) (j : Join) : Option (Outcome Tokens) → Tokens → Prop
  | cross {o : Option (Outcome Tokens)} (hkind : j.kind = .cross) (hcondition : j.condition = none)
      (hshared : j.shared = none) :
      Joined s j o (s.introduced (.join j.kind) (s.tableName j.table))
  | condition {us : Tokens} (hkind : j.kind ≠ .cross) :
      Joined s j (some (.ok us)) (s.introduced (.join j.kind) (s.tableName j.table) ++
        space :: s.introduced (.clause .pairing) us)
  | shared {n : String} {ns : List String} (hkind : j.kind ≠ .cross)
      (hshared : j.shared = some (n :: ns)) :
      Joined s j none (s.introduced (.join j.kind) (s.tableName j.table) ++
        space :: s.introduced .shared (listed ((n :: ns).map fun n => [s.name n])).enclosed)

theorem join_eq_ok {j : Join} {o : Option (Outcome Tokens)} (h : s.join j o = .ok ts) :
    s.Joined j o ts := by
  unfold join at h
  dsimp only at h
  split at h
  · next hkind =>
    split at h
    · cases h
    · next hnone =>
      cases h
      obtain ⟨hcondition, hshared⟩ := not_or.mp hnone
      exact .cross hkind (Option.not_isSome_iff_eq_none.mp hcondition)
        (Option.not_isSome_iff_eq_none.mp hshared)
  · next hkind =>
    split at h
    · obtain ⟨us, rfl, rfl⟩ := map_eq_ok_iff.mp h
      exact .condition hkind
    · next hshared =>
      cases h
      exact .shared hkind hshared
    · cases h

/-! ## Statements -/

variable {q : Query} {p : Parts}

theorem target_eq_ok {t : Table} (h : s.target q = .ok t) : q.table = some t := by
  unfold target at h
  split at h
  · next hq =>
    cases h
    exact hq
  · cases h

/-- The table that a statement is on, and what it is laid out of by its command. -/
inductive LaidOut (s : Site) (q : Query) (p : Parts) (t : Table) : Statement → Tokens → Prop
  | select {items : Tokens} {joins filter grouping having ordering : List Tokens}
      (hitems : s.projection q p = .ok items) (hjoins : gather p.joins = .ok joins)
      (hfilter : s.clause? .filter p.filter = .ok filter)
      (hgrouping : s.listed? .groupBy p.grouping = .ok grouping)
      (hhaving : s.clause? .having p.having = .ok having)
      (hordering : s.listed? .orderBy p.ordering = .ok ordering) :
      LaidOut s q p t .select <| spaced <|
        [[s.keyword .select]] ++ (if q.isDistinct then [[s.keyword .distinct]] else []) ++
        s.front q ++ [items, s.introduced .source (s.tableName t)] ++
        joins ++ filter ++ grouping ++ having ++ ordering ++ s.paging q
  | insert {rows : List Tokens} (hcolumns : q.insertColumns ≠ []) (hne : q.rows ≠ [])
      (hrows : gather (p.rows.map fun row => (gather row).map fun ts => (listed ts).enclosed) =
        .ok rows) :
      LaidOut s q p t .insert <| spaced
        [s.introduced .insertInto (s.tableName t),
          (listed (q.insertColumns.map fun c => [s.name c.name])).enclosed, [s.keyword .values],
          listed rows]
  | update {assignments filter : List Tokens} (hne : q.assignments ≠ [])
      (hassignments : gather p.assignments = .ok assignments)
      (hfilter : s.clause? .filter p.filter = .ok filter) :
      LaidOut s q p t .update <| spaced <|
        [s.introduced .update (s.tableName t), s.introduced .set (listed assignments)] ++ filter
  | delete {filter : List Tokens} (hfilter : s.clause? .filter p.filter = .ok filter) :
      LaidOut s q p t .delete <| spaced (s.introduced .deleteFrom (s.tableName t) :: filter)
  | create {definitions : List Tokens} (hne : t.declaredColumns ≠ [])
      (hdefinitions : gather (t.declaredColumns.map s.definition) = .ok definitions) :
      LaidOut s q p t .create <| spaced <|
        [[s.keyword .createTable]] ++
        (if q.ifNotExists then [[s.keyword .ifNotExists]] else []) ++
        [s.tableName t, (listed definitions).enclosed]
  | drop :
      LaidOut s q p t .drop <| spaced <|
        [[s.keyword .dropTable]] ++
        (if q.ifExists then [[s.keyword .ifExists]] else []) ++ [s.tableName t]

theorem select_eq_ok (h : s.select q p = .ok ts) : ∃ t, q.table = some t ∧
    s.LaidOut q p t .select ts := by
  obtain ⟨t, ht, h⟩ := bind_eq_ok_iff.mp h
  obtain ⟨items, hitems, h⟩ := bind_eq_ok_iff.mp h
  obtain ⟨joins, hjoins, h⟩ := bind_eq_ok_iff.mp h
  obtain ⟨filter, hfilter, h⟩ := bind_eq_ok_iff.mp h
  obtain ⟨grouping, hgrouping, h⟩ := bind_eq_ok_iff.mp h
  obtain ⟨having, hhaving, h⟩ := bind_eq_ok_iff.mp h
  obtain ⟨ordering, hordering, h⟩ := bind_eq_ok_iff.mp h
  cases h
  exact ⟨t, target_eq_ok ht, .select hitems hjoins hfilter hgrouping hhaving hordering⟩

theorem insert_eq_ok (h : s.insert q p = .ok ts) : ∃ t, q.table = some t ∧
    s.LaidOut q p t .insert ts := by
  obtain ⟨t, ht, h⟩ := bind_eq_ok_iff.mp h
  dsimp only at h
  split at h
  · cases h
  · next hne =>
    obtain ⟨rows, hrows, h⟩ := bind_eq_ok_iff.mp h
    cases h
    rw [List.isEmpty_iff, List.isEmpty_iff, not_or] at hne
    exact ⟨t, target_eq_ok ht, .insert hne.1 hne.2 hrows⟩

theorem update_eq_ok (h : s.update q p = .ok ts) : ∃ t, q.table = some t ∧
    s.LaidOut q p t .update ts := by
  obtain ⟨t, ht, h⟩ := bind_eq_ok_iff.mp h
  dsimp only at h
  split at h
  · cases h
  · next hne =>
    obtain ⟨assignments, hassignments, h⟩ := bind_eq_ok_iff.mp h
    obtain ⟨filter, hfilter, h⟩ := bind_eq_ok_iff.mp h
    cases h
    rw [List.isEmpty_iff] at hne
    exact ⟨t, target_eq_ok ht, .update hne hassignments hfilter⟩

theorem delete_eq_ok (h : s.delete q p = .ok ts) : ∃ t, q.table = some t ∧
    s.LaidOut q p t .delete ts := by
  obtain ⟨t, ht, h⟩ := bind_eq_ok_iff.mp h
  obtain ⟨filter, hfilter, h⟩ := bind_eq_ok_iff.mp h
  cases h
  exact ⟨t, target_eq_ok ht, .delete hfilter⟩

theorem create_eq_ok (h : s.create q = .ok ts) : ∃ t, q.table = some t ∧
    s.LaidOut q p t .create ts := by
  obtain ⟨t, ht, h⟩ := bind_eq_ok_iff.mp h
  dsimp only at h
  split at h
  · cases h
  · next hne =>
    obtain ⟨definitions, hdefinitions, h⟩ := bind_eq_ok_iff.mp h
    cases h
    rw [List.isEmpty_iff] at hne
    exact ⟨t, target_eq_ok ht, .create hne hdefinitions⟩

theorem drop_eq_ok (h : s.drop q = .ok ts) : ∃ t, q.table = some t ∧ s.LaidOut q p t .drop ts := by
  obtain ⟨t, ht, h⟩ := bind_eq_ok_iff.mp h
  cases h
  exact ⟨t, target_eq_ok ht, .drop⟩

/-- A statement that can be written is of a command that its dialect knows, and on a table. -/
theorem statement_eq_ok (h : s.statement q p = .ok ts) :
    ∃ c t, q.command = .statement c ∧ c ∈ s.dialect.commands ∧ q.table = some t ∧
      s.LaidOut q p t c ts := by
  unfold statement at h
  split at h
  · cases h
  · next c hc =>
    split at h
    · next hmem =>
      have hlaid : ∃ t, q.table = some t ∧ s.LaidOut q p t c ts := by
        cases c with
        | select => exact select_eq_ok h
        | insert => exact insert_eq_ok h
        | update => exact update_eq_ok h
        | delete => exact delete_eq_ok h
        | create => exact create_eq_ok h
        | drop => exact drop_eq_ok h
      obtain ⟨t, ht, hlaid⟩ := hlaid
      exact ⟨c, t, hc, hmem, ht, hlaid⟩
    · cases h

theorem LaidOut.of_statement {c : Statement} (hq : q.command = .statement c)
    (h : s.statement q p = .ok ts) :
    ∃ t, q.table = some t ∧ s.LaidOut q p t c ts := by
  obtain ⟨c', t, hc, -, ht, hlaid⟩ := statement_eq_ok h
  cases hq.symm.trans hc
  exact ⟨t, ht, hlaid⟩

end SqlDraft.Sql.Site
