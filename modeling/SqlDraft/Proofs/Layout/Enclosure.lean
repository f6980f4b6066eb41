import SqlDraft.Proofs.Layout.Form
import SqlDraft.Proofs.Reading.Enclosure

/-! What a statement has in parentheses. Much is enclosed: operands, arguments, lists, conditions,
rows, names. Of all that, only a query begins as statements do (`Site.statement_guarded`), since
expressions begin with columns, values, words of functions, and parentheses. One lemma for each
layout says so, from calls up to whole statements. -/

namespace SqlDraft.Sql

open Reading Nest

/-- What is written, if anything is, has the property. -/
def Yields (P : Tokens → Prop) (o : Outcome Tokens) : Prop := ∀ ts, o = .ok ts → P ts

variable {f : Flavor} {c : LetterCase} {S : Nest → Prop} {P Q : Tokens → Prop}

theorem Yields.mono {o : Outcome Tokens} (h : Yields P o) (hPQ : ∀ ts, P ts → Q ts) : Yields Q o :=
  fun ts hts => hPQ ts (h ts hts)

theorem Yields.map {o : Outcome Tokens} {g : Tokens → Tokens} (h : Yields P o)
    (hg : ∀ ts, P ts → Q (g ts)) : Yields Q (o.map g) := by
  intro ts hts
  obtain ⟨us, hus, rfl⟩ := map_eq_ok_iff.mp hts
  exact hg us (h us hus)

theorem forall_of_gather {os : List (Outcome Tokens)} (h : ∀ o ∈ os, Yields P o) {tss : List Tokens}
    (ht : gather os = .ok tss) : ∀ ts ∈ tss, P ts := by
  rw [gather_eq_ok_iff.mp ht] at h
  exact fun ts hts => h _ (List.mem_map_of_mem hts) ts rfl

namespace Site

variable {s : Site}

/-! ## Names and values -/

theorem keyword_guarded (hs : s.dialect = f.dialect) (k : Keyword) :
    Guarded f c S [s.keyword k] := by
  rw [keyword, hs]
  exact guarded_word (.keyword k)

theorem tableName_guarded (hs : s.dialect = f.dialect) (t : Table) :
    Guarded f c S (s.tableName t) :=
  (glued_tableName hs t).guarded

theorem names_subordinate (hs : s.dialect = f.dialect) {α : Type} (l : List α) (name : α → String) :
    Subordinate f c S (Tokens.listed (l.map fun a => [s.name (name a)])) := by
  refine .listed fun ts hts => ?_
  obtain ⟨a, -, rfl⟩ := List.mem_map.mp hts
  exact (inert_name hs _).subordinate

theorem literal_subordinate (hs : s.dialect = f.dialect) (t : Ty) (v : Value) :
    Yields (Subordinate f c S) (s.literal t v) := fun _ h => (inert_literal hs h).subordinate

/-! ## Calls -/

theorem operand_subordinate {ts : Tokens} (h : Subordinate f c S ts)
    (misread : Rat → Bool) (e : Expr) :
    Subordinate f c S (s.operand misread e ts) := by
  unfold operand
  split
  · split
    · exact h.enclosed
    · exact h
  · exact h

theorem container_subordinate {a : Argument} (h : Yields (Subordinate f c S) a.outcome) :
    Yields (Subordinate f c S) (container a) := by
  unfold container
  split
  · exact h
  · exact h
  · exact h.map fun _ ht => ht.enclosed

section

variable {function : String} {args : List Argument}

theorem operandAt_subordinate {i : Nat} (h : ∀ a ∈ args[i]?, Yields (Subordinate f c S) a.outcome)
    (misread : Rat → Bool) : Yields (Subordinate f c S) (s.operandAt function args i misread) := by
  intro ts hts
  unfold operandAt at hts
  split at hts
  · next a ha => exact (h a ha).map (fun _ hus => operand_subordinate hus misread a.expr) ts hts
  · cases hts

theorem containerAt_subordinate {i : Nat}
    (h : ∀ a ∈ args[i]?, Yields (Subordinate f c S) a.outcome) :
    Yields (Subordinate f c S) (s.containerAt function args i) := by
  intro ts hts
  unfold containerAt at hts
  split at hts
  · next a ha => exact container_subordinate (h a ha) ts hts
  · cases hts

/-- A word between two operands. -/
theorem between_subordinate {w : String} (hw : f.HasWord w) {xs ys : Tokens}
    (hx : Subordinate f c S xs) (hy : Subordinate f c S ys) :
    Subordinate f c S (xs ++ [Tokens.space, .word w, Tokens.space] ++ ys) := by
  have hrest : Guarded f c S (.word w :: Tokens.space :: ys) :=
    (guarded_word hw).cons (guarded_space.cons hy.toGuarded)
  rw [List.append_assoc]
  exact hx.append (guarded_space.cons hrest) (splits_space hrest.lies)

/-- No statement begins with a word that calls begin with. -/
theorem front_subordinate {w : String} {r : Rule} (hrule : f.dialect.rule? function = some r)
    (hr : r = .before w ∨ r = .call w) : Subordinate f c S [.word w] := by
  have hspeaks := f.speaks c hrule
  rcases hr with rfl | rfl
  all_goals
    simp only [Grammar.speaks, Bool.and_eq_true, Bool.not_eq_true', List.contains_eq_mem,
      decide_eq_false_iff_not] at hspeaks
    exact subordinate_word (.rule hrule rfl) hspeaks.1.1 hspeaks.2

/-- A call is written of what the arguments that its rule asks for are written as, and begins with
one of them or with a word of its rule. -/
theorem call_subordinate (hs : s.dialect = f.dialect)
    (h : ∀ r, f.dialect.rule? function = some r →
      ∀ a ∈ r.written args, Yields (Subordinate f c S) a.outcome) :
    Yields (Subordinate f c S) (s.call function args) := by
  intro ts hts
  obtain ⟨r, hr, hts⟩ := call_eq_ok hts
  rw [hs] at hr
  have hword {w : String} (hw : r.word? = some w) : f.HasWord w := .rule hr hw
  have hargs := h r hr
  have taken {n i : Nat} (hi : i < n)
      (htake : ∀ a ∈ args.take n, Yields (Subordinate f c S) a.outcome) :
      ∀ a ∈ args[i]?, Yields (Subordinate f c S) a.outcome :=
    fun a ha => htake a (List.mem_of_getElem? ((List.getElem?_take_of_lt hi).trans ha))
  cases hts with
  | between hleft hright =>
    exact between_subordinate (hword rfl)
      (operandAt_subordinate (taken Nat.two_pos hargs) _ _ hleft)
      (operandAt_subordinate (taken Nat.one_lt_two hargs) _ _ hright)
  | before hoperand =>
    have hoperand := operandAt_subordinate (taken Nat.one_pos hargs) _ _ hoperand
    exact (front_subordinate hr (.inl rfl)).append (guarded_space.cons hoperand.toGuarded)
      (splits_space hoperand.lies)
  | after hoperand =>
    have hw := guarded_word (c := c) (S := S) (hword rfl)
    exact (operandAt_subordinate (taken Nat.one_pos hargs) _ _ hoperand).append
      (guarded_space.cons hw) (splits_space hw.lies)
  | call hparts =>
    have hall := forall_of_gather (List.forall_mem_map.mpr hargs) hparts
    have hlist := Subordinate.listed hall
    exact (front_subordinate hr (.inr rfl)).append hlist.enclosed.toGuarded
      (splits_enclosed hlist.lies)
  | membership hleft hright =>
    exact between_subordinate (hword rfl)
      (operandAt_subordinate (taken Nat.two_pos hargs) _ _ hleft)
      (containerAt_subordinate (taken Nat.one_lt_two hargs) _ hright)
  | custom _ =>
    -- the only rule of its own among the dialects at hand counts rows, and writes no argument
    rcases f.isWord_of_rule? hr with ⟨w, hw, -⟩ | ht
    · cases hw
    · cases ht
      exact (front_subordinate f.rule?_count (.inr rfl)).append (guarded_mark (by decide))
        (splits_mark (by decide))

end

/-! ## Clauses -/

theorem introduced_guarded (hs : s.dialect = f.dialect) (k : Keyword) {ts : Tokens}
    (h : Guarded f c S ts) : Guarded f c S (s.introduced k ts) :=
  (keyword_guarded hs k).cons (guarded_space.cons h)

theorem item_guarded (hs : s.dialect = f.dialect) (label : Option String) {ts : Tokens}
    (h : Guarded f c S ts) : Guarded f c S (s.item label ts) := by
  cases label with
  | none => exact h
  | some n =>
    exact h.append (guarded_space.cons ((keyword_guarded hs _).cons
      (guarded_space.cons (inert_name hs n).toGlued.guarded)))

theorem assignment_guarded (hs : s.dialect = f.dialect) (col : Column) {ts : Tokens}
    (h : Guarded f c S ts) : Guarded f c S (s.assignment col ts) :=
  (inert_name hs _).toGlued.guarded.cons ((guarded_mark (by decide)).cons h)

theorem clause?_guarded (hs : s.dialect = f.dialect) (K : Clause) {o : Option (Outcome Tokens)}
    (h : ∀ o' ∈ o, Yields (Guarded f c S) o') {tss : List Tokens} (ht : s.clause? K o = .ok tss) :
    ∀ ts ∈ tss, Guarded f c S ts := by
  rcases clause?_eq_ok ht with ⟨rfl, rfl⟩ | ⟨us, rfl, rfl⟩
  · exact List.forall_mem_nil _
  · exact List.forall_mem_singleton.mpr (introduced_guarded hs _ (h _ rfl us rfl))

theorem listed?_guarded (hs : s.dialect = f.dialect) (k : Keyword) {os : List (Outcome Tokens)}
    (h : ∀ o ∈ os, Yields (Guarded f c S) o) {tss : List Tokens} (ht : s.listed? k os = .ok tss) :
    ∀ ts ∈ tss, Guarded f c S ts := by
  rcases listed?_eq_ok ht with ⟨rfl, rfl⟩ | ⟨uss, hu, rfl⟩
  · exact List.forall_mem_nil _
  · exact List.forall_mem_singleton.mpr (introduced_guarded hs k (.listed (forall_of_gather h hu)))

theorem join_guarded (hs : s.dialect = f.dialect) (j : Join) {o : Option (Outcome Tokens)}
    (h : ∀ o' ∈ o, Yields (Guarded f c S) o') : Yields (Guarded f c S) (s.join j o) := by
  intro ts hts
  have head : Guarded f c S (s.introduced (.join j.kind) (s.tableName j.table)) :=
    introduced_guarded hs _ (tableName_guarded hs _)
  cases join_eq_ok hts with
  | cross => exact head
  | condition => exact head.append (guarded_space.cons (introduced_guarded hs _ (h _ rfl _ rfl)))
  | shared =>
    exact head.append (guarded_space.cons
      (introduced_guarded hs _ (names_subordinate hs _ id).enclosed.toGuarded))

/-! ## Statements -/

/-- What each part of a statement is written as is guarded; the values of a row, which come in
parentheses, do not begin as a statement either. -/
structure PartsGuarded (f : Flavor) (c : LetterCase) (S : Nest → Prop) (p : Parts) : Prop where
  projection : ∀ o ∈ p.projection, Yields (Guarded f c S) o
  joins : ∀ o ∈ p.joins, Yields (Guarded f c S) o
  filter : ∀ o ∈ p.filter, Yields (Guarded f c S) o
  grouping : ∀ o ∈ p.grouping, Yields (Guarded f c S) o
  having : ∀ o ∈ p.having, Yields (Guarded f c S) o
  ordering : ∀ o ∈ p.ordering, Yields (Guarded f c S) o
  rows : ∀ row ∈ p.rows, ∀ o ∈ row, Yields (Subordinate f c S) o
  assignments : ∀ o ∈ p.assignments, Yields (Guarded f c S) o

variable {q : Query} {p : Parts}

theorem projection_guarded (hs : s.dialect = f.dialect) (h : PartsGuarded f c S p) :
    Yields (Guarded f c S) (s.projection q p) := by
  intro ts hts
  unfold projection at hts
  split at hts
  · split at hts <;> cases hts
    · refine .listed fun us hus => ?_
      obtain ⟨t, -, rfl⟩ := List.mem_map.mp hus
      exact (tableName_guarded hs t).append (guarded_mark (by decide))
    · exact guarded_mark (by decide)
  · obtain ⟨uss, hu, rfl⟩ := map_eq_ok_iff.mp hts
    exact .listed (forall_of_gather h.projection hu)

theorem count_guarded (n : Float) : Guarded f c S [count n] := guarded_number n

theorem front_guarded (hs : s.dialect = f.dialect) (q : Query) :
    ∀ ts ∈ s.front q, Guarded f c S ts := by
  unfold front
  split
  · exact List.forall_mem_singleton.mpr (introduced_guarded hs _ (count_guarded _))
  · exact List.forall_mem_nil _

theorem paging_guarded (hs : s.dialect = f.dialect) (q : Query) :
    ∀ ts ∈ s.paging q, Guarded f c S ts := by
  have clause (o : Option Float) (k : Keyword) {g : Float → Tokens}
      (hg : ∀ n, Guarded f c S (g n)) :
      ∀ ts ∈ o.toList.map fun n => s.introduced k (g n), Guarded f c S ts := by
    intro ts hts
    obtain ⟨n, -, rfl⟩ := List.mem_map.mp hts
    exact introduced_guarded hs k (hg n)
  have rows (n : Float) : Guarded f c S [count n, Tokens.space, s.keyword .rows] :=
    (count_guarded n).cons (guarded_space.cons (keyword_guarded hs _))
  have only (n : Float) :
      Guarded f c S [count n, Tokens.space, s.keyword .rows, Tokens.space, s.keyword .only] :=
    (count_guarded n).cons (guarded_space.cons
      ((keyword_guarded hs _).cons (guarded_space.cons (keyword_guarded hs _))))
  have rest (fetch : Keyword) : ∀ ts ∈ (if s.limitsInFront q then []
      else (q.offset.toList.map fun n =>
        s.introduced .offset [count n, Tokens.space, s.keyword .rows]) ++
        q.limit.toList.map fun n => s.introduced fetch
          [count n, Tokens.space, s.keyword .rows, Tokens.space, s.keyword .only]),
      Guarded f c S ts := by
    split
    · exact List.forall_mem_nil _
    · exact List.forall_mem_append.mpr ⟨clause _ _ rows, clause _ _ only⟩
  unfold paging
  cases s.dialect.pagination with
  | limitOffset =>
    exact List.forall_mem_append.mpr ⟨clause _ _ count_guarded, clause _ _ count_guarded⟩
  | top => exact rest _
  | fetchFirst => exact rest _

/-- A word that a statement has or not. -/
theorem optional_guarded (hs : s.dialect = f.dialect) (k : Keyword) (b : Bool) :
    ∀ ts ∈ (if b then [[s.keyword k]] else []), Guarded f c S ts := by
  split
  · exact List.forall_mem_singleton.mpr (keyword_guarded hs k)
  · exact List.forall_mem_nil _

section

variable {t : Table} {ts : Tokens}

theorem select_guarded (hs : s.dialect = f.dialect) (h : PartsGuarded f c S p)
    (hts : s.LaidOut q p t .select ts) : Guarded f c S ts := by
  cases hts with
  | select hitems hjoins hfilter hgrouping hhaving hordering =>
    have hsource : Guarded f c S (s.introduced .source (s.tableName t)) :=
      introduced_guarded hs _ (tableName_guarded hs _)
    refine .spaced ?_
    simp only [List.forall_mem_append, List.forall_mem_cons]
    exact ⟨⟨⟨⟨⟨⟨⟨⟨⟨⟨keyword_guarded hs _, List.forall_mem_nil _⟩, optional_guarded hs _ _⟩,
      front_guarded hs q⟩, projection_guarded hs h _ hitems, hsource, List.forall_mem_nil _⟩,
      forall_of_gather h.joins hjoins⟩, clause?_guarded hs _ h.filter hfilter⟩,
      listed?_guarded hs _ h.grouping hgrouping⟩, clause?_guarded hs _ h.having hhaving⟩,
      listed?_guarded hs _ h.ordering hordering⟩, paging_guarded hs q⟩

theorem insert_guarded (hs : s.dialect = f.dialect) (h : PartsGuarded f c S p)
    (hts : s.LaidOut q p t .insert ts) : Guarded f c S ts := by
  cases hts with
  | insert _ _ hrows =>
    have hrow : ∀ o ∈ p.rows.map fun row => (gather row).map fun ts => (Tokens.listed ts).enclosed,
        Yields (Guarded f c S) o := by
      intro o ho us hus
      obtain ⟨row, hrow, rfl⟩ := List.mem_map.mp ho
      obtain ⟨tss, htss, rfl⟩ := map_eq_ok_iff.mp hus
      exact (Subordinate.listed (forall_of_gather (h.rows row hrow) htss)).enclosed.toGuarded
    refine .spaced ?_
    simp only [List.forall_mem_cons]
    exact ⟨introduced_guarded hs _ (tableName_guarded hs _),
      (names_subordinate hs _ _).enclosed.toGuarded,
      keyword_guarded hs _, .listed (forall_of_gather hrow hrows), List.forall_mem_nil _⟩

theorem update_guarded (hs : s.dialect = f.dialect) (h : PartsGuarded f c S p)
    (hts : s.LaidOut q p t .update ts) : Guarded f c S ts := by
  cases hts with
  | update _ hassignments hfilter =>
    have hset := Guarded.listed (forall_of_gather h.assignments hassignments)
    refine .spaced (List.forall_mem_append.mpr ⟨?_, clause?_guarded hs _ h.filter hfilter⟩)
    simp only [List.forall_mem_cons]
    exact ⟨introduced_guarded hs _ (tableName_guarded hs _), introduced_guarded hs _ hset,
      List.forall_mem_nil _⟩

theorem delete_guarded (hs : s.dialect = f.dialect) (h : PartsGuarded f c S p)
    (hts : s.LaidOut q p t .delete ts) : Guarded f c S ts := by
  cases hts with
  | delete hfilter =>
    exact .spaced (List.forall_mem_cons.mpr
      ⟨introduced_guarded hs _ (tableName_guarded hs _), clause?_guarded hs _ h.filter hfilter⟩)

theorem definition_subordinate (hs : s.dialect = f.dialect) (col : Column) :
    Yields (Subordinate f c S) (s.definition col) := by
  intro ts hts
  unfold definition at hts
  split at hts
  · next k _ =>
    cases hts
    rw [hs]
    have htype : Guarded f c S [.word (f.dialect.typeNames k)] := guarded_word (.typeName k)
    exact (inert_name hs _).subordinate.append (guarded_space.cons htype) (splits_space htype.lies)
  · cases hts

theorem create_guarded (hs : s.dialect = f.dialect) (hts : s.LaidOut q p t .create ts) :
    Guarded f c S ts := by
  cases hts with
  | create _ hdefinitions =>
    have hcolumns : Subordinate f c S _ := .listed (forall_of_gather
      (List.forall_mem_map.mpr fun col _ => definition_subordinate hs col) hdefinitions)
    refine .spaced ?_
    simp only [List.forall_mem_append, List.forall_mem_cons]
    exact ⟨⟨⟨keyword_guarded hs _, List.forall_mem_nil _⟩, optional_guarded hs _ _⟩,
      tableName_guarded hs _, hcolumns.enclosed.toGuarded, List.forall_mem_nil _⟩

theorem drop_guarded (hs : s.dialect = f.dialect) (hts : s.LaidOut q p t .drop ts) :
    Guarded f c S ts := by
  cases hts
  refine .spaced ?_
  simp only [List.forall_mem_append, List.forall_mem_cons]
  exact ⟨⟨⟨keyword_guarded hs _, List.forall_mem_nil _⟩, optional_guarded hs _ _⟩,
    tableName_guarded hs _, List.forall_mem_nil _⟩

end

/-- A statement has no others in parentheses than its parts have. -/
theorem statement_guarded (hs : s.dialect = f.dialect) (h : PartsGuarded f c S p) :
    Yields (Guarded f c S) (s.statement q p) := by
  intro ts hts
  obtain ⟨k, t, -, -, -, hts⟩ := statement_eq_ok hts
  cases k with
  | select => exact select_guarded hs h hts
  | insert => exact insert_guarded hs h hts
  | update => exact update_guarded hs h hts
  | delete => exact delete_guarded hs h hts
  | create => exact create_guarded hs hts
  | drop => exact drop_guarded hs hts

end Site

end SqlDraft.Sql
