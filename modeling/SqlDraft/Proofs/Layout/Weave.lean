import SqlDraft.Proofs.Layout.Form
import SqlDraft.Proofs.Reading.Weave
import SqlDraft.Proofs.Tree.Data

/-! A statement keeps its tokens apart if its parts do, and the data among its tokens are those of
the parts that it writes, in order (`Site.statement_carries`). One lemma for each layout says so,
from calls up to whole statements. What carries data is woven with the texts among them
(`Carries.woven`). -/

namespace SqlDraft.Sql

open Reading

/-- Tokens that are kept apart, with the data among them. All others are marks, and words of the
dialect. -/
inductive Carries (f : Flavor) : Tokens → List Datum → Prop
  | nil : Carries f [] []
  | word {w : String} (h : f.HasWord w) : Carries f [.word w] []
  | datum (x : Datum) : Carries f [x.token f.dialect] [x]
  | apart {m : String} (hm : m ∈ marks) {xs ys : Tokens} {ds es : List Datum}
      (hx : Carries f xs ds) (hy : Carries f ys es) : Carries f (xs ++ .mark m :: ys) (ds ++ es)
  | enclosed {xs ys : Tokens} {ds es : List Datum} (hx : Carries f xs ds) (hy : Carries f ys es) :
      Carries f (xs ++ Tokens.enclosed ys) (ds ++ es)

/-- Lists of tokens that are kept apart, with all data among them. -/
inductive CarriesEach (f : Flavor) : List Tokens → List Datum → Prop
  | nil : CarriesEach f [] []
  | cons {ts : Tokens} {tss : List Tokens} {ds es : List Datum} (h : Carries f ts ds)
      (hs : CarriesEach f tss es) : CarriesEach f (ts :: tss) (ds ++ es)

/-- What is written, if anything is, carries these data. -/
def Writes (f : Flavor) (o : Outcome Tokens) (ds : List Datum) : Prop :=
  ∀ ts, o = .ok ts → Carries f ts ds

def WritesEach (f : Flavor) (os : List (Outcome Tokens)) (ds : List Datum) : Prop :=
  ∀ tss, gather os = .ok tss → CarriesEach f tss ds

variable {f : Flavor}

theorem Carries.woven {ts : Tokens} {ds : List Datum} (h : Carries f ts ds) :
    Woven f ts (Datum.texts ds) := by
  induction h with
  | nil => exact .nil
  | word h => exact .word h.isWord
  | datum x =>
    cases x with
    | name n => exact .name n
    | text v => exact .literal v
    | temporal t v =>
      rw [Datum.token, f.literals_temporal]
      exact .literal v
    | number x => exact .number x
  | apart hm _ _ ihx ihy =>
    rw [Datum.texts_append]
    exact .apart hm ihx ihy
  | enclosed _ _ ihx ihy =>
    rw [Datum.texts_append]
    exact .enclosed ihx ihy

/-! ## Tokens side by side -/

theorem Carries.mark {m : String} (hm : m ∈ marks) : Carries f [.mark m] [] := .apart hm .nil .nil

theorem Carries.between {m : String} (hm : m ∈ marks) {xs ys : Tokens} {ds es : List Datum}
    (hx : Carries f xs ds) (hy : Carries f ys es) :
      Carries f (xs ++ [.mark m] ++ ys) (ds ++ es) := by
  simpa using Carries.apart hm hx hy

theorem Carries.parenthesized {ts : Tokens} {ds : List Datum} (h : Carries f ts ds) :
    Carries f ts.enclosed ds := .enclosed .nil h

theorem CarriesEach.singleton {ts : Tokens} {ds : List Datum} (h : Carries f ts ds) :
    CarriesEach f [ts] ds := by
  simpa using CarriesEach.cons h .nil

theorem CarriesEach.append {xs ys : List Tokens} {ds es : List Datum} (hx : CarriesEach f xs ds)
    (hy : CarriesEach f ys es) : CarriesEach f (xs ++ ys) (ds ++ es) := by
  induction hx with
  | nil => exact hy
  | cons h _ ih =>
    rw [List.cons_append, List.append_assoc]
    exact .cons h ih

/-- Lists that carry the data of each item. -/
theorem carriesEach_map {α : Type} {l : List α} {g : α → Tokens} {data : α → List Datum}
    (h : ∀ a, Carries f (g a) (data a)) : CarriesEach f (l.map g) (l.flatMap data) := by
  induction l with
  | nil => exact .nil
  | cons a l ih => exact .cons (h a) ih

/-- What is between the parts puts them together into one. -/
theorem CarriesEach.separated {sep : Tokens}
    (hsep : ∀ {xs ys : Tokens} {ds es : List Datum}, Carries f xs ds → Carries f ys es →
      Carries f (xs ++ sep ++ ys) (ds ++ es)) {tss : List Tokens} {ds : List Datum}
    (h : CarriesEach f tss ds) : Carries f (Tokens.separated sep tss) ds := by
  induction h with
  | nil => exact .nil
  | @cons ts tss ds es h hs ih =>
    cases tss with
    | nil =>
      cases hs
      simpa [Tokens.separated] using h
    | cons us tss =>
      rw [Tokens.separated, List.intercalate_cons_cons]
      exact hsep h ih

theorem CarriesEach.spaced {tss : List Tokens} {ds : List Datum} (h : CarriesEach f tss ds) :
    Carries f (Tokens.spaced tss) ds :=
  h.separated fun hx hy => .between (by decide) hx hy

theorem CarriesEach.listed {tss : List Tokens} {ds : List Datum} (h : CarriesEach f tss ds) :
    Carries f (Tokens.listed tss) ds :=
  h.separated fun hx hy => .between (by decide) hx hy

/-! ## Outcomes -/

theorem Writes.map {o : Outcome Tokens} {ds es : List Datum} {g : Tokens → Tokens}
    (h : Writes f o ds) (hg : ∀ ts, Carries f ts ds → Carries f (g ts) es) :
    Writes f (o.map g) es := by
  intro ts hts
  obtain ⟨us, hus, rfl⟩ := map_eq_ok_iff.mp hts
  exact hg us (h us hus)

theorem writesEach_nil : WritesEach f [] [] := fun tss h => by cases h; exact .nil

theorem WritesEach.cons {o : Outcome Tokens} {os : List (Outcome Tokens)} {ds es : List Datum}
    (h : Writes f o ds) (hs : WritesEach f os es) : WritesEach f (o :: os) (ds ++ es) := by
  intro tss htss
  obtain ⟨ts, hts, htss⟩ := bind_eq_ok_iff.mp htss
  obtain ⟨uss, huss, ht⟩ := bind_eq_ok_iff.mp htss
  cases ht
  exact .cons (h ts hts) (hs uss huss)

/-- Lists are written item by item. -/
theorem writesEach_map {α : Type} {l : List α} {o : α → Outcome Tokens} {data : α → List Datum}
    (h : ∀ a ∈ l, Writes f (o a) (data a)) : WritesEach f (l.map o) (l.map data).flatten := by
  induction l with
  | nil => exact writesEach_nil
  | cons a l ih =>
    obtain ⟨ha, hl⟩ := List.forall_mem_cons.mp h
    exact .cons ha (ih hl)

theorem WritesEach.eq_nil {ds : List Datum} (h : WritesEach f [] ds) : ds = [] := by
  cases h [] rfl
  rfl

theorem WritesEach.singleton {o : Outcome Tokens} {ds : List Datum} (h : WritesEach f [o] ds) :
    Writes f o ds := by
  intro ts hts
  have hw := h [ts] (by rw [hts]; rfl)
  cases hw with
  | cons ht hn =>
    cases hn
    simpa using ht

namespace Site

variable {s : Site}

/-! ## Words, names and literals -/

theorem keyword_carries (hs : s.dialect = f.dialect) (k : Keyword) :
    Carries f [s.keyword k] [] := by
  rw [keyword, hs]
  exact .word (.keyword k)

theorem name_carries (hs : s.dialect = f.dialect) (n : String) :
    Carries f [s.name n] [.name n] := by
  rw [name, hs]
  exact .datum (.name n)

theorem tableName_carries (hs : s.dialect = f.dialect) (t : Table) :
    Carries f (s.tableName t) t.data := by
  unfold tableName Table.data
  cases t.database with
  | none => exact name_carries hs _
  | some database => exact .apart (by decide) (name_carries hs database) (name_carries hs _)

theorem tableName_woven (hs : s.dialect = f.dialect) (t : Table) : Woven f (s.tableName t) [] := by
  rw [← t.texts_data]
  exact (tableName_carries hs t).woven

theorem reference_carries (hs : s.dialect = f.dialect) (t : Table) {written : Token}
    {ds : List Datum} (h : Carries f [written] ds) (called : String) :
    Writes f (s.reference t written called) (s.referenceData t ds) := by
  intro ts hts
  unfold reference at hts
  unfold referenceData
  split at hts
  · cases hts
    split
    · exact .apart (by decide) (tableName_carries hs t) h
    · exact h
  · cases hts

theorem literal_carries (hs : s.dialect = f.dialect) (t : Ty) (v : Value) :
    Writes f (s.literal t v) (v.datum? t).toList := by
  intro ts hts
  cases v with
  | null => cases hts; exact keyword_carries hs _
  | truth b => cases hts; exact keyword_carries hs _
  | number x =>
    rw [literal] at hts
    split at hts
    · cases hts; exact .datum (.number x)
    · cases hts
  | text v =>
    rw [literal, hs] at hts
    rw [Value.datum?]
    cases ht : temporal? t with
    | none =>
      rw [ht] at hts
      cases hts
      exact .datum (.text v)
    | some k =>
      rw [ht] at hts
      cases hts
      exact .datum (.temporal k v)
  | date i =>
    cases i with
    | none => cases hts
    | some i =>
      rw [literal, hs] at hts
      cases hts
      exact .datum (.temporal _ _)

/-! ## Calls -/

theorem operand_carries {ts : Tokens} {ds : List Datum} (h : Carries f ts ds)
    (misread : Rat → Bool) (e : Expr) : Carries f (s.operand misread e ts) ds := by
  unfold operand
  split
  · split
    · exact h.parenthesized
    · exact h
  · exact h

theorem container_carries {a : Argument} {ds : List Datum} (h : Writes f a.outcome ds) :
    Writes f (container a) ds := by
  unfold container
  split
  · exact h
  · exact h
  · exact h.map fun ts ht => ht.parenthesized

theorem spacedWord_carries {w : String} (hw : f.HasWord w) {xs ys : Tokens} {ds es : List Datum}
    (hx : Carries f xs ds) (hy : Carries f ys es) :
    Carries f (xs ++ [Tokens.space, .word w, Tokens.space] ++ ys) (ds ++ es) := by
  have h := Carries.apart (m := " ") (by decide) hx (.apart (m := " ") (by decide) (.word hw) hy)
  simpa [Tokens.space] using h

section

variable {es : List Expr} {o : Expr → Outcome Tokens} {data : Expr → List Datum}

/-- The operand at an index is the argument there. -/
theorem operandAt_carries (h : ∀ e ∈ es, Writes f (o e) (data e)) {function : String} {i : Nat}
    {misread : Rat → Bool} {ts : Tokens}
    (ht : s.operandAt function (es.map fun e => ⟨e, o e⟩) i misread = .ok ts) :
    ∃ e, es[i]? = some e ∧ Carries f ts (data e) := by
  unfold operandAt at ht
  rw [List.getElem?_map] at ht
  cases he : es[i]? with
  | none => rw [he] at ht; cases ht
  | some e =>
    rw [he] at ht
    obtain ⟨us, hus, rfl⟩ := map_eq_ok_iff.mp ht
    exact ⟨e, rfl, operand_carries (h e (List.mem_of_getElem? he) us hus) misread e⟩

theorem containerAt_carries (h : ∀ e ∈ es, Writes f (o e) (data e)) {function : String} {i : Nat}
    {ts : Tokens} (ht : s.containerAt function (es.map fun e => ⟨e, o e⟩) i = .ok ts) :
    ∃ e, es[i]? = some e ∧ Carries f ts (data e) := by
  unfold containerAt at ht
  rw [List.getElem?_map] at ht
  cases he : es[i]? with
  | none => rw [he] at ht; cases ht
  | some e =>
    rw [he] at ht
    exact ⟨e, rfl, container_carries (h e (List.mem_of_getElem? he)) ts ht⟩

theorem gather_outcomes_carries (h : ∀ e ∈ es, Writes f (o e) (data e)) {tss : List Tokens}
    (ht : gather ((es.map fun e => Argument.mk e (o e)).map Argument.outcome) = .ok tss) :
    CarriesEach f tss (es.map data).flatten := by
  rw [List.map_map] at ht
  exact writesEach_map h tss ht

theorem flatten_take_one {e : Expr} (he : es[0]? = some e) :
    ((es.map data).take 1).flatten = data e := by
  cases es with
  | nil => cases he
  | cons a es => cases he; simp

theorem flatten_take_two {a b : Expr} (ha : es[0]? = some a) (hb : es[1]? = some b) :
    ((es.map data).take 2).flatten = data a ++ data b := by
  rcases es with - | ⟨a', - | ⟨b', es⟩⟩
  · cases ha
  · cases hb
  · cases ha; cases hb; simp

/-- A call carries the data of those of its arguments that its rule writes. -/
theorem call_carries (hs : s.dialect = f.dialect) (function : String)
    (h : ∀ e ∈ es, Writes f (o e) (data e)) :
    Writes f (s.call function (es.map fun e => ⟨e, o e⟩))
      ((f.dialect.rule? function).elim [] (Rule.written (es.map data))).flatten := by
  intro ts hts
  obtain ⟨r, hr, hts⟩ := call_eq_ok hts
  rw [hs] at hr
  have hword {w : String} (hw : r.word? = some w) : f.HasWord w := .rule hr hw
  rw [hr]
  cases hts with
  | between hleft hright =>
    obtain ⟨a, ha, hleft⟩ := operandAt_carries h hleft
    obtain ⟨b, hb, hright⟩ := operandAt_carries h hright
    show Carries f _ ((es.map data).take 2).flatten
    rw [flatten_take_two ha hb]
    exact spacedWord_carries (hword rfl) hleft hright
  | before hoperand =>
    obtain ⟨a, ha, hoperand⟩ := operandAt_carries h hoperand
    show Carries f _ ((es.map data).take 1).flatten
    rw [flatten_take_one ha]
    exact .apart (m := " ") (by decide) (.word (hword rfl)) hoperand
  | after hoperand =>
    obtain ⟨a, ha, hoperand⟩ := operandAt_carries h hoperand
    show Carries f _ ((es.map data).take 1).flatten
    rw [flatten_take_one ha, ← List.append_nil (data a)]
    exact .apart (m := " ") (by decide) hoperand (.word (hword rfl))
  | call hparts =>
    exact .enclosed (.word (hword rfl)) (gather_outcomes_carries h hparts).listed
  | membership hleft hright =>
    obtain ⟨a, ha, hleft⟩ := operandAt_carries h hleft
    obtain ⟨b, hb, hright⟩ := containerAt_carries h hright
    show Carries f _ ((es.map data).take 2).flatten
    rw [flatten_take_two ha hb]
    exact spacedWord_carries (hword rfl) hleft hright
  | custom _ =>
    -- the only rule of its own among the dialects at hand counts rows, and writes no argument
    rcases f.isWord_of_rule? hr with ⟨w, hw, -⟩ | ht
    · cases hw
    · cases ht
      exact .apart (m := "(*)") (by decide) (.word f.hasWord_count) .nil

end

/-! ## Clauses -/

theorem introduced_carries (hs : s.dialect = f.dialect) (k : Keyword) {ts : Tokens}
    {ds : List Datum} (h : Carries f ts ds) : Carries f (s.introduced k ts) ds :=
  .apart (m := " ") (by decide) (keyword_carries hs k) h

theorem item_carries (hs : s.dialect = f.dialect) (label : Option String) {ts : Tokens}
    {ds : List Datum} (h : Carries f ts ds) :
    Carries f (s.item label ts) (ds ++ label.toList.map .name) := by
  cases label with
  | none =>
    rw [Option.toList_none, List.map_nil, List.append_nil]
    exact h
  | some n =>
    exact .apart (m := " ") (by decide) h
      (.apart (m := " ") (by decide) (keyword_carries hs _) (name_carries hs n))

theorem assignment_carries (hs : s.dialect = f.dialect) (c : Column) {ts : Tokens}
    {ds : List Datum} (h : Carries f ts ds) : Carries f (s.assignment c ts) (.name c.name :: ds) :=
  .apart (m := " = ") (by decide) (name_carries hs _) h

theorem names_carries (hs : s.dialect = f.dialect) (ns : List String) :
    CarriesEach f (ns.map fun n => [s.name n]) (ns.map .name) := by
  rw [List.map_eq_flatMap (f := Datum.name)]
  exact carriesEach_map fun n => name_carries hs n

theorem clause?_carries (hs : s.dialect = f.dialect) (c : Clause) {o : Option (Outcome Tokens)}
    {ds : List Datum} (h : WritesEach f o.toList ds) {tss : List Tokens}
    (ht : s.clause? c o = .ok tss) : CarriesEach f tss ds := by
  rcases clause?_eq_ok ht with ⟨rfl, rfl⟩ | ⟨us, rfl, rfl⟩
  · exact h.eq_nil ▸ .nil
  · exact .singleton (introduced_carries hs _ (h.singleton us rfl))

theorem listed?_carries (hs : s.dialect = f.dialect) (k : Keyword) {os : List (Outcome Tokens)}
    {ds : List Datum} (h : WritesEach f os ds) {tss : List Tokens}
    (ht : s.listed? k os = .ok tss) : CarriesEach f tss ds := by
  rcases listed?_eq_ok ht with ⟨rfl, rfl⟩ | ⟨uss, hu, rfl⟩
  · exact h [] rfl
  · exact .singleton (introduced_carries hs k (h uss hu).listed)

theorem join_carries (hs : s.dialect = f.dialect) (j : Join) {o : Option (Outcome Tokens)}
    {ds : List Datum} (h : WritesEach f o.toList ds) (hj : j.condition.isSome = o.isSome) :
    Writes f (s.join j o)
      (j.table.data ++ ds ++ if j.condition.isSome then [] else (j.shared.getD []).map .name) := by
  intro ts hts
  have head : Carries f (s.introduced (.join j.kind) (s.tableName j.table)) j.table.data :=
    introduced_carries hs _ (tableName_carries hs _)
  rw [hj]
  cases join_eq_ok hts with
  | cross _ hcondition hshared =>
    obtain rfl : o = none := by
      rw [hcondition] at hj
      simpa using hj.symm
    rw [h.eq_nil, hshared]
    simpa using head
  | condition _ =>
    rw [Option.isSome_some, if_pos rfl, List.append_nil]
    exact .apart (m := " ") (by decide) head (introduced_carries hs _ (h.singleton _ rfl))
  | shared _ hshared =>
    rw [h.eq_nil, hshared, List.append_nil]
    exact .apart (m := " ") (by decide) head
      (introduced_carries hs _ (names_carries hs _).listed.parenthesized)

/-! ## Statements -/

/-- The parts of a statement carry the data listed. -/
structure PartsCarry (f : Flavor) (p : Parts) (d : Data) : Prop where
  projection : WritesEach f p.projection d.projection
  joins : WritesEach f p.joins d.joins
  filter : WritesEach f p.filter.toList d.filter
  grouping : WritesEach f p.grouping d.grouping
  having : WritesEach f p.having.toList d.having
  ordering : WritesEach f p.ordering d.ordering
  rows : WritesEach f
    (p.rows.map fun row => (gather row).map fun ts => (Tokens.listed ts).enclosed) d.rows
  assignments : WritesEach f p.assignments d.assignments

theorem projection_carries (hs : s.dialect = f.dialect) {q : Query} {p : Parts} {ds : List Datum}
    (h : WritesEach f p.projection ds) :
    Writes f (s.projection q p)
      (if q.projection.isEmpty then (if 1 < s.own.length then s.own.flatMap Table.data else [])
        else ds) := by
  intro ts hts
  unfold projection at hts
  split at hts
  · next hempty =>
    rw [if_pos hempty]
    split at hts <;> cases hts
    · next hlength =>
      rw [if_pos hlength]
      refine (carriesEach_map fun t => ?_).listed
      rw [← List.append_nil t.data]
      exact .apart (by decide) (tableName_carries hs t) .nil
    · next hlength =>
      rw [if_neg hlength]
      exact .mark (by decide)
  · next hempty =>
    rw [if_neg hempty]
    obtain ⟨uss, hu, rfl⟩ := map_eq_ok_iff.mp hts
    exact (h uss hu).listed

theorem count_carries (n : Float) : Carries f [count n] [.number n] := .datum (.number n)

theorem front_carries (hs : s.dialect = f.dialect) (q : Query) :
    CarriesEach f (s.front q) (s.frontData q) := by
  unfold front frontData
  cases s.limitsInFront q with
  | false => exact .nil
  | true =>
    cases q.limit with
    | none => exact .nil
    | some n => exact .singleton (introduced_carries hs _ (count_carries n))

theorem paging_carries (hs : s.dialect = f.dialect) (q : Query) :
    CarriesEach f (s.paging q) (s.pagingData q) := by
  have clause (o : Option Float) (k : Keyword) {g : Float → Tokens}
      (hg : ∀ n, Carries f (g n) [.number n]) :
      CarriesEach f (o.toList.map fun n => s.introduced k (g n)) (o.toList.map .number) := by
    cases o with
    | none => exact .nil
    | some n => exact .singleton (introduced_carries hs k (hg n))
  have rows (n : Float) : Carries f [count n, Tokens.space, s.keyword .rows] [.number n] :=
    .apart (m := " ") (by decide) (count_carries n) (keyword_carries hs _)
  have only (n : Float) :
      Carries f [count n, Tokens.space, s.keyword .rows, Tokens.space, s.keyword .only]
        [.number n] :=
    .apart (m := " ") (by decide) (count_carries n)
      (.apart (m := " ") (by decide) (keyword_carries hs _) (keyword_carries hs _))
  have rest (fetch : Keyword) : CarriesEach f
      (if s.limitsInFront q then []
        else (q.offset.toList.map fun n =>
            s.introduced .offset [count n, Tokens.space, s.keyword .rows]) ++
          q.limit.toList.map fun n => s.introduced fetch
            [count n, Tokens.space, s.keyword .rows, Tokens.space, s.keyword .only])
      (if s.limitsInFront q then [] else (q.offset.toList ++ q.limit.toList).map .number) := by
    split
    · exact .nil
    · rw [List.map_append]
      exact (clause _ _ rows).append (clause _ _ only)
  unfold paging pagingData
  cases s.dialect.pagination with
  | limitOffset =>
    rw [List.map_append]
    exact (clause _ _ count_carries).append (clause _ _ count_carries)
  | top => exact rest _
  | fetchFirst => exact rest _

/-- A word that a statement has or not. -/
theorem optional_carries (hs : s.dialect = f.dialect) (k : Keyword) (b : Bool) :
    CarriesEach f (if b then [[s.keyword k]] else []) [] := by
  split
  · exact .singleton (keyword_carries hs k)
  · exact .nil

variable {q : Query} {p : Parts} {d : Data}

/-- The table of a statement is its target. -/
theorem target_carries (hs : s.dialect = f.dialect) {t : Table} (ht : q.table = some t) :
    Carries f (s.tableName t) (q.table.toList.flatMap Table.data) := by
  rw [ht, Option.toList_some, List.flatMap_singleton]
  exact tableName_carries hs t

section

variable {t : Table} {ts : Tokens}

theorem select_carries (hs : s.dialect = f.dialect) (h : PartsCarry f p d)
    (hq : q.command = .statement .select) (ht : q.table = some t)
    (hts : s.LaidOut q p t .select ts) :
    Carries f ts (d.within s q) := by
  cases hts with
  | select hitems hjoins hfilter hgrouping hhaving hordering =>
    have hhead : CarriesEach f [[s.keyword .select]] [] := .singleton (keyword_carries hs _)
    have hitems := projection_carries hs h.projection _ hitems
    have hsource := introduced_carries hs .source (target_carries hs ht)
    have hlist := CarriesEach.cons hitems (.singleton hsource)
    have hall := (((((((hhead.append (optional_carries hs .distinct q.isDistinct)).append
      (front_carries hs q)).append hlist).append (h.joins _ hjoins)).append
      (clause?_carries hs _ h.filter hfilter)).append
        (listed?_carries hs _ h.grouping hgrouping)).append
      (clause?_carries hs _ h.having hhaving)).append (listed?_carries hs _ h.ordering hordering)
    rw [Data.within, hq]
    simpa using (hall.append (paging_carries hs q)).spaced

theorem insert_carries (hs : s.dialect = f.dialect) (h : PartsCarry f p d)
    (hq : q.command = .statement .insert) (ht : q.table = some t)
    (hts : s.LaidOut q p t .insert ts) :
    Carries f ts (d.within s q) := by
  cases hts with
  | insert _ _ hrows =>
    have hcolumns : Carries f
        (Tokens.listed (q.insertColumns.map fun c => [s.name c.name])).enclosed
        (q.insertColumns.map fun c => .name c.name) := by
      have hnames := names_carries hs (q.insertColumns.map Column.name)
      rw [List.map_map, List.map_map] at hnames
      exact hnames.listed.parenthesized
    have hrows := (h.rows _ hrows).listed
    have hall := CarriesEach.cons (introduced_carries hs .insertInto (target_carries hs ht))
      (.cons hcolumns (.cons (keyword_carries hs .values) (.singleton hrows)))
    rw [Data.within, hq]
    simpa using hall.spaced

theorem update_carries (hs : s.dialect = f.dialect) (h : PartsCarry f p d)
    (hq : q.command = .statement .update) (ht : q.table = some t)
    (hts : s.LaidOut q p t .update ts) :
    Carries f ts (d.within s q) := by
  cases hts with
  | update _ hassignments hfilter =>
    have hall := CarriesEach.cons (introduced_carries hs .update (target_carries hs ht))
      (.cons (introduced_carries hs .set (h.assignments _ hassignments).listed)
        (clause?_carries hs _ h.filter hfilter))
    rw [Data.within, hq]
    simpa using hall.spaced

theorem delete_carries (hs : s.dialect = f.dialect) (h : PartsCarry f p d)
    (hq : q.command = .statement .delete) (ht : q.table = some t)
    (hts : s.LaidOut q p t .delete ts) :
    Carries f ts (d.within s q) := by
  cases hts with
  | delete hfilter =>
    rw [Data.within, hq]
    exact (CarriesEach.cons (introduced_carries hs _ (target_carries hs ht))
      (clause?_carries hs _ h.filter hfilter)).spaced

theorem definitions_carries (hs : s.dialect = f.dialect) (cs : List Column) :
    WritesEach f (cs.map s.definition) (cs.map fun c => .name c.name) := by
  have hc : ∀ c ∈ cs, Writes f (s.definition c) [.name c.name] := by
    intro c _ ts hts
    unfold definition at hts
    split at hts
    · cases hts
      rw [hs]
      exact .apart (m := " ") (by decide) (name_carries hs _) (.word (.typeName _))
    · cases hts
  have hall := writesEach_map hc
  rwa [← List.flatMap_def, ← List.map_eq_flatMap] at hall

theorem create_carries (hs : s.dialect = f.dialect) (hq : q.command = .statement .create)
    (ht : q.table = some t) (hts : s.LaidOut q p t .create ts) : Carries f ts (d.within s q) := by
  cases hts with
  | @create definitions _ hdefinitions =>
    have hhead : CarriesEach f [[s.keyword .createTable]] [] := .singleton (keyword_carries hs _)
    have hcolumns : CarriesEach f [(Tokens.listed definitions).enclosed]
        (q.table.toList.flatMap fun t => t.declaredColumns.map fun c => .name c.name) := by
      rw [ht, Option.toList_some, List.flatMap_singleton]
      exact .singleton (definitions_carries hs _ _ hdefinitions).listed.parenthesized
    rw [Data.within, hq]
    exact ((hhead.append (optional_carries hs .ifNotExists q.ifNotExists)).append
      (.cons (target_carries hs ht) hcolumns)).spaced

theorem drop_carries (hs : s.dialect = f.dialect) (hq : q.command = .statement .drop)
    (ht : q.table = some t) (hts : s.LaidOut q p t .drop ts) : Carries f ts (d.within s q) := by
  cases hts
  have hhead : CarriesEach f [[s.keyword .dropTable]] [] := .singleton (keyword_carries hs _)
  rw [Data.within, hq]
  exact ((hhead.append (optional_carries hs .ifExists q.ifExists)).append
    (.singleton (target_carries hs ht))).spaced

end

/-- A statement carries the data of those of its parts that it writes, besides its own. -/
theorem statement_carries (hs : s.dialect = f.dialect) (h : PartsCarry f p d) :
    Writes f (s.statement q p) (d.within s q) := by
  intro ts hts
  obtain ⟨c, t, hq, -, ht, hts⟩ := statement_eq_ok hts
  cases c with
  | select => exact select_carries hs h hq ht hts
  | insert => exact insert_carries hs h hq ht hts
  | update => exact update_carries hs h hq ht hts
  | delete => exact delete_carries hs h hq ht hts
  | create => exact create_carries hs hq ht hts
  | drop => exact drop_carries hs hq ht hts

end Site

end SqlDraft.Sql
