import SqlDraft.Proofs.Tree.Texts
import SqlDraft.Proofs.Tree.Induction

/-! What a statement carries besides the words of the language: the names, the texts, the days and
times, and the numbers of its query, listed in the order in which a dialect writes them
(`Query.data`). The texts of string literals are those among the data (`Query.texts_data`). -/

namespace SqlDraft

open Sql

inductive Datum where
  | name (n : String)
  | text (v : String)
  | temporal (t : Temporal) (v : String)
  | number (x : Float)

namespace Datum

/-- What a dialect writes for it. -/
def token (d : Dialect) : Datum → Token
  | name n => .name (d.quoting.write n)
  | text v => .literal (d.literals.string v)
  | temporal t v => .literal (d.literals.temporal t v)
  | number x => .number (Decimal.text x)

/-- The text of the string literal that it is written as, if it is. -/
def text? : Datum → Option String
  | text v | temporal _ v => some v
  | _ => none

end Datum

/-- What a value of the type carries. The others are written as keywords, if they are. -/
def Value.datum? (type : Ty) : Value → Option Datum
  | number x => some (.number x)
  | text v => some (((Site.temporal? type).map fun t => .temporal t v).getD (.text v))
  | date (some i) =>
    let t := (Site.temporal? type).getD .datetime
    some (.temporal t (String.ofList (i.textAs t)))
  | _ => none

def Table.data (t : Table) : List Datum := (t.database.toList ++ [t.name]).map .name

namespace Sql.Site

/-- What a reference to the table carries, given what it does without the table. -/
def referenceData (s : Site) (t : Table) (called : List Datum) : List Datum :=
  if s.qualifies t then t.data ++ called else called

/-- The number of rows where it stands in front. -/
def frontData (s : Site) (q : Query) : List Datum :=
  if s.limitsInFront q then q.limit.toList.map .number else []

/-- The numbers of rows at the end. -/
def pagingData (s : Site) (q : Query) : List Datum :=
  match s.dialect.pagination with
  | .limitOffset => (q.limit.toList ++ q.offset.toList).map .number
  | _ => if s.limitsInFront q then [] else (q.offset.toList ++ q.limit.toList).map .number

end Sql.Site

/-- The data in each part of a query. -/
structure Data where
  projection : List Datum
  joins : List Datum
  filter : List Datum
  grouping : List Datum
  having : List Datum
  ordering : List Datum
  rows : List Datum
  assignments : List Datum

/-- The data that a statement writes, at a site of its own. -/
def Data.within (p : Data) (s : Site) (q : Query) : List Datum :=
  let target := q.table.toList.flatMap Table.data
  match q.command with
  | .statement .select =>
    let every := if 1 < s.own.length then s.own.flatMap Table.data else []
    s.frontData q ++ (if q.projection.isEmpty then every else p.projection) ++ target ++ p.joins ++
      p.filter ++ p.grouping ++ p.having ++ p.ordering ++ s.pagingData q
  | .statement .insert => target ++ (q.insertColumns.map fun c => .name c.name) ++ p.rows
  | .statement .update => target ++ p.assignments ++ p.filter
  | .statement .delete => target ++ p.filter
  | .statement .create =>
    target ++ q.table.toList.flatMap fun t => t.declaredColumns.map fun c => .name c.name
  | .statement .drop => target
  | .scope _ => []

mutual

def Expr.data (s : Site) : Expr → List Datum
  | .column c => s.referenceData c.table [.name c.name]
  | .star t => s.referenceData t []
  | .call head args =>
    ((s.dialect.rule? head.function).elim [] (Rule.written (Expr.dataEach s args))).flatten
  | .literal v t => (v.datum? t).toList
  | .list vs t => vs.filterMap (Value.datum? t)
  | .subquery q => q.data s.dialect (s.own ++ s.outer)

def Expr.dataEach (s : Site) : List Expr → List (List Datum)
  | [] => []
  | e :: es => e.data s :: Expr.dataEach s es

def Expr.dataRows (s : Site) : List (List Expr) → List (List (List Datum))
  | [] => []
  | es :: rest => Expr.dataEach s es :: Expr.dataRows s rest

def Cond.data (s : Site) : Cond → List Datum
  | .predicate e => e.data s
  | .joined _ cs => (Cond.dataEach s cs).flatten
  | .group c => c.data s

def Cond.dataEach (s : Site) : List Cond → List (List Datum)
  | [] => []
  | c :: cs => c.data s :: Cond.dataEach s cs

def Cond.data? (s : Site) : Option Cond → List Datum
  | none => []
  | some c => c.data s

def Item.data (s : Site) : Item → List Datum
  | ⟨e, label⟩ => e.data s ++ label.toList.map .name

def Item.dataEach (s : Site) : List Item → List (List Datum)
  | [] => []
  | i :: rest => i.data s :: Item.dataEach s rest

def Join.data (s : Site) : Join → List Datum
  | ⟨_, table, condition, shared⟩ =>
    table.data ++ Cond.data? s condition ++
      if condition.isSome then [] else (shared.getD []).map .name

def Join.dataEach (s : Site) : List Join → List (List Datum)
  | [] => []
  | j :: rest => j.data s :: Join.dataEach s rest

def Assignment.data (s : Site) : Assignment → List Datum
  | ⟨c, e⟩ => .name c.name :: e.data s

def Assignment.dataEach (s : Site) : List Assignment → List (List Datum)
  | [] => []
  | a :: rest => a.data s :: Assignment.dataEach s rest

/-- What a query carries, in the order in which the dialect writes it within statements that have
the outer tables. -/
def Query.data (d : Dialect) (outer : List Table) : Query → List Datum
  | ⟨command, table, isDistinct, projection, joins, filter, grouping, having, ordering, limit,
      offset, insertColumns, rows, assignments, ifExists, ifNotExists⟩ =>
    let q : Query := ⟨command, table, isDistinct, projection, joins, filter, grouping, having,
      ordering, limit, offset, insertColumns, rows, assignments, ifExists, ifNotExists⟩
    let s : Site := ⟨d, q.ownTables, outer⟩
    Data.within
      { projection := (Item.dataEach s projection).flatten
        joins := (Join.dataEach s joins).flatten
        filter := Cond.data? s filter
        grouping := (Expr.dataEach s grouping).flatten
        having := Cond.data? s having
        ordering := (Expr.dataEach s ordering).flatten
        rows := (Expr.dataRows s rows).flatten.flatten
        assignments := (Assignment.dataEach s assignments).flatten } s q

end

/-- The data in each part of a query, those of an item after those of the item before. -/
def Query.dataParts (q : Query) (s : Site) : Data where
  projection := (Item.dataEach s q.projection).flatten
  joins := (Join.dataEach s q.joins).flatten
  filter := Cond.data? s q.filter
  grouping := (Expr.dataEach s q.grouping).flatten
  having := Cond.data? s q.having
  ordering := (Expr.dataEach s q.ordering).flatten
  rows := (Expr.dataRows s q.rows).flatten.flatten
  assignments := (Assignment.dataEach s q.assignments).flatten

theorem Query.data_eq (q : Query) (d : Dialect) (outer : List Table) :
    q.data d outer = (q.dataParts (q.site d outer)).within (q.site d outer) q := by
  cases q
  rw [Query.data]
  rfl

theorem Expr.dataEach_eq_map (s : Site) (es : List Expr) :
    Expr.dataEach s es = es.map fun e => e.data s := by
  induction es with
  | nil => rfl
  | cons e es ih => rw [Expr.dataEach, ih, List.map_cons]

theorem Expr.dataRows_eq_map (s : Site) (rows : List (List Expr)) :
    Expr.dataRows s rows = rows.map fun es => es.map fun e => e.data s := by
  induction rows with
  | nil => rfl
  | cons es rows ih => rw [Expr.dataRows, ih, Expr.dataEach_eq_map, List.map_cons]

theorem Cond.dataEach_eq_map (s : Site) (cs : List Cond) :
    Cond.dataEach s cs = cs.map fun c => c.data s := by
  induction cs with
  | nil => rfl
  | cons c cs ih => rw [Cond.dataEach, ih, List.map_cons]

theorem Item.dataEach_eq_map (s : Site) (items : List Item) :
    Item.dataEach s items = items.map fun i => i.data s := by
  induction items with
  | nil => rfl
  | cons i items ih => rw [Item.dataEach, ih, List.map_cons]

theorem Join.dataEach_eq_map (s : Site) (joins : List Join) :
    Join.dataEach s joins = joins.map fun j => j.data s := by
  induction joins with
  | nil => rfl
  | cons j joins ih => rw [Join.dataEach, ih, List.map_cons]

theorem Assignment.dataEach_eq_map (s : Site) (assignments : List Assignment) :
    Assignment.dataEach s assignments = assignments.map fun a => a.data s := by
  induction assignments with
  | nil => rfl
  | cons a assignments ih => rw [Assignment.dataEach, ih, List.map_cons]

/-! ## The texts among the data -/

namespace Datum

/-- The texts of the string literals among the data. -/
def texts (ds : List Datum) : List String := ds.filterMap text?

theorem texts_append (ds es : List Datum) : texts (ds ++ es) = texts ds ++ texts es :=
  List.filterMap_append

theorem texts_flatten (dss : List (List Datum)) : texts dss.flatten = (dss.map texts).flatten :=
  List.filterMap_flatten

theorem texts_map_name {α : Type} (l : List α) (n : α → String) :
    texts (l.map fun a => .name (n a)) = [] := by
  rw [texts, List.filterMap_map]
  exact List.filterMap_eq_nil_iff.mpr fun _ _ => rfl

theorem texts_map_number (l : List Float) : texts (l.map .number) = [] := by
  rw [texts, List.filterMap_map]
  exact List.filterMap_eq_nil_iff.mpr fun _ _ => rfl

theorem texts_flatMap_nil {α : Type} {l : List α} {g : α → List Datum} (h : ∀ a, texts (g a) = []) :
    texts (l.flatMap g) = [] := by
  rw [List.flatMap_def, texts_flatten, List.map_map]
  simp [Function.comp_def, h]

end Datum

theorem Table.texts_data (t : Table) : Datum.texts t.data = [] := Datum.texts_map_name _ id

theorem Value.text?_datum? (t : Ty) (v : Value) : (v.datum? t).bind Datum.text? = v.text? t := by
  cases v with
  | text v =>
    show (some _).bind _ = some v
    cases Site.temporal? t <;> rfl
  | date i => cases i <;> rfl
  | _ => rfl

/-- The texts in each part. -/
def Data.texts (p : Data) : Texts where
  projection := Datum.texts p.projection
  joins := Datum.texts p.joins
  filter := Datum.texts p.filter
  grouping := Datum.texts p.grouping
  having := Datum.texts p.having
  ordering := Datum.texts p.ordering
  rows := Datum.texts p.rows
  assignments := Datum.texts p.assignments

theorem Data.texts_within {p : Data} {s : Site} {q : Query}
    (h : q.projection.isEmpty = true → p.projection = []) :
    Datum.texts (p.within s q) = p.texts.within q.command := by
  -- tables, columns and numbers of rows have no texts, so those of the parts are all
  have htables (l : List Table) : Datum.texts (l.flatMap Table.data) = [] :=
    Datum.texts_flatMap_nil Table.texts_data
  have hfront : Datum.texts (s.frontData q) = [] := by
    unfold Site.frontData
    split
    · exact Datum.texts_map_number _
    · rfl
  have hpaging : Datum.texts (s.pagingData q) = [] := by
    unfold Site.pagingData
    split
    · exact Datum.texts_map_number _
    · split
      · rfl
      · exact Datum.texts_map_number _
  have hprojection : Datum.texts (if q.projection.isEmpty then
      (if 1 < s.own.length then s.own.flatMap Table.data else []) else p.projection) =
        Datum.texts p.projection := by
    split
    · next hempty =>
      rw [h hempty]
      split
      · exact htables _
      · rfl
    · rfl
  have hcolumns (cs : List Column) : Datum.texts (cs.map fun c => .name c.name) = [] :=
    Datum.texts_map_name _ _
  unfold within
  cases q.command with
  | scope c => rfl
  | statement c =>
    cases c with
    | select =>
      simp only [Datum.texts_append, hfront, hprojection, htables, hpaging, List.nil_append,
        List.append_nil]
      rfl
    | insert =>
      simp only [Datum.texts_append, htables, hcolumns, List.nil_append]
      rfl
    | update =>
      simp only [Datum.texts_append, htables, List.nil_append]
      rfl
    | delete =>
      simp only [Datum.texts_append, htables, List.nil_append]
      rfl
    | create =>
      simp only [Datum.texts_append, htables, List.nil_append]
      exact Datum.texts_flatMap_nil fun t => hcolumns _
    | drop => exact htables _

/-- The expression has the same texts as among its data, wherever it is written in the dialect. -/
def Expr.Agrees (d : Dialect) (e : Expr) : Prop :=
  ∀ s : Site, s.dialect = d → Datum.texts (e.data s) = e.texts d

def Cond.Agrees (d : Dialect) (c : Cond) : Prop :=
  ∀ s : Site, s.dialect = d → Datum.texts (c.data s) = c.texts d

theorem Datum.texts_flatten_map {α : Type} {l : List α} {g : α → List Datum} {g' : α → List String}
    (h : ∀ a ∈ l, texts (g a) = g' a) : texts (l.map g).flatten = (l.map g').flatten := by
  rw [texts_flatten, List.map_map]
  exact congrArg List.flatten (List.map_congr_left h)

theorem Cond.texts_data? {d : Dialect} {c : Option Cond} (h : ∀ k ∈ c, k.Agrees d) {s : Site}
    (hs : s.dialect = d) : Datum.texts (Cond.data? s c) = Cond.texts? d c := by
  cases c with
  | none => rfl
  | some c => exact h c rfl s hs

theorem Expr.texts_dataEach {d : Dialect} {es : List Expr} (h : ∀ e ∈ es, e.Agrees d) {s : Site}
    (hs : s.dialect = d) :
    Datum.texts (Expr.dataEach s es).flatten = (Expr.textsEach d es).flatten := by
  rw [dataEach_eq_map, textsEach_eq_map]
  exact Datum.texts_flatten_map fun e he => h e he s hs

/-- The texts in the parts of a query are those among the data in them. -/
theorem Query.texts_dataParts {d : Dialect} {q : Query}
    (h : Tree.Holds (Expr.Agrees d) (Cond.Agrees d) q)
    {s : Site} (hs : s.dialect = d) : (q.dataParts s).texts = q.textParts d := by
  have projection : Datum.texts (Item.dataEach s q.projection).flatten =
      (Item.textsEach d q.projection).flatten := by
    rw [Item.dataEach_eq_map, Item.textsEach_eq_map]
    refine Datum.texts_flatten_map fun i hi => ?_
    obtain ⟨e, label⟩ := i
    rw [Item.data, Item.texts, Datum.texts_append, h.projection _ hi s hs]
    exact (congrArg _ (Datum.texts_map_name _ id)).trans (List.append_nil _)
  have joins : Datum.texts (Join.dataEach s q.joins).flatten =
      (Join.textsEach d q.joins).flatten := by
    rw [Join.dataEach_eq_map, Join.textsEach_eq_map]
    refine Datum.texts_flatten_map fun j hj => ?_
    obtain ⟨kind, t, condition, shared⟩ := j
    have hshared : Datum.texts
        (if condition.isSome then [] else (shared.getD []).map .name) = [] := by
      split
      · rfl
      · exact Datum.texts_map_name _ id
    rw [Join.data, Join.texts, Datum.texts_append, Datum.texts_append, t.texts_data, hshared,
      List.nil_append, List.append_nil]
    exact Cond.texts_data? (h.joins _ hj) hs
  have rows : Datum.texts (Expr.dataRows s q.rows).flatten.flatten =
      (Expr.textsRows d q.rows).flatten.flatten := by
    rw [Expr.dataRows_eq_map, Expr.textsRows_eq_map, List.flatten_flatten, List.flatten_flatten,
      List.map_map, List.map_map]
    exact Datum.texts_flatten_map fun row hrow =>
      Datum.texts_flatten_map fun e he => h.rows row hrow e he s hs
  have assignments : Datum.texts (Assignment.dataEach s q.assignments).flatten =
      (Assignment.textsEach d q.assignments).flatten := by
    rw [Assignment.dataEach_eq_map, Assignment.textsEach_eq_map]
    refine Datum.texts_flatten_map fun a ha => ?_
    obtain ⟨c, e⟩ := a
    rw [Assignment.data, Assignment.texts, ← h.assignments _ ha s hs]
    rfl
  rw [dataParts, Data.texts, textParts, projection, joins, Cond.texts_data? h.filter hs,
    Expr.texts_dataEach h.grouping hs, Cond.texts_data? h.having hs,
    Expr.texts_dataEach h.ordering hs, rows, assignments]

theorem texts_data_steps (d : Dialect) : Tree.Steps (Expr.Agrees d) (Cond.Agrees d)
    (fun q => ∀ outer, Datum.texts (q.data d outer) = q.texts d) where
  column c s hs := by
    rw [Expr.data, Expr.texts, Site.referenceData]
    split
    · rw [Datum.texts_append, c.table.texts_data]
      rfl
    · rfl
  star t s hs := by
    rw [Expr.data, Expr.texts, Site.referenceData]
    split
    · rw [Datum.texts_append, t.texts_data]
      rfl
    · rfl
  literal v t s hs := by
    rw [Expr.data, Expr.texts, ← Value.text?_datum?]
    cases v.datum? t <;> rfl
  list vs t s hs := by
    rw [Expr.data, Expr.texts, Datum.texts, List.filterMap_filterMap]
    exact congrArg (vs.filterMap ·) (funext fun v => v.text?_datum? t)
  call head args ih s hs := by
    rw [Expr.data, Expr.texts, Expr.dataEach_eq_map, Expr.textsEach_eq_map, hs]
    cases d.rule? head.function with
    | none => rfl
    | some r =>
      show Datum.texts (r.written _).flatten = (r.written _).flatten
      rw [Datum.texts_flatten, r.map_written, List.map_map]
      exact congrArg (fun l => (r.written l).flatten)
        (List.map_congr_left fun e he => ih e he s hs)
  subquery q ih s hs := by
    rw [Expr.data, Expr.texts, hs]
    exact ih _
  predicate e ih s hs := by
    rw [Cond.data, Cond.texts]
    exact ih s hs
  joined j cs ih s hs := by
    rw [Cond.data, Cond.texts, Cond.dataEach_eq_map, Cond.textsEach_eq_map]
    exact Datum.texts_flatten_map fun c hc => ih c hc s hs
  group c ih s hs := by
    rw [Cond.data, Cond.texts]
    exact ih s hs
  query q ih outer := by
    have hempty : q.projection.isEmpty = true → (q.dataParts (q.site d outer)).projection = [] := by
      intro h
      rw [List.isEmpty_iff] at h
      rw [Query.dataParts, h]
      rfl
    rw [Query.data_eq, Query.texts_eq, Data.texts_within hempty, Query.texts_dataParts ih rfl]

/-- What the string literals of a query say is among its data. -/
theorem Query.texts_data (q : Query) (d : Dialect) (outer : List Table) :
    Datum.texts (q.data d outer) = q.texts d := (texts_data_steps d).whole q outer

end SqlDraft
