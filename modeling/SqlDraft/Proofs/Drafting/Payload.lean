import SqlDraft.Proofs.Dialect.Flavor
import SqlDraft.Proofs.Drafting.Method
import SqlDraft.Proofs.Typing.Shape

/-! What an insert and an update come to hold over a run of methods. The columns of an insert are
told by its first row and kept, and each later record is read by their names, whatever the order of
its fields; what is kept of it (`Query.Aligned`) holds after every run (`Query.Filled.aligned`). -/

namespace SqlDraft

open Sql

/-- The value that a record gives under the name: null if it gives none. -/
def Catalog.given (record : Catalog (Option Operand)) (n : String) : Operand :=
  (record.get? n).join.getD (.value .null)

/-- The record with null for whatever it leaves open. -/
def Catalog.filled (record : Catalog (Option Operand)) : Catalog Operand :=
  record.map fun o => o.getD (.value .null)

namespace Query

/-- An insert into the table or an update of it, after some runs of its methods, with the records
that its rows were given as. -/
inductive Filled (t : Table) : List (Catalog (Option Operand)) → Query → Prop
  | insertInto : Filled t [] (.insertInto t)
  | update : Filled t [] (.update t)
  | values {records rows : List (Catalog (Option Operand))} {q r : Query} (hq : Filled t records q)
      (h : q.insertRows (rows.map Catalog.filled) = .ok r) : Filled t (records ++ rows) r
  | assign {records : List (Catalog (Option Operand))}
      {record : Catalog (Option Operand)} {q r : Query}
      (hq : Filled t records q) (h : q.assign record.filled = .ok r) : Filled t records r
  | assignColumn {records : List (Catalog (Option Operand))} {c : Column} {o : Option Operand}
      {q r : Query} (hq : Filled t records q)
      (h : q.assignColumn c (o.getD (.value .null)) = .ok r) :
      Filled t records r
  | restrict {records : List (Catalog (Option Operand))} {link : Link} {a : Criterion} {q r : Query}
      (hq : Filled t records q) (h : q.restrict .filter link a = .ok r) : Filled t records r

/-- The expression is what the operand stands for, and can be stored in the column. -/
structure Stores (m : Method) (c : Column) (o : Operand) (e : Expr) : Prop where
  value : o.toExpr m.name = .ok e
  type : e.type.inner.Agrees c.type.inner

/-- Each row has the value that its record gives under the name of each column, and each value is of
the type of its column. -/
structure Aligned (t : Table) (records : List (Catalog (Option Operand))) (q : Query) : Prop where
  table : q.table = some t
  rows_ne_nil_iff : q.rows ≠ [] ↔ q.insertColumns ≠ []
  column : ∀ c ∈ q.insertColumns, t.column c.name = .ok c
  nodup : (q.insertColumns.map Column.name).Nodup
  rows : List.Forall₂ (fun record => List.Forall₂ (fun c => Stores .values c (record.given c.name))
    q.insertColumns) records q.rows
  assignments : ∀ a ∈ q.assignments, a.column.table = t ∧
    (∃ c, t.column a.column.name = .ok c ∧ a.column.same c = true) ∧
    a.value.type.inner.Agrees a.column.type.inner

end Query

theorem Catalog.getD_get?_filled (record : Catalog (Option Operand)) (n : String) :
    (record.filled.get? n).getD (.value .null) = record.given n := by
  rw [given, filled, get?_map]
  cases record.get? n <;> rfl

/-! ## Columns -/

namespace Column

variable {c d : Column}

theorem exists_kind (h : c.type.isResolved = true) : ∃ k, c.data = .ofKind? k := by
  obtain ⟨b, k, hk⟩ := Ty.isResolved_iff.mp h
  exact ⟨k, (congrArg Ty.inner hk).trans Ty.inner_shaped⟩

theorem same_self (h : c.type.isResolved = true) : c.same c = true := by
  obtain ⟨k, hk⟩ := exists_kind h
  have htype : c.type.same c.type = true := by
    rw [type, hk]
    cases k <;> simp [Ty.ofKind?, Ty.same]
  simp [same, htype]

theorem type_eq_of_same (h : c.same d = true) (hd : d.type.isResolved = true) :
    c.type = d.type := by
  obtain ⟨k, hk⟩ := exists_kind hd
  have hsame : d.data.same c.data = true := by
    simpa [type, Ty.same] using (Bool.and_eq_true_iff.mp h).2
  rw [hk] at hsame
  rw [type, type, hk]
  cases k <;> cases hdata : c.data <;> simp_all [Ty.ofKind?, Ty.same]

end Column

/-- The columns declared have types that values have. -/
def Table.Resolved (t : Table) : Prop := ∀ c ∈ t.declaredColumns, c.type.isResolved = true

theorem Table.resolved_declare {serial : Nat} {name : String} {database : Option String}
    {schema : Option (Catalog Ty)} (h : ∀ s ∈ schema, ∀ e ∈ s.entries, e.2.isResolved = true) :
    (Table.declare serial name database schema).Resolved := by
  intro c hc
  cases schema with
  | none => cases hc
  | some s =>
    obtain ⟨_, hentry, rfl⟩ := List.mem_map.mp hc
    obtain ⟨e, he, rfl⟩ := List.mem_map.mp hentry
    exact Ty.isResolved_collection_inner (h s rfl e he)

theorem Table.Resolved.column {t : Table} (ht : t.Resolved) {n : String} {c : Column}
    (h : t.column n = .ok c) : c.type.isResolved = true := by
  unfold Table.column at h
  split at h
  · cases h
    rfl
  · next columns hcolumns =>
    split at h
    · next data hdata =>
      cases h
      refine ht _ ?_
      rw [declaredColumns, hcolumns]
      exact List.mem_map.mpr ⟨(n, data),
        (Catalog.lookup_eq_some_iff_mem columns.nodup_names).mp hdata, rfl⟩
    · cases h

namespace Query

variable {t : Table} {q r : Query} {records : List (Catalog (Option Operand))}

/-! ## Checked values -/

/-- Values that are checked against columns agree with the data of these. -/
theorem agrees_of_checkTypes {m : Method} {columns : List Column} {values : List Expr} {u : Unit}
    (hcolumns : ∀ c ∈ columns, c.type.isResolved = true) (h : checkTypes m columns values = .ok u) :
    List.Forall₂ (fun c e => e.type.inner.Agrees c.type.inner) columns values := by
  obtain ⟨match', hmatch, -⟩ := map_eq_ok_iff.mp h
  obtain ⟨hlength, fs, hfs, -⟩ := Match.exists_fits_of_run hmatch
  refine List.forall₂_iff_zip.mpr ⟨by simpa using hlength, fun {c e} hmem => ?_⟩
  have hmem' : (Ty.scalarOrColumn c.data, e.type) ∈
      (columns.map fun c => .scalarOrColumn c.data).zip (values.map Expr.type) := by
    rw [List.zip_map]
    exact List.mem_map.mpr ⟨(c, e), hmem, rfl⟩
  obtain ⟨f, -, hf⟩ := List.mem_map.mp (hfs ▸ List.mem_map_of_mem hmem')
  obtain ⟨k, hk⟩ := Column.exists_kind (hcolumns c (List.of_mem_zip hmem).1)
  have hmeets := Ty.fit?_isSome_iff.mp (Option.isSome_of_eq_some hf.symm)
  rw [hk] at hmeets
  rw [Column.type, Ty.inner_collection, hk]
  exact Ty.agrees_of_meets_scalarOrColumn hmeets

/-- Every value of a row is what the record gives under the name of its column. -/
theorem stores_of_rowValues {columns : List Column} {record : Catalog (Option Operand)}
    {values : List Expr} (hcolumns : ∀ c ∈ columns, c.type.isResolved = true)
    (h : rowValues columns record.filled = .ok values) :
    List.Forall₂ (fun c => Stores .values c (record.given c.name)) columns values := by
  obtain ⟨hvalues, htypes⟩ := rowValues_eq_ok_forall₂ h
  refine hvalues.mp (fun c e hvalue htype => ⟨?_, htype⟩) (agrees_of_checkTypes hcolumns htypes)
  rwa [← Catalog.getD_get?_filled]

/-! ## Methods -/

/-- The columns that the first record names are columns of the table under distinct names. -/
theorem columns_of_names {names : List String} {columns : List Column}
    (h : List.Forall₂ (fun n c => t.column n = .ok c) names columns) :
    columns.map Column.name = names ∧ ∀ c ∈ columns, t.column c.name = .ok c := by
  induction h with
  | nil => exact ⟨rfl, List.forall_mem_nil _⟩
  | cons hc _ ih =>
    obtain ⟨-, rfl⟩ := Table.column_table hc
    obtain ⟨rfl, hcolumns⟩ := ih
    exact ⟨rfl, List.forall_mem_cons.mpr ⟨hc, hcolumns⟩⟩

theorem Aligned.insertRows {rows : List (Catalog (Option Operand))} (hq : q.Aligned t records)
    (ht : t.Resolved) (h : q.insertRows (rows.map Catalog.filled) = .ok r) :
    r.Aligned t (records ++ rows) := by
  obtain ⟨-, t', first, rest, columns, built, htable, hrows, hcolumns, hne, hbuilt, rfl⟩ :=
    insertRows_eq_ok_columnsOf h
  obtain rfl := Option.some.inj (hq.table.symm.trans htable)
  -- the rows there are have the same columns, or there are none yet
  obtain ⟨hcolumn, hnodup, hold⟩ : (∀ c ∈ columns, t.column c.name = .ok c) ∧
      (columns.map Column.name).Nodup ∧ List.Forall₂
        (fun record => List.Forall₂ (fun c => Stores .values c (record.given c.name)) columns)
        records q.rows := by
    rcases columnsOf_eq_ok hcolumns with ⟨-, rfl⟩ | ⟨hnil, hnames⟩
    · exact ⟨hq.column, hq.nodup, hq.rows⟩
    · obtain ⟨hnames, hcolumn⟩ := columns_of_names hnames
      have hempty : q.rows = [] := Classical.not_not.mp fun h => hq.rows_ne_nil_iff.mp h hnil
      obtain rfl : records = [] := List.forall₂_nil_right_iff.mp (hempty ▸ hq.rows)
      exact ⟨hcolumn, hnames ▸ first.nodup_names, hempty ▸ .nil⟩
  have hbuilt_ne : built ≠ [] := by
    rintro rfl
    cases hrows.symm.trans (List.forall₂_nil_right_iff.mp hbuilt)
  have hnew := (List.forall₂_map_left_iff.mp hbuilt).imp fun _ _ =>
    stores_of_rowValues fun c hc => ht.column (hcolumn c hc)
  exact { hq with
    column := hcolumn
    nodup := hnodup
    rows := List.rel_append hold hnew
    rows_ne_nil_iff := iff_of_true (List.append_ne_nil_of_right_ne_nil _ hbuilt_ne) hne }

theorem Aligned.addAssignments {pairs : List (Column × Operand)} (hq : q.Aligned t records)
    (ht : t.Resolved) (hpairs : ∀ p ∈ pairs, p.1.table = t ∧
      ∃ c, t.column p.1.name = .ok c ∧ p.1.same c = true)
    (h : q.addAssignments pairs = .ok r) : r.Aligned t records := by
  obtain ⟨-, added, hadded, htypes, rfl⟩ := addAssignments_eq_ok_forall₂ h
  have hcolumn : ∀ a ∈ added, a.column.table = t ∧
      ∃ c, t.column a.column.name = .ok c ∧ a.column.same c = true := fun a ha =>
    let ⟨p, hp, hpa, _⟩ := exists_of_mem_forall₂ hadded ha
    hpa ▸ hpairs p hp
  have hresolved : ∀ c ∈ added.map Assignment.column, c.type.isResolved = true := by
    refine List.forall_mem_map.mpr fun a ha => ?_
    obtain ⟨-, c, hc, hsame⟩ := hcolumn a ha
    rw [Column.type_eq_of_same hsame (ht.column hc)]
    exact ht.column hc
  have hagrees := agrees_of_checkTypes hresolved htypes
  rw [List.forall₂_map_left_iff, List.forall₂_map_right_iff, List.forall₂_same] at hagrees
  exact { hq with
    assignments := List.forall_mem_append.mpr ⟨hq.assignments, fun a ha =>
      ⟨(hcolumn a ha).1, (hcolumn a ha).2, hagrees a ha⟩⟩ }

theorem Aligned.assign {record : Catalog Operand} (hq : q.Aligned t records) (ht : t.Resolved)
    (h : q.assign record = .ok r) : r.Aligned t records := by
  obtain ⟨-, t', pairs, htable, hpairs, h⟩ := assign_eq_ok_addAssignments h
  obtain rfl := Option.some.inj (hq.table.symm.trans htable)
  refine hq.addAssignments ht (fun p hp => ?_) h
  obtain ⟨e, -, hc, -⟩ := exists_of_mem_forall₂ hpairs hp
  obtain ⟨hptable, hpname⟩ := Table.column_table hc
  exact ⟨hptable, p.1, hpname ▸ hc, Column.same_self (ht.column hc)⟩

theorem Aligned.assignColumn {c : Column} {o : Operand} (hq : q.Aligned t records) (ht : t.Resolved)
    (h : q.assignColumn c o = .ok r) : r.Aligned t records := by
  obtain ⟨-, t', d, htable, hctable, hd, hsame, h⟩ := assignColumn_eq_ok_addAssignments h
  obtain rfl := Option.some.inj (hq.table.symm.trans htable)
  exact hq.addAssignments ht (List.forall_mem_singleton.mpr ⟨hctable, d, hd, hsame⟩) h

theorem Aligned.restrict {link : Link} {a : Criterion} (hq : q.Aligned t records)
    (h : q.restrict .filter link a = .ok r) : r.Aligned t records := by
  obtain ⟨-, added, -, hr⟩ := restrict_eq_ok h
  cases hr with
  | having hK => cases hK
  | pairing hK => cases hK
  | filter => exact { hq with }

theorem aligned_of_empty {s : Statement} : (ofStatement s (some t)).Aligned t [] where
  table := rfl
  rows_ne_nil_iff := iff_of_false (fun h => h rfl) fun h => h rfl
  column := List.forall_mem_nil _
  nodup := .nil
  rows := .nil
  assignments := List.forall_mem_nil _

/-- Whatever runs of its methods have made of an insert or an update keeps the records aligned. -/
theorem Filled.aligned (ht : t.Resolved) (h : Filled t records q) : q.Aligned t records := by
  induction h with
  | insertInto => exact aligned_of_empty
  | update => exact aligned_of_empty
  | values _ h ih => exact ih.insertRows ht h
  | assign _ h ih => exact ih.assign ht h
  | assignColumn _ h ih => exact ih.assignColumn ht h
  | restrict _ h ih => exact ih.restrict h

/-- The second record is written the other way round and leaves the name open. -/
theorem Filled.aligned_pets :
    let pets := Table.declare 0 "pets" none
      (some ⟨[("name", .concrete .string), ("tame", .collection (.concrete .boolean))], by decide⟩)
    let first : Catalog (Option Operand) :=
      ⟨[("tame", some (.value (.truth true))), ("name", some (.value (.text "Rex")))], by decide⟩
    let second : Catalog (Option Operand) :=
      ⟨[("name", none), ("tame", some (.value (.truth false)))], by decide⟩
    pets.Resolved ∧ ∃ q, Filled pets [first, second] q ∧ q.Aligned pets [first, second] ∧
      q.rows = [[.literal (.truth true) (.concrete .boolean),
        .literal (.text "Rex") (.concrete .string)],
        [.literal (.truth false) (.concrete .boolean), .literal .null .any]] := by
  intro pets first second
  have ht : pets.Resolved := Table.resolved_declare (by decide)
  have hfirst : Filled pets ([] ++ [first]) _ := .values .insertInto rfl
  have hsecond : Filled pets ([first] ++ [second]) _ := .values hfirst rfl
  exact ⟨ht, _, hsecond, hsecond.aligned ht, rfl⟩

end Query

end SqlDraft
