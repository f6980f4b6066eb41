import Mathlib.Data.List.Nodup
import SqlDraft.Dialect.Standard

/-! The dialects at hand from the start as one closed type. `dialect_rule?_name` says how each of
them writes each of the functions that there are, and `exists_name_of_rule?` that they write nothing
else. -/

namespace SqlDraft

namespace Catalog

variable {α : Type}

theorem get?_foldl_insert (l : List (String × α)) (c : Catalog α) (n : String) :
    (l.foldl (fun c e => c.insert e.1 e.2) c).get? n = (l.reverse.lookup n).or (c.get? n) := by
  induction l generalizing c with
  | nil => rfl
  | cons e l ih =>
    rw [List.foldl_cons, ih, get?_insert, List.reverse_cons, List.lookup_append, lookup_cons_eq]
    cases l.reverse.lookup n with
    | some a => rfl
    | none => by_cases h : n = e.1 <;> simp [h]

theorem lookup_eq_some_iff_mem {l : List (String × α)} (h : (l.map Prod.fst).Nodup) {n : String}
    {a : α} : l.lookup n = some a ↔ (n, a) ∈ l := by
  induction l with
  | nil => simp
  | cons e l ih =>
    obtain ⟨hn, hl⟩ := List.nodup_cons.mp h
    rw [lookup_cons_eq, List.mem_cons]
    by_cases he : n = e.1
    · subst he
      have hne : (e.1, a) ∉ l := fun hm => hn (List.mem_map.mpr ⟨_, hm, rfl⟩)
      simp [hne, Prod.ext_iff, eq_comm]
    · rw [if_neg he]
      exact (ih hl).trans ⟨.inr, fun hm => hm.resolve_left fun h => he (congrArg Prod.fst h)⟩

theorem lookup_reverse {l : List (String × α)} (h : (l.map Prod.fst).Nodup) (n : String) :
    l.reverse.lookup n = l.lookup n := by
  have hr : (l.reverse.map Prod.fst).Nodup := by
    rw [List.map_reverse]
    exact List.nodup_reverse.mpr h
  refine Option.ext fun a => ?_
  rw [lookup_eq_some_iff_mem hr, lookup_eq_some_iff_mem h, List.mem_reverse]

/-- Of entries under distinct names each is found. -/
theorem get?_ofList {l : List (String × α)} (h : (l.map Prod.fst).Nodup) (n : String) :
    (ofList l).get? n = l.lookup n := by
  rw [ofList, get?_foldl_insert, get?_empty, Option.or_none, lookup_reverse h]

end Catalog

namespace Builtin

theorem nodup_map_name_all : (all.map name).Nodup := by decide

theorem name_injective {a b : Builtin} (h : a.name = b.name) : a = b :=
  List.inj_on_of_nodup_map nodup_map_name_all (mem_all a) (mem_all b) h

end Builtin

namespace Dialect

/-- The entries that a table of rules makes, one for each function that it has a rule for. -/
def entriesOf (rule : Builtin → Option Rule) (l : List Builtin) : List (String × Rule) :=
  l.filterMap fun b => (rule b).map fun r => (b.name, r)

theorem map_fst_entriesOf_sublist (rule : Builtin → Option Rule) (l : List Builtin) :
    ((entriesOf rule l).map Prod.fst).Sublist (l.map Builtin.name) := by
  induction l with
  | nil => exact .slnil
  | cons b l ih =>
    rw [entriesOf, List.filterMap_cons]
    cases rule b with
    | none => exact ih.cons _
    | some r => exact ih.cons_cons _

theorem generic_rule?_eq_some_iff {n : String} {r : Rule} :
    generic.rule? n = some r ↔ ∃ b : Builtin, b.name = n ∧ genericRule? b = some r := by
  have hn := Builtin.nodup_map_name_all.sublist (map_fst_entriesOf_sublist genericRule? Builtin.all)
  have hget : generic.rule? n = (entriesOf genericRule? Builtin.all).lookup n :=
    (Rules.get?_of_inherited_empty rfl n).trans (Catalog.get?_ofList hn n)
  rw [hget, Catalog.lookup_eq_some_iff_mem hn, entriesOf, List.mem_filterMap]
  constructor
  · rintro ⟨b, -, hb⟩
    obtain ⟨s, hs, he⟩ := Option.map_eq_some_iff.mp hb
    obtain ⟨rfl, rfl⟩ := Prod.mk.inj he
    exact ⟨b, rfl, hs⟩
  · rintro ⟨b, rfl, hb⟩
    exact ⟨b, Builtin.mem_all b, by rw [hb]; rfl⟩

theorem generic_rule?_name (b : Builtin) : generic.rule? b.name = genericRule? b := by
  refine Option.ext fun r => generic_rule?_eq_some_iff.trans ⟨?_, fun h => ⟨b, rfl, h⟩⟩
  rintro ⟨a, ha, hr⟩
  exact Builtin.name_injective ha ▸ hr

/-- Changes to the rules of functions, under their names. -/
def named (l : List (Builtin × Option Rule)) : List (String × Option Rule) :=
  l.map fun e => (e.1.name, e.2)

theorem lookup_named (l : List (Builtin × Option Rule)) (b : Builtin) :
    (named l).lookup b.name = l.lookup b := by
  induction l with
  | nil => rfl
  | cons e l ih =>
    rw [named, List.map_cons, Catalog.lookup_cons_eq, List.lookup_cons]
    by_cases h : b = e.1
    · simp [h]
    · rw [if_neg fun hn => h (Builtin.name_injective hn), beq_eq_false_iff_ne.mpr h]
      exact ih

theorem rule?_extend_named {o : Changes} {l : List (Builtin × Option Rule)}
    (ho : o.functions = .ofList (named l)) (hl : ((named l).map Prod.fst).Nodup) (base : Dialect)
    (hbase : base.functions.inherited = ∅) (n : String) :
    (base.extend o).rule? n = ((named l).lookup n).getD (base.rule? n) := by
  rw [rule?_extend, ho, Catalog.get?_ofList hl, rule?, Rules.get?_of_inherited_empty hbase]

end Dialect

/-- The dialects at hand from the start. -/
inductive Flavor where
  | generic | postgres | mysql | sqlserver
deriving DecidableEq, Repr

namespace Flavor

def all : List Flavor := [generic, postgres, mysql, sqlserver]

theorem mem_all (f : Flavor) : f ∈ all := by cases f <;> decide

def dialect : Flavor → Dialect
  | generic => .generic
  | postgres => .postgres
  | mysql => .mysql
  | sqlserver => .sqlserver

theorem map_dialect_all : all.map dialect = Dialect.standard := rfl

theorem mem_standard_iff {d : Dialect} : d ∈ Dialect.standard ↔ ∃ f : Flavor, f.dialect = d := by
  simp [← map_dialect_all, mem_all]

/-- What a dialect writes in another way than the generic one, or does not write. -/
def changes : Flavor → List (Builtin × Option Rule)
  | generic => []
  | postgres =>
    [(.ilike, some (Dialect.comparing "ilike")), (.connective .xor, some (Dialect.comparing "<>"))]
  | mysql => [(.arithmetic .modulo, some (Dialect.binary "mod" .multiplicative))]
  | sqlserver => [(.connective .xor, none)]

/-- How a function is written, if it is. -/
def rule? (f : Flavor) (b : Builtin) : Option Rule :=
  (f.changes.lookup b).getD (Dialect.genericRule? b)

theorem dialect_rule? (f : Flavor) (n : String) :
    f.dialect.rule? n =
      ((Dialect.named f.changes).lookup n).getD (Dialect.generic.rule? n) := by
  cases f with
  | generic => rfl
  | postgres => exact Dialect.rule?_extend_named rfl (by decide) _ rfl n
  | mysql => exact Dialect.rule?_extend_named rfl (by decide) _ rfl n
  | sqlserver => exact Dialect.rule?_extend_named rfl (by decide) _ rfl n

theorem dialect_rule?_name (f : Flavor) (b : Builtin) : f.dialect.rule? b.name = f.rule? b := by
  rw [dialect_rule?, Dialect.lookup_named, Dialect.generic_rule?_name, rule?]

/-- A dialect writes no functions but those that there are from the start. -/
theorem exists_name_of_rule? (f : Flavor) {n : String} {r : Rule}
    (h : f.dialect.rule? n = some r) : ∃ b : Builtin, b.name = n ∧ f.rule? b = some r := by
  suffices hb : ∃ b : Builtin, b.name = n by
    obtain ⟨b, rfl⟩ := hb
    exact ⟨b, rfl, f.dialect_rule?_name b ▸ h⟩
  rw [dialect_rule?] at h
  cases hl : (Dialect.named f.changes).lookup n with
  | some r =>
    have hn : n ∈ (Dialect.named f.changes).map Prod.fst :=
      Catalog.lookup_isSome_iff.mp (by rw [hl]; rfl)
    rw [Dialect.named, List.map_map] at hn
    obtain ⟨e, -, he⟩ := List.mem_map.mp hn
    exact ⟨e.1, he⟩
  | none =>
    rw [hl] at h
    obtain ⟨b, hb, -⟩ := Dialect.generic_rule?_eq_some_iff.mp h
    exact ⟨b, hb⟩

end Flavor

end SqlDraft
