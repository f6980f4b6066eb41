/-! Entries under distinct names, in the order in which the names first arrived. Replacing an entry
keeps its place. The small lemmas say what each operation does to the names and to look-up. -/

namespace SqlDraft

structure Catalog (α : Type) where
  entries : List (String × α)
  nodup : (entries.map Prod.fst).Nodup
deriving DecidableEq

namespace Catalog

variable {α β : Type}

def empty : Catalog α := ⟨[], List.nodup_nil⟩

instance : EmptyCollection (Catalog α) := ⟨empty⟩

instance : Inhabited (Catalog α) := ⟨empty⟩

def names (c : Catalog α) : List String := c.entries.map Prod.fst

def isEmpty (c : Catalog α) : Bool := c.entries.isEmpty

instance : Membership String (Catalog α) := ⟨fun c n => n ∈ c.names⟩

instance (n : String) (c : Catalog α) : Decidable (n ∈ c) :=
  inferInstanceAs (Decidable (n ∈ c.names))

def get? (c : Catalog α) (n : String) : Option α := c.entries.lookup n

/-- The entries with the one under `n` replaced, or with a new one at the end. -/
def insertEntry (n : String) (a : α) : List (String × α) → List (String × α)
  | [] => [(n, a)]
  | (m, b) :: rest => if m = n then (n, a) :: rest else (m, b) :: insertEntry n a rest

theorem map_fst_insertEntry (n : String) (a : α) (l : List (String × α)) :
    (insertEntry n a l).map Prod.fst =
      if n ∈ l.map Prod.fst then l.map Prod.fst else l.map Prod.fst ++ [n] := by
  induction l with
  | nil => rfl
  | cons e rest ih =>
    obtain ⟨m, b⟩ := e
    by_cases h : m = n
    · simp [insertEntry, h]
    · have h' : n ≠ m := fun e => h e.symm
      simp only [insertEntry, h, if_false, List.map_cons, ih, List.mem_cons, h', false_or]
      split <;> simp

def insert (c : Catalog α) (n : String) (a : α) : Catalog α where
  entries := insertEntry n a c.entries
  nodup := by
    rw [map_fst_insertEntry]
    split
    · exact c.nodup
    · next h =>
      rw [List.nodup_append]
      exact ⟨c.nodup, by simp, by intro x hx y hy e; simp at hy; exact h (hy ▸ e ▸ hx)⟩

def erase (c : Catalog α) (n : String) : Catalog α where
  entries := c.entries.filter fun e => e.1 ≠ n
  nodup := c.nodup.sublist (List.filter_sublist.map _)

/-- Later entries win, earlier ones keep the place. -/
def ofList (l : List (String × α)) : Catalog α := l.foldl (fun c e => c.insert e.1 e.2) ∅

def map (f : α → β) (c : Catalog α) : Catalog β where
  entries := c.entries.map fun e => (e.1, f e.2)
  nodup := by simpa [List.map_map, Function.comp_def] using c.nodup

def values (c : Catalog α) : List α := c.entries.map Prod.snd

/-! ## Names -/

theorem mem_iff {n : String} {c : Catalog α} : n ∈ c ↔ n ∈ c.names := Iff.rfl

theorem names_insert (c : Catalog α) (n : String) (a : α) :
    (c.insert n a).names = if n ∈ c then c.names else c.names ++ [n] :=
  map_fst_insertEntry n a c.entries

theorem nodup_names (c : Catalog α) : c.names.Nodup := c.nodup

/-! ## Look-up -/

@[simp] theorem get?_empty (n : String) : (∅ : Catalog α).get? n = none := rfl

theorem lookup_cons_eq (n m : String) (a : α) (l : List (String × α)) :
    ((n, a) :: l).lookup m = if m = n then some a else l.lookup m := by
  by_cases h : m = n
  · simp [h]
  · have hb : (m == n) = false := by simpa using h
    simp [List.lookup_cons, h, hb]

theorem lookup_insertEntry (n m : String) (a : α) (l : List (String × α)) :
    (insertEntry n a l).lookup m = if m = n then some a else l.lookup m := by
  induction l with
  | nil => simp [insertEntry, lookup_cons_eq]
  | cons e rest ih =>
    obtain ⟨k, b⟩ := e
    by_cases hk : k = n
    · subst hk
      simp only [insertEntry, if_true, lookup_cons_eq]
      split <;> rfl
    · simp only [insertEntry, hk, if_false, lookup_cons_eq, ih]
      by_cases hm : m = k
      · simp [hm, hk]
      · simp [hm]

theorem get?_insert (c : Catalog α) (n m : String) (a : α) :
    (c.insert n a).get? m = if m = n then some a else c.get? m :=
  lookup_insertEntry n m a c.entries

theorem lookup_filter_ne (n m : String) (l : List (String × α)) :
    (l.filter fun e => e.1 ≠ n).lookup m = if m = n then none else l.lookup m := by
  induction l with
  | nil => simp
  | cons e rest ih =>
    obtain ⟨k, b⟩ := e
    by_cases hk : k = n
    · subst hk
      simp only [ne_eq, not_true_eq_false, decide_false, Bool.false_eq_true, not_false_eq_true,
        List.filter_cons_of_neg, lookup_cons_eq] at ih ⊢
      rw [ih]
      by_cases hm : m = k <;> simp [hm]
    · simp only [ne_eq, hk, not_false_eq_true, decide_true, List.filter_cons_of_pos,
        lookup_cons_eq] at ih ⊢
      rw [ih]
      by_cases hm : m = k
      · simp [hm, hk]
      · simp [hm]

theorem get?_erase (c : Catalog α) (n m : String) :
    (c.erase n).get? m = if m = n then none else c.get? m :=
  lookup_filter_ne n m c.entries

theorem get?_map (f : α → β) (c : Catalog α) (n : String) :
    (c.map f).get? n = (c.get? n).map f := by
  simp only [get?, map]
  induction c.entries with
  | nil => rfl
  | cons e rest ih =>
    obtain ⟨k, b⟩ := e
    simp only [List.map_cons, lookup_cons_eq, ih]
    split <;> rfl

theorem lookup_isSome_iff {n : String} {l : List (String × α)} :
    (l.lookup n).isSome ↔ n ∈ l.map Prod.fst := by
  induction l with
  | nil => simp
  | cons e rest ih =>
    obtain ⟨k, b⟩ := e
    simp only [lookup_cons_eq, List.map_cons, List.mem_cons]
    by_cases h : n = k <;> simp [h, ih]

theorem get?_isSome_iff {c : Catalog α} {n : String} : (c.get? n).isSome ↔ n ∈ c :=
  lookup_isSome_iff

end Catalog

end SqlDraft
