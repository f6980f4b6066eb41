import SqlDraft.Fault
import SqlDraft.Registry

/-! The journal of a registry: what has been registered in it, oldest first. A registry follows its
journal (`Registry.Follows`) when it holds the definition registered last under each name, lists the
names in the order in which they were first registered, and remembers each registration under a name
that was there. Whatever is asked of a registry is answered from its journal, if every single
request is (`Registry.Follows.keeps`). -/

namespace SqlDraft

/-- Definitions as they were registered under their names, oldest first. -/
abbrev Journal (α : Type) := List (String × α)

namespace Journal

variable {α : Type}

/-- The definition registered last under the name. -/
def latest (j : Journal α) (n : String) : Option α := j.reverse.lookup n

/-- The names, each where it was registered first. -/
def names (j : Journal α) : List String := (j.map Prod.fst).eraseDups

/-- The names that are among those seen or have come up before, once for each time. -/
def recurring (seen : List String) : List String → List String
  | [] => []
  | n :: ns => if n ∈ seen then n :: recurring seen ns else recurring (n :: seen) ns

/-- The names registered anew, once for each time. -/
def renewed (j : Journal α) : List String := recurring [] (j.map Prod.fst)

theorem latest_concat (j : Journal α) (n : String) (a : α) (m : String) :
    latest (j ++ [(n, a)]) m = if m = n then some a else latest j m := by
  rw [latest, List.reverse_concat, Catalog.lookup_cons_eq, latest]

theorem mem_names {j : Journal α} {n : String} : n ∈ j.names ↔ n ∈ j.map Prod.fst :=
  List.mem_eraseDups

theorem names_concat (j : Journal α) (n : String) (a : α) :
    names (j ++ [(n, a)]) = if n ∈ names j then names j else names j ++ [n] := by
  have hnew : names (j ++ [(n, a)]) = names j ++ ([n].removeAll (j.map Prod.fst)).eraseDups := by
    rw [names, List.map_append, List.eraseDups_append]
    rfl
  simp only [hnew, mem_names]
  split
  · next h => simp [List.removeAll, List.mem_map.mp h]
  · next h => simp [List.removeAll, List.eraseDups_cons, mt List.mem_map.mpr h]

theorem recurring_concat (seen ns : List String) (n : String) :
    recurring seen (ns ++ [n]) = recurring seen ns ++ if n ∈ seen ∨ n ∈ ns then [n] else [] := by
  induction ns generalizing seen with
  | nil => simp [recurring]
  | cons m ns ih =>
    rw [List.cons_append, recurring, recurring, ih, ih]
    by_cases hm : m ∈ seen
    · have hiff : n ∈ seen ∨ n ∈ m :: ns ↔ n ∈ seen ∨ n ∈ ns := by
        by_cases hn : n = m <;> simp [hn, hm]
      simp only [hm, hiff, if_true, List.cons_append]
    · have hiff : n ∈ seen ∨ n ∈ m :: ns ↔ n ∈ m :: seen ∨ n ∈ ns := by
        rw [List.mem_cons, List.mem_cons, or_assoc, or_left_comm]
      simp only [hm, hiff, if_false]

theorem renewed_concat (j : Journal α) (n : String) (a : α) :
    renewed (j ++ [(n, a)]) = if n ∈ names j then renewed j ++ [n] else renewed j := by
  have hnew : renewed (j ++ [(n, a)]) = renewed j ++ if n ∈ j.map Prod.fst then [n] else [] := by
    rw [renewed, List.map_append, List.map_singleton, recurring_concat]
    simp only [List.not_mem_nil, false_or, renewed]
  simp only [hnew, mem_names]
  split
  · rfl
  · rw [List.append_nil]

end Journal

namespace Registry

variable {α Q : Type} {r : Registry α} {j : Journal α}

/-! ## Following a journal -/

/-- The registry is what the registrations come to. -/
structure Follows (r : Registry α) (j : Journal α) : Prop where
  get? : ∀ n, r.entries.get? n = j.latest n
  names : r.names = j.names
  replaced : r.replaced = j.renewed

theorem Follows.empty : Follows (∅ : Registry α) [] := ⟨fun _ => rfl, rfl, rfl⟩

theorem Follows.mem_iff (h : r.Follows j) {n : String} : n ∈ r.entries ↔ n ∈ j.names := by
  rw [Catalog.mem_iff, ← h.names]
  rfl

/-- One more registration. -/
theorem Follows.store (h : r.Follows j) (n : String) (a : α) :
    (r.store n a).Follows (j ++ [(n, a)]) where
  get? m := by rw [get?_store, Journal.latest_concat, h.get?]
  names := by simp only [names_store, Journal.names_concat, h.mem_iff, h.names]
  replaced := by simp only [Registry.store, Journal.renewed_concat, h.mem_iff, h.replaced]

/-- Definitions registered one after another. -/
theorem Follows.foldl_store (name : α → String) (h : r.Follows j) (l : List α) :
    (l.foldl (fun r a => r.store (name a) a) r).Follows (j ++ l.map fun a => (name a, a)) := by
  induction l generalizing r j with
  | nil => simpa using h
  | cons a l ih => simpa using ih (h.store (name a) a)

/-! ## Single requests -/

/-- What may be asked about what is registered. -/
inductive Inquiry where
  | has (name : String)
  | get (name : String)
  | names

/-- An answer: a definition has been registered, or is found, or the names are told, or the request
is refused. -/
inductive Answer (α : Type) where
  | registered (name : String) (a : α)
  | found (a : α)
  | held (yes : Bool)
  | named (names : List String)
  | refused (f : Fault)

/-- What the answer adds to the journal. -/
def Answer.registered? : Answer α → Option (String × α)
  | registered n a => some (n, a)
  | _ => none

/-- What a registry tells of itself, with the way in which its definitions are found. -/
def tell (get : Registry α → String → Outcome α) (r : Registry α) : Inquiry → Answer α
  | .has n => .held (decide (n ∈ r.entries))
  | .get n =>
    match get r n with
    | .ok a => .found a
    | .error f => .refused f
  | .names => .named r.names

/-- What the journal tells of it, with the fault of a name that is not there. -/
def recount (unknown : String → Fault) (j : Journal α) : Inquiry → Answer α
  | .has n => .held (decide (n ∈ j.names))
  | .get n =>
    match j.latest n with
    | some a => .found a
    | none => .refused (unknown n)
  | .names => .named j.names

theorem Follows.tell_eq (h : r.Follows j) {get : Registry α → String → Outcome α}
    {unknown : String → Fault}
    (hget : ∀ n, get r n = (r.entries.get? n).elim (.error (unknown n)) .ok) :
    ∀ i, tell get r i = recount unknown j i
  | .has n => by simp only [tell, recount, h.mem_iff]
  | .get n => by
    rw [tell, recount, hget, h.get?]
    cases j.latest n <;> rfl
  | .names => by rw [tell, recount, h.names]

theorem registered?_recount (unknown : String → Fault) (j : Journal α) (i : Inquiry) :
    (recount unknown j i).registered? = none := by
  cases i with
  | get n =>
    rw [recount]
    cases j.latest n <;> rfl
  | _ => rfl

/-! ## Runs of requests -/

/-- The requests made one after another: the answers, and what becomes of the registry. -/
def run (step : Registry α → Q → Answer α × Registry α) : Registry α → List Q →
    List (Answer α) × Registry α
  | r, [] => ([], r)
  | r, q :: qs => ((step r q).1 :: (run step (step r q).2 qs).1, (run step (step r q).2 qs).2)

/-- The answers from the journal, which each of them continues. -/
def replay (answer : Journal α → Q → Answer α) : Journal α → List Q → List (Answer α)
  | _, [] => []
  | j, q :: qs => answer j q :: replay answer (j ++ (answer j q).registered?.toList) qs

/-- Requests are answered from the journal and leave a registry that follows it, and where one is
refused, the others are answered as without it. -/
structure Keeps (step : Registry α → Q → Answer α × Registry α) (answer : Journal α → Q → Answer α)
    (r : Registry α) (j : Journal α) : Prop where
  answers : ∀ qs, (run step r qs).1 = replay answer j qs
  follows : ∀ qs, (run step r qs).2.Follows (j ++ (run step r qs).1.filterMap Answer.registered?)
  refusals : ∀ before q after f,
    (run step r (before ++ q :: after)).1[before.length]? = some (.refused f) →
    run step r (before ++ after) =
      ((run step r (before ++ q :: after)).1.eraseIdx before.length,
        (run step r (before ++ q :: after)).2)

/-- A single request is answered from the journal, and the registry then follows the journal it
continues. -/
def Stepwise (step : Registry α → Q → Answer α × Registry α)
    (answer : Journal α → Q → Answer α) : Prop :=
  ∀ r j q, r.Follows j →
    (step r q).1 = answer j q ∧ (step r q).2.Follows (j ++ (answer j q).registered?.toList)

variable {step : Registry α → Q → Answer α × Registry α} {answer : Journal α → Q → Answer α}

theorem run_append (r : Registry α) (before after : List Q) :
    run step r (before ++ after) =
      ((run step r before).1 ++ (run step (run step r before).2 after).1,
        (run step (run step r before).2 after).2) := by
  induction before generalizing r with
  | nil => rfl
  | cons q before ih => rw [List.cons_append, run, run, ih]; rfl

theorem length_run (r : Registry α) (qs : List Q) : (run step r qs).1.length = qs.length := by
  induction qs generalizing r with
  | nil => rfl
  | cons q qs ih => rw [run, List.length_cons, List.length_cons, ih]

theorem answers_run (hstep : Stepwise step answer) (h : r.Follows j) (qs : List Q) :
    (run step r qs).1 = replay answer j qs := by
  induction qs generalizing r j with
  | nil => rfl
  | cons q qs ih =>
    obtain ⟨hanswer, hnext⟩ := hstep r j q h
    rw [run, replay, hanswer, ih hnext]

theorem follows_run (hstep : Stepwise step answer) (h : r.Follows j) (qs : List Q) :
    (run step r qs).2.Follows (j ++ (run step r qs).1.filterMap Answer.registered?) := by
  induction qs generalizing r j with
  | nil => simpa [run] using h
  | cons q qs ih =>
    obtain ⟨hanswer, hnext⟩ := hstep r j q h
    have hentries : (run step r (q :: qs)).1.filterMap Answer.registered? =
        (answer j q).registered?.toList ++
          (run step (step r q).2 qs).1.filterMap Answer.registered? := by
      rw [run, hanswer, List.filterMap_cons]
      cases (answer j q).registered? <;> rfl
    rw [hentries, ← List.append_assoc]
    exact ih hnext

/-- A refused request leaves the registry as it is, so that the others are answered as without
it. -/
theorem run_refused (hkept : ∀ r q f, (step r q).1 = .refused f → (step r q).2 = r)
    {before after : List Q} {q : Q} {f : Fault}
    (h : (run step r (before ++ q :: after)).1[before.length]? = some (.refused f)) :
    run step r (before ++ after) =
      ((run step r (before ++ q :: after)).1.eraseIdx before.length,
        (run step r (before ++ q :: after)).2) := by
  have hlength : (run step r before).1.length = before.length := length_run r before
  rw [run_append, List.getElem?_append_right (Nat.le_of_eq hlength), hlength, Nat.sub_self] at h
  have hsame := hkept _ _ _ (Option.some.inj h)
  rw [run_append, run_append, run, hsame,
    List.eraseIdx_append_of_length_le (Nat.le_of_eq hlength), hlength, Nat.sub_self]
  rfl

theorem Follows.keeps (hstep : Stepwise step answer)
    (hkept : ∀ r q f, (step r q).1 = .refused f → (step r q).2 = r) (h : r.Follows j) :
      Keeps step answer r j :=
  ⟨answers_run hstep h, follows_run hstep h, fun _ _ _ _ => run_refused hkept⟩

end Registry

end SqlDraft
