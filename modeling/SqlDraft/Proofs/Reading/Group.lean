import SqlDraft.Proofs.Reading.Nest

/-! What stands in parentheses, at any depth (`Nest.groups`). Each text adds its own groups to those
of what stands behind it (`groups_before`), and has all groups of the texts within it
(`mem_groups_before`). -/

namespace SqlDraft.Reading

open Nest

/-- What stands in each pair of parentheses, at any depth. -/
def Nest.groups : Nest → List Nest
  | nil => []
  | piece _ n => n.groups
  | space n => n.groups
  | comma n => n.groups
  | group i n => i :: (i.groups ++ n.groups)

theorem Nest.groups_glue (t : List Char) (n : Nest) : (glue t n).groups = n.groups := by
  cases n <;> rfl

theorem Put.groups {l : Lexeme} {put : Nest → Nest} (h : Put l put) (n : Nest) :
    (put n).groups = n.groups := by
  cases h with
  | space => rfl
  | comma => rfl
  | glue => exact groups_glue _ _

/-! ## Behind a text -/

/-- The levels are the same up to the outermost one, which has the groups of the rest besides in the
first stack. -/
def Apart (rest : Nest) (st st' : List Nest) : Prop :=
  ∃ front a b, st = front ++ [a] ∧ st' = front ++ [b] ∧ a.groups = b.groups ++ rest.groups

theorem Apart.onto {rest : Nest} {st st' : List Nest} {l : Lexeme} (h : Apart rest st st')
    (hne : onto l st ≠ []) : Apart rest (onto l st) (onto l st') := by
  obtain ⟨front, a, b, rfl, rfl, hgroups⟩ := h
  rcases onto_cases l with rfl | rfl | ⟨put, hput, honto⟩
  · rcases front with - | ⟨x, front⟩
    · exact ⟨[nil], a, b, rfl, rfl, hgroups⟩
    · exact ⟨nil :: x :: front, a, b, rfl, rfl, hgroups⟩
  · rcases front with - | ⟨x, - | ⟨y, front⟩⟩
    · exact absurd rfl hne
    · refine ⟨[], group x a, group x b, rfl, rfl, ?_⟩
      rw [groups, groups, hgroups, List.cons_append, List.append_assoc]
    · exact ⟨group x y :: front, a, b, rfl, rfl, hgroups⟩
  · rcases front with - | ⟨x, front⟩
    · refine ⟨[], put a, put b, honto a [], honto b [], ?_⟩
      rw [hput.groups, hput.groups, hgroups]
    · exact ⟨put x :: front, a, b, honto x _, honto x _, hgroups⟩

theorem Apart.nestOnto {rest : Nest} {st st' : List Nest} {ls : List Lexeme} (h : Apart rest st st')
    (hne : nestOnto ls st ≠ []) : Apart rest (nestOnto ls st) (nestOnto ls st') := by
  induction ls with
  | nil => exact h
  | cons l ls ih =>
    rw [nestOnto_cons] at hne
    have hls : Reading.nestOnto ls st ≠ [] := fun hn => hne (by rw [hn]; rfl)
    exact (ih hls).onto hne

/-- The groups of a text come first, and then those of what stands behind it. -/
theorem groups_before {ls : List Lexeme} (h : Lies ls) (n : Nest) :
    (before ls n).groups = (before ls nil).groups ++ n.groups := by
  have hapart : Apart n [n] [nil] := ⟨[], n, nil, rfl, rfl, rfl⟩
  have hne : nestOnto ls [n] ≠ [] := h n [] ▸ List.cons_ne_nil _ _
  have hnest := hapart.nestOnto hne
  rw [h n [], h nil []] at hnest
  obtain ⟨front, a, b, ha, hb, hgroups⟩ := hnest
  rw [← List.nil_append [before ls n]] at ha
  obtain ⟨rfl, ha⟩ := List.append_inj' ha rfl
  rw [List.head_eq_of_cons_eq ha, List.head_eq_of_cons_eq hb, hgroups]

theorem groups_append {xs ys : List Lexeme} (hx : Lies xs) (hy : Lies ys) :
    (before (xs ++ ys) nil).groups = (before xs nil).groups ++ (before ys nil).groups := by
  rw [before_append hx hy, groups_before hx]

theorem groups_eq_nil {ls : List Lexeme} (h : ∀ l ∈ ls, l ≠ .char '(' ∧ l ≠ .char ')') :
    (before ls nil).groups = [] := by
  suffices hnest : ∃ n, nestOnto ls [nil] = [n] ∧ n.groups = [] by
    obtain ⟨n, hn, hgroups⟩ := hnest
    rw [before, hn]
    exact hgroups
  induction ls with
  | nil => exact ⟨nil, rfl, rfl⟩
  | cons l ls ih =>
    obtain ⟨⟨hopen, hclose⟩, hls⟩ := List.forall_mem_cons.mp h
    obtain ⟨n, hn, hgroups⟩ := ih hls
    obtain ⟨put, hput, honto⟩ := ((onto_cases l).resolve_left hclose).resolve_left hopen
    exact ⟨put n, by rw [nestOnto_cons, hn, honto], (hput.groups n).trans hgroups⟩

/-! ## Within a text -/

/-- Groups stay as long as every parenthesis has its counterpart. -/
theorem mem_groups_onto {l : Lexeme} {st : List Nest} (hne : onto l st ≠ []) {g : Nest}
    (h : g ∈ st.flatMap groups) : g ∈ (onto l st).flatMap groups := by
  cases st with
  | nil => exact absurd rfl hne
  | cons n st =>
    rcases onto_cases l with rfl | rfl | ⟨put, hput, honto⟩
    · exact h
    · cases st with
      | nil => exact absurd rfl hne
      | cons m st =>
        rw [List.flatMap_cons, List.flatMap_cons, ← List.append_assoc] at h
        exact List.mem_cons_of_mem _ h
    · rw [honto, List.flatMap_cons, hput.groups]
      exact h

theorem mem_groups_nestOnto {ls : List Lexeme} {st : List Nest}
    (hne : nestOnto ls st ≠ []) {g : Nest}
    (h : g ∈ st.flatMap groups) : g ∈ (nestOnto ls st).flatMap groups := by
  induction ls with
  | nil => exact h
  | cons l ls ih =>
    rw [nestOnto_cons] at hne
    have hls : nestOnto ls st ≠ [] := fun hn => hne (by rw [hn]; rfl)
    exact mem_groups_onto hne (ih hls)

/-- A text in parentheses is a group of each text that it stands in. -/
theorem mem_groups_before {xs ls ys : List Lexeme} (hls : Lies ls)
    (h : Lies (xs ++ (.char '(' :: ls ++ [.char ')']) ++ ys)) :
    before ls nil ∈ (before (xs ++ (.char '(' :: ls ++ [.char ')']) ++ ys) nil).groups := by
  have hst := h nil []
  rw [nestOnto_append, nestOnto_append] at hst
  cases hys : nestOnto ys [nil] with
  | nil =>
    rw [hys, nestOnto_nil, nestOnto_nil] at hst
    cases hst
  | cons n st =>
    rw [hys, nestOnto_enclosed hls] at hst
    have hne : nestOnto xs (group (before ls nil) n :: st) ≠ [] := hst ▸ List.cons_ne_nil _ _
    have hmem := mem_groups_nestOnto hne
      (List.mem_flatMap.mpr ⟨group (before ls nil) n, List.mem_cons_self, List.mem_cons_self⟩)
    rw [hst, List.flatMap_singleton] at hmem
    exact hmem

end SqlDraft.Reading
