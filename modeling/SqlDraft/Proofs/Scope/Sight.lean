import SqlDraft.Proofs.Drafting.Written
import SqlDraft.Proofs.Layout.Tree
import SqlDraft.Sql.Compile
import SqlDraft.Proofs.Reading.Atom

/-! What a statement refers to is in sight. A text is given only if every column in it, and every
star, belongs to a table of its own statement or of one around that, at whatever depth it stands
(`Query.Made.sees_of_compile`). -/

namespace SqlDraft

open Sql Reading

/-- What is written of a column or of a star, but for its table. -/
def Expr.mention (s : Site) : Expr → Token
  | .column c => s.name c.name
  | _ => .mark "*"

/-- A reference is written if its table is in sight, with the table just where it qualifies. -/
theorem Expr.write_reference {s : Site} {x : Expr} {t : Table} (ht : x.table? = some t)
    {xs : Tokens} (h : x.write s = .ok xs) : s.Sees t ∧
      xs = (if s.qualifies t then s.tableName t ++ [.mark "."] else []) ++ [x.mention s] := by
  have reference {written : Token} {called : String} (h : s.reference t written called = .ok xs) :
      s.Sees t ∧
        xs = (if s.qualifies t then s.tableName t ++ [.mark "."] else []) ++ [written] := by
    unfold Site.reference at h
    split at h
    · next hsees =>
      cases h
      refine ⟨hsees, ?_⟩
      split
      · rw [List.append_assoc]
        rfl
      · rfl
    · cases h
  cases x with
  | column c =>
    cases ht
    rw [Expr.write] at h
    exact reference h
  | star u =>
    cases ht
    rw [Expr.write] at h
    exact reference h
  | _ => cases ht

/-- A reference in a statement that has a text is in sight, and is written in the text. -/
theorem Query.Made.exists_reference {q : Query} (hq : q.Made) {f : Flavor} {finish : Finish}
    {text : String} (htext : q.compile f.dialect finish = .ok text) {s : Site}
    {x : Expr} {t : Table} (hx : q.Contains f.dialect [] s x) (ht : x.table? = some t) :
    s.Sees t ∧ ∃ xs, x.write s = .ok xs ∧ chars finish.letterCase xs <:+: text.toList ∧
      xs = (if s.qualifies t then s.tableName t ++ [.mark "."] else []) ++ [x.mention s] := by
  obtain ⟨ts, hts, rfl⟩ := compile_eq_ok_iff.mp htext
  obtain ⟨-, hincludes⟩ := hq.allSound.contains_includes hx
  obtain ⟨xs, hxs, hinfix⟩ := hincludes ts hts
  obtain ⟨hsees, hwritten⟩ := Expr.write_reference ht hxs
  refine ⟨hsees, xs, hxs, ?_, hwritten⟩
  rw [String.toList_append]
  exact (infix_chars hinfix).trans (List.prefix_append _ _).isInfix

/-- A text is given only if every reference in the statement is to a table in sight: of the
statement that it stands in, or of one around that. It is written with its table just where its own
statement has several, or the table is not one of them. -/
theorem Query.Made.sees_of_compile {q : Query} (hq : q.Made) {f : Flavor} {finish : Finish}
    {text : String} (htext : q.compile f.dialect finish = .ok text) {s : Site}
    {x : Expr} {t : Table} (hx : q.Contains f.dialect [] s x) (ht : x.table? = some t) :
    (t ∈ s.own ∨ t ∈ s.outer) ∧ ∃ xs, x.write s = .ok xs ∧
      chars finish.letterCase xs <:+: text.toList ∧
      xs = (if 1 < s.own.length ∨ t ∉ s.own then s.tableName t ++ [.mark "."] else []) ++
        [x.mention s] :=
  hq.exists_reference htext hx ht

/-- A column in the condition of a join. -/
theorem Query.Made.sees_of_compile_pairing :
    let t : Table := { serial := 0, name := "t" }
    let u : Table := { serial := 1, name := "u" }
    let c : Column := ⟨t, "b", .concrete .boolean⟩
    let j : Join := ⟨.inner, u, some (.predicate (.column c)), none⟩
    let q : Query := { command := .statement .select, table := some t, joins := [j] }
    let s : Site := ⟨.generic, [t, u], []⟩
    q.Made ∧ q.compile .generic = .ok "select t.*, u.* from t inner join u on t.b;" ∧
      q.Contains .generic [] s (.column c) ∧ (Expr.column c).table? = some t ∧
      (t ∈ s.own ∨ t ∈ s.outer) ∧ ∃ xs, (Expr.column c).write s = .ok xs ∧
        chars .lower xs <:+: "select t.*, u.* from t inner join u on t.b;".toList ∧
        xs = (if 1 < s.own.length ∨ t ∉ s.own then s.tableName t ++ [.mark "."] else []) ++
          [(Expr.column c).mention s] := by
  intro t u c j q s
  have hjoin :
      ({ command := .statement .select, table := some t,
         joins := [⟨.inner, u, none, none⟩] } : Query).Made :=
    .called (Query.MadeOf.selectFrom t) (@Query.Called.join _ _ _ _ .inner u rfl)
  have hq : q.Made :=
    Query.MadeOf.restricted .pairing .plain hjoin (.expr (.column c)) rfl
  have htext : q.compile .generic = .ok "select t.*, u.* from t inner join u on t.b;" := by
    decide +kernel
  have hx : q.Contains .generic [] s (.column c) := ⟨_, List.mem_cons_self, .self s _⟩
  exact ⟨hq, htext, hx, rfl, hq.sees_of_compile (f := .generic) htext hx rfl⟩

end SqlDraft
