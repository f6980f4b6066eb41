import SqlDraft.Proofs.Layout.Tree
import SqlDraft.Sql.Compile

/-! No value breaks out of its literal. A database that scans the text of a statement finds string
literals just where string values were written, each with the text of its value, and the rest of
the statement does not depend on what they say (`Query.compile_literals`). -/

namespace SqlDraft

open Reading Sql

theorem Finish.scan_tail (f : Flavor) (finish : Finish) :
    scan f.lexis finish.tail.toList = finish.tail.toList.map .char := by
  refine scan_unquoted ?_
  unfold tail
  split <;> exact List.all_eq_true.mp (by decide)

theorem Finish.ends_tail (finish : Finish) : Ends finish.tail.toList := by
  unfold tail
  split
  · exact .cons (by decide) []
  · exact .nil

section

variable {f : Flavor} {finish : Finish} {ts : Tokens} {vs : List String}

theorem scan_finished (h : Woven f ts vs) :
    scan f.lexis (ts.write finish.letterCase ++ finish.tail).toList =
      ts.flatMap (lexemes f.lexis finish.letterCase) ++ finish.tail.toList.map .char := by
  rw [String.toList_append, h.scan_write _ finish.ends_tail, Finish.scan_tail]

theorem values_finished (h : Woven f ts vs) :
    (scan f.lexis (ts.write finish.letterCase ++ finish.tail).toList).filterMap Lexeme.value? =
      vs.map String.toList := by
  rw [scan_finished h, List.filterMap_append, h.values, List.filterMap_map]
  simp [Function.comp_def, Lexeme.value?]

theorem blanked_finished (h : Woven f ts vs) :
    (scan f.lexis (ts.write finish.letterCase ++ finish.tail).toList).map Lexeme.blanked =
      (blank ts).flatMap (blankLexemes f.lexis finish.letterCase) ++
        finish.tail.toList.map .char := by
  rw [scan_finished h, List.map_append, h.blanked, List.map_map]
  rfl

end

/-- Values stay in their literals. Of two queries that differ in what their string literals say,
both can be written if one can; the texts are the same but for what is in their string literals, and
these give just what the literals say, in order. -/
theorem Query.compile_literals (f : Flavor) (finish : Finish) {q r : Query}
    (h : q.blanked = r.blanked) {text : String} (hq : q.compile f.dialect finish = .ok text) :
    ∃ other, r.compile f.dialect finish = .ok other ∧
      (scan f.lexis text.toList).map Lexeme.blanked =
        (scan f.lexis other.toList).map Lexeme.blanked ∧
      (scan f.lexis text.toList).filterMap Lexeme.value? =
        (q.texts f.dialect).map String.toList ∧
      (scan f.lexis other.toList).filterMap Lexeme.value? =
        (r.texts f.dialect).map String.toList := by
  obtain ⟨ts, hts, rfl⟩ := compile_eq_ok_iff.mp hq
  have hblank : (q.write f.dialect []).map blank = (r.write f.dialect []).map blank := by
    rw [← write_blanked q, ← write_blanked r, h]
  rw [hts] at hblank
  obtain ⟨us, hus, hu⟩ := map_eq_ok_iff.mp hblank.symm
  have hq := write_woven q [] hts
  have hr := write_woven r [] hus
  refine ⟨_, compile_eq_ok_iff.mpr ⟨us, hus, rfl⟩, ?_, values_finished hq, values_finished hr⟩
  rw [blanked_finished hq, blanked_finished hr, hu]

/-- The rows of a table that have a name. -/
def rowsNamed (v : String) : Query :=
  let t : Table := { serial := 0, name := "t" }
  let named : Expr := .call ⟨"equals", .concrete .boolean, [], ∅⟩
    [.column ⟨t, "name", .concrete .string⟩, .literal (.text v) (.concrete .string)]
  { command := .statement .select, table := some t, filter := some (.predicate named) }

/-- A name that would end its literal, were it not escaped, stays in it. -/
theorem Query.compile_literals_rowsNamed :
    ∃ other, (rowsNamed "\\' or 1 = 1 -- ").compile Flavor.mysql.dialect {} = .ok other ∧
      (scan Flavor.mysql.lexis "select * from t where name = 'x';".toList).map Lexeme.blanked =
        (scan Flavor.mysql.lexis other.toList).map Lexeme.blanked ∧
      (scan Flavor.mysql.lexis "select * from t where name = 'x';".toList).filterMap
          Lexeme.value? = ((rowsNamed "x").texts Flavor.mysql.dialect).map String.toList ∧
      (scan Flavor.mysql.lexis other.toList).filterMap Lexeme.value? =
        ((rowsNamed "\\' or 1 = 1 -- ").texts Flavor.mysql.dialect).map String.toList :=
  have h : (rowsNamed "x").compile Flavor.mysql.dialect {} =
      .ok "select * from t where name = 'x';" := by decide +kernel
  have hb : (rowsNamed "x").blanked = (rowsNamed "\\' or 1 = 1 -- ").blanked := rfl
  Query.compile_literals .mysql {} hb h

end SqlDraft
