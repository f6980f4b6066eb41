import SqlDraft.Proofs.Decimal.Whole
import SqlDraft.Proofs.Drafting.Method
import SqlDraft.Proofs.Layout.Form
import SqlDraft.Sql.Compile

/-! Numbers of rows in the text of a select. Each stands in a clause of its own, between keywords:
behind the word that the select begins with, or at its end (`Query.write_select`). What is written
of a number is its decimal form, which is digits alone up to a bound that the check of numbers does
not have (`Query.compile_rowCount`). -/

namespace SqlDraft

open Sql

/-! ## Texts with a space between each two -/

namespace Sql.Tokens

variable {c : LetterCase}

theorem write_append (xs ys : Tokens) : write c (xs ++ ys) = write c xs ++ write c ys := by
  rw [write, List.map_append, String.join_append, write, write]

theorem write_separated (separator : Tokens) (parts : List Tokens) :
    (separated separator parts).write c = (separator.write c).intercalate
      (parts.map (write c)) := by
  unfold separated
  induction parts with
  | nil =>
    rw [List.intercalate_nil, List.map_nil, String.intercalate_nil, write, List.map_nil,
      String.join_nil]
  | cons part parts ih =>
    by_cases hparts : parts = []
    · subst hparts
      rw [List.intercalate_singleton, List.map_singleton, String.intercalate_singleton]
    · rw [List.intercalate_cons_of_ne_nil hparts, write_append, write_append, ih, List.map_cons,
        String.intercalate_cons_of_ne_nil (by simpa using hparts)]

theorem write_spaced (parts : List Tokens) :
    (spaced parts).write c = " ".intercalate (parts.map (write c)) :=
  write_separated _ parts

theorem write_singleton (t : Token) : write c [t] = t.write c := by
  rw [write, List.map_singleton, String.join_cons, String.join_nil, String.append_empty]

end Sql.Tokens

/-! ## Clauses with a number -/

/-- A clause that says a number of rows, with the keywords in front of the number and behind it. -/
structure CountClause where
  lead : Keyword
  count : Float
  trail : List Keyword := []

/-- How a keyword is spelled in the text of a statement. -/
def Dialect.spelled (d : Dialect) (c : LetterCase) (k : Keyword) : String :=
  (Token.word (d.keywords k)).write c

namespace CountClause

/-- The words of the clause, with the number among them. -/
def text (d : Dialect) (c : LetterCase) (clause : CountClause) : String :=
  " ".intercalate
    (d.spelled c clause.lead :: Decimal.text clause.count :: clause.trail.map (d.spelled c))

def tokens (s : Site) (clause : CountClause) : Tokens :=
  Tokens.spaced ([s.keyword clause.lead] :: [Site.count clause.count] :: clause.trail.map fun k =>
    [s.keyword k])

theorem write_tokens (s : Site) (c : LetterCase) (clause : CountClause) :
    (clause.tokens s).write c = clause.text s.dialect c := by
  rw [tokens, Tokens.write_spaced, List.map_cons, List.map_cons, Tokens.write_singleton,
    Tokens.write_singleton, List.map_map]
  simp only [Function.comp_def, Tokens.write_singleton]
  rfl

end CountClause

namespace Pagination

/-- The clauses that stand in front of what is listed. -/
def front : Pagination → (limit offset : Option Float) → List CountClause
  | top, some n, none => [{ lead := .top, count := n }]
  | _, _, _ => []

def inRows (fetch : Keyword) (limit offset : Option Float) : List CountClause :=
  (offset.toList.map fun n => { lead := .offset, count := n, trail := [.rows] }) ++
    limit.toList.map fun n => { lead := fetch, count := n, trail := [.rows, .only] }

/-- The clauses that stand at the end of a select. -/
def back : Pagination → (limit offset : Option Float) → List CountClause
  | limitOffset, limit, offset =>
    (limit.toList.map fun n => { lead := .limit, count := n }) ++
      offset.toList.map fun n => { lead := .offset, count := n }
  | top, some _, none => []
  | top, limit, offset => inRows .fetchNext limit offset
  | fetchFirst, limit, offset => inRows .fetchFirst limit offset

/-- Each number is in one clause. -/
theorem counts_perm (style : Pagination) (limit offset : Option Float) :
    ((style.front limit offset ++ style.back limit offset).map CountClause.count).Perm
      (limit.toList ++ offset.toList) := by
  cases style <;> cases limit <;> cases offset <;> first | rfl | exact .swap ..

end Pagination

namespace Sql.Site

theorem front_eq (s : Site) (q : Query) :
    s.front q = (s.dialect.pagination.front q.limit q.offset).map (CountClause.tokens s) := by
  unfold front limitsInFront
  cases s.dialect.pagination <;> cases q.limit <;> cases q.offset <;> rfl

theorem paging_eq (s : Site) (q : Query) :
    s.paging q = (s.dialect.pagination.back q.limit q.offset).map (CountClause.tokens s) := by
  unfold paging limitsInFront
  cases s.dialect.pagination <;> cases q.limit <;> cases q.offset <;> rfl

/-- The words that a select begins with. -/
def opening (s : Site) (q : Query) : List Tokens :=
  [s.keyword .select] :: if q.isDistinct then [[s.keyword .distinct]] else []

theorem LaidOut.exists_body {s : Site} {q : Query} {p : Parts} {t : Table} {ts : Tokens}
    (h : s.LaidOut q p t .select ts) :
    ∃ body, ts = Tokens.spaced (s.opening q ++ s.front q ++ body ++ s.paging q) := by
  cases h with
  | @select items joins filter grouping having ordering =>
    refine ⟨[items, s.introduced .source (s.tableName t)] ++ joins ++ filter ++ grouping ++
      having ++ ordering, ?_⟩
    simp only [opening, List.append_assoc, List.cons_append, List.nil_append]

end Sql.Site

namespace Query

/-- The same words as they are spelled. -/
def opening (q : Query) (d : Dialect) (c : LetterCase) : List String :=
  d.spelled c .select :: if q.isDistinct then [d.spelled c .distinct] else []

/-- The text of a select with the given texts between the clauses that belong in front of them and
those behind. -/
def around (q : Query) (d : Dialect) (c : LetterCase) (body : List String) : String :=
  " ".intercalate (q.opening d c ++ (d.pagination.front q.limit q.offset).map
    (CountClause.text d c) ++ body ++
    (d.pagination.back q.limit q.offset).map (CountClause.text d c))

theorem write_select {q : Query} {d : Dialect} {outer : List Table} {ts : Tokens}
    (hq : q.command = .statement .select) (h : q.write d outer = .ok ts) (c : LetterCase) :
    ∃ body, ts.write c = q.around d c body := by
  rw [write_eq] at h
  obtain ⟨t, -, h⟩ := Site.LaidOut.of_statement hq h
  obtain ⟨body, rfl⟩ := h.exists_body
  refine ⟨body.map (Tokens.write c), ?_⟩
  have hopening : ((q.site d outer).opening q).map (Tokens.write c) = q.opening d c := by
    unfold Site.opening opening
    split <;> simp only [List.map_cons, List.map_nil, Tokens.write_singleton] <;> rfl
  rw [Tokens.write_spaced, List.map_append, List.map_append, List.map_append, hopening,
    Site.front_eq, Site.paging_eq, List.map_map, List.map_map]
  simp only [Function.comp_def, CountClause.write_tokens]
  rfl

/-- Wherever a number that a call of `fetch` or of `skip` takes is a number of rows of a select, the
text of the select has a clause with it, whatever else is in the select, and the number is written
in digits alone just when it is below `10 ^ 21`. Below `2 ^ 53` the digits say exactly that
number. -/
theorem compile_rowCount {p r q : Query} {n : Float} {d : Dialect} {finish : Finish} {text : String}
    (hn : p.fetch n = .ok r ∨ p.skip n = .ok r) (hq : q.command = .statement .select)
    (hcount : q.limit = some n ∨ q.offset = some n) (htext : q.compile d finish = .ok text) :
    (∃ body, text = q.around d finish.letterCase body ++ finish.tail) ∧
      (∃ clause ∈ d.pagination.front q.limit q.offset ++ d.pagination.back q.limit q.offset,
        clause.count = n) ∧
      ∃ k : Nat, Decimal.value? n = some (k : Rat) ∧
        (Decimal.IsDigits (Decimal.text n) ↔ k < 10 ^ 21) ∧
        (k < 2 ^ 53 → Decimal.text n = toString k) := by
  refine ⟨?_, ?_, ?_⟩
  · obtain ⟨ts, hts, rfl⟩ := compile_eq_ok_iff.mp htext
    obtain ⟨body, hbody⟩ := write_select hq hts finish.letterCase
    exact ⟨body, by rw [hbody]⟩
  · have hmem : n ∈ q.limit.toList ++ q.offset.toList := by
      rw [List.mem_append, Option.mem_toList, Option.mem_toList]
      exact hcount
    exact List.mem_map.mp ((d.pagination.counts_perm q.limit q.offset).mem_iff.mpr hmem)
  · have haccepted : Decimal.isCount n = true := by
      rcases hn with hn | hn
      · exact (fetch_eq_ok hn).2.1
      · exact (skip_eq_ok hn).2.1
    obtain ⟨k, hk⟩ := Decimal.isCount_iff.mp haccepted
    refine ⟨k, hk, Decimal.isDigits_text_iff hk, fun hsmall => ?_⟩
    obtain ⟨v, hv, hexact⟩ := Decimal.exists_text_eq_toString hk (by omega)
    rw [hv, hexact hsmall]

theorem fetch_of_isCount {q : Query} {n : Float} (hq : q.command.admits .fetch = true)
    (hn : Decimal.isCount n = true) : q.fetch n = .ok { q with limit := some n } := by
  rw [fetch, Command.require, if_pos hq, rowCount, if_pos hn]
  rfl

/-- What is in a table, but no more than some rows of it. -/
def sample (limit : Option Float) : Query :=
  { command := .statement .select, table := some { serial := 0, name := "t" }, limit }

theorem compile_sample (n : Float) :
    (sample (some n)).compile .generic =
      .ok ("select * from t limit " ++ Decimal.text n ++ ";") := by
  have hname : Dialect.generic.quoting.write "t" = "t" := by decide +kernel
  have hwrite : (sample (some n)).write .generic [] =
      .ok [.word "select", Tokens.space, .mark "*", Tokens.space, .word "from", Tokens.space,
        .name (Dialect.generic.quoting.write "t"), Tokens.space, .word "limit", Tokens.space,
        .number (Decimal.text n)] := rfl
  refine compile_eq_ok_iff.mpr ⟨_, hwrite, ?_⟩
  simp [hname, Tokens.write, Tokens.space, Token.write, Finish.tail, ← String.append_assoc]

theorem compile_rowCount_sample :
    let q := sample (some 30)
    let text := "select * from t limit 30;"
    (sample none).fetch 30 = .ok q ∧ q.compile .generic = .ok text ∧
      (∃ body, text = q.around .generic .lower body ++ ";") ∧
      (∃ clause ∈ Pagination.limitOffset.front (some 30) none ++ Pagination.limitOffset.back
        (some 30) none, clause.count = 30) ∧
      ∃ k : Nat, Decimal.value? 30 = some (k : Rat) ∧
        (Decimal.IsDigits (Decimal.text 30) ↔ k < 10 ^ 21) ∧
        (k < 2 ^ 53 → Decimal.text 30 = toString k) := by
  intro q text
  have hfetch : (sample none).fetch 30 = .ok q := fetch_of_isCount rfl (by decide +kernel)
  have hnumber : Decimal.text 30 = "30" := by decide +kernel
  have htext : q.compile .generic = .ok text := by
    rw [compile_sample, hnumber]
    rfl
  have hrows := compile_rowCount (.inl hfetch) rfl (.inl rfl) htext
  exact ⟨hfetch, htext, hrows⟩

/-- Calls take numbers of any size, and from some size on an exponent is written. -/
theorem compile_rowCount_exponent :
    (sample none).fetch 1e21 = .ok (sample (some 1e21)) ∧
      (sample (some 1e21)).compile .generic = .ok "select * from t limit 1e+21;" ∧
      ¬ Decimal.IsDigits (Decimal.text 1e21) := by
  have hnumber : Decimal.text 1e21 = "1e+21" := by decide +kernel
  refine ⟨fetch_of_isCount rfl (by decide +kernel), ?_, ?_⟩
  · rw [compile_sample, hnumber]
    rfl
  · rw [hnumber]
    decide

end Query

end SqlDraft
