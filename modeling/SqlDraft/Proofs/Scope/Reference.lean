import SqlDraft.Proofs.Scope.Sight

/-! Which table a reference is read to belong to. What stands in front of its last point says so, by
the name of the table; without a point it belongs to the only table of the statement
(`Sql.Site.resolve?`). References to two tables can be told apart unless the tables have one name,
as tables are given no other names in a statement (`Query.Made.resolve_of_compile`): a table joined
with another one of its name is read for that one throughout (`Query.Made.reference_confused`). -/

namespace SqlDraft

open Sql Reading

namespace Reading

/-- What stands in front of the last point, if there is one. -/
def beforePoint? : List Lexeme → Option (List Char)
  | [] => none
  | l :: ls =>
    match beforePoint? ls with
    | some front => some (l.text ++ front)
    | none => if l = .char '.' then some [] else none

/-- What a reference is qualified with, if it is. A point within a delimited name is none. -/
def qualifier? (f : Flavor) (text : List Char) : Option (List Char) :=
  beforePoint? (scan f.lexis text)

end Reading

/-- The tables are called the same. -/
def Table.Namesake (t u : Table) : Prop := t.database = u.database ∧ t.name = u.name

instance (t u : Table) : Decidable (t.Namesake u) := inferInstanceAs (Decidable (_ ∧ _))

/-- The table that a reference is read to belong to: the only one of the statement if it is not
qualified, and otherwise the innermost one in sight that is written like that. -/
def Sql.Site.resolve? (s : Site) (f : Flavor) (c : LetterCase) (text : List Char) : Option Table :=
  match qualifier? f text with
  | some name => (s.own ++ s.outer).find? fun t => chars c (s.tableName t) = name
  | none =>
    match s.own with
    | [t] => some t
    | _ => none

/-! ## Points -/

namespace Reading

variable {f : Flavor} {c : LetterCase}

theorem beforePoint?_eq_none {ls : List Lexeme} (h : .char '.' ∉ ls) : beforePoint? ls = none := by
  induction ls with
  | nil => rfl
  | cons l ls ih =>
    obtain ⟨hl, hls⟩ := not_or.mp (List.mem_cons.not.mp h)
    rw [beforePoint?, ih hls]
    exact if_neg (Ne.symm hl)

theorem beforePoint?_append (front : List Lexeme) {back : List Lexeme} (h : .char '.' ∉ back) :
    beforePoint? (front ++ .char '.' :: back) = some (front.flatMap Lexeme.text) := by
  induction front with
  | nil =>
    rw [List.nil_append, beforePoint?, beforePoint?_eq_none h]
    rfl
  | cons l front ih =>
    rw [List.cons_append, beforePoint?, ih, List.flatMap_cons]

theorem Woven.scan_chars {ts : Tokens} {vs : List String} (h : Woven f ts vs) :
    scan f.lexis (chars c ts) = lexed f c ts := by
  have hscan := h.scan_write c Ends.nil
  rw [List.append_nil] at hscan
  exact hscan.trans (List.append_nil _)

/-- Tokens with no point among them, but for what is within a delimited name. -/
structure Pointless (f : Flavor) (c : LetterCase) (ts : Tokens) : Prop where
  woven : Woven f ts []
  point : .char '.' ∉ lexed f c ts

theorem pointless_name (n : String) : Pointless f c [.name (f.dialect.quoting.write n)] := by
  refine ⟨.name n, fun h => ?_⟩
  rw [lexed, List.flatMap_singleton] at h
  rcases lexemes_name (f := f) n c with ⟨hn, hp⟩ | hname
  · have hfree := isUnquoted_of_isFree (plain_isFree hn hp)
    rw [lexemes_of_unquoted (f := f) c (.name (f.dialect.quoting.write n)) hfree] at h
    obtain ⟨x, hx, hpoint⟩ := List.mem_map.mp h
    cases hpoint
    exact absurd (isPlain_isInner hp _ (hn ▸ hx)) (by decide)
  · rw [hname] at h
    cases List.mem_singleton.mp h

theorem pointless_star : Pointless f c [.mark "*"] := by
  have hstar : "*" ∈ marks := by decide
  refine ⟨.mark hstar, fun h => ?_⟩
  rw [lexed, List.flatMap_singleton, (isMark_of_mem hstar).lexemes c] at h
  exact absurd h (by decide)

theorem Pointless.qualifier? {ts : Tokens} (h : Pointless f c ts) :
    qualifier? f (chars c ts) = none := by
  rw [Reading.qualifier?, h.woven.scan_chars]
  exact beforePoint?_eq_none h.point

theorem Pointless.qualifier?_append {front back : Tokens} (hfront : Woven f front [])
    (h : Pointless f c back) :
    Reading.qualifier? f (chars c (front ++ .mark "." :: back)) = some (chars c front) := by
  have hpoint : "." ∈ marks := by decide
  have hlexed : lexed f c (front ++ .mark "." :: back) =
      lexed f c front ++ .char '.' :: lexed f c back := by
    rw [lexed_append, lexed_cons, (isMark_of_mem hpoint).lexemes c]
    rfl
  have hwoven : Woven f (front ++ .mark "." :: back) ([] ++ []) := .apart hpoint hfront h.woven
  rw [Reading.qualifier?, hwoven.scan_chars, hlexed, beforePoint?_append _ h.point,
    ← hfront.scan_chars, flatMap_text_scan]

/-- A text is taken apart at its last point in one way. -/
theorem Pointless.append_inj {front front' back back' : Tokens} (hfront : Woven f front [])
    (hfront' : Woven f front' []) (h : Pointless f c back) (h' : Pointless f c back')
    (heq : chars c (front ++ .mark "." :: back) = chars c (front' ++ .mark "." :: back')) :
    chars c front = chars c front' ∧ chars c back = chars c back' := by
  have hqualifier := h.qualifier?_append hfront
  rw [heq, h'.qualifier?_append hfront'] at hqualifier
  have hchars := (Option.some.inj hqualifier).symm
  refine ⟨hchars, ?_⟩
  have hcons (ts : Tokens) : chars c (.mark "." :: ts) = '.' :: chars c ts := by
    rw [← List.singleton_append, chars_append, chars_singleton, Token.write]
    rfl
  rw [chars_append, chars_append, hchars, hcons, hcons] at heq
  exact (List.cons.inj (List.append_cancel_left heq)).2

/-- Names that are written the same are the same. -/
theorem chars_name_injective {m n : String}
    (h : chars c [.name (f.dialect.quoting.write m)] =
      chars c [.name (f.dialect.quoting.write n)]) :
    m = n := by
  rw [chars_singleton, chars_singleton] at h
  exact quoting_write_injective f (String.toList_inj.mp h)

theorem chars_name_ne_star (n : String) :
    chars c [.name (f.dialect.quoting.write n)] ≠ chars c [.mark "*"] := by
  intro h
  have hstar : (f.dialect.quoting.write n).toList = ['*'] := by
    rw [chars_singleton, chars_singleton, Token.write, Token.write] at h
    exact h
  rcases f.quoting_write n with ⟨hn, hp⟩ | hn
  · have hmem : '*' ∈ n.toList := by rw [← hn, hstar]; exact List.mem_singleton_self _
    exact absurd (isPlain_isInner hp _ hmem) (by decide)
  · rw [hn] at hstar
    have hopener : f.lexis.opener = '*' := (List.cons.inj hstar).1
    cases f <;> exact absurd hopener (by decide)

end Reading

/-! ## Names of tables, and what is written of them -/

variable {f : Flavor} {c : LetterCase} {s : Site}

namespace Sql.Site

theorem tableName_of_none (hs : s.dialect = f.dialect) {t : Table} (h : t.database = none) :
    s.tableName t = [.name (f.dialect.quoting.write t.name)] := by
  rw [tableName, h, ← hs]
  rfl

theorem tableName_of_some (hs : s.dialect = f.dialect) {t : Table} {d : String}
    (h : t.database = some d) : s.tableName t =
      [.name (f.dialect.quoting.write d)] ++ .mark "." ::
        [.name (f.dialect.quoting.write t.name)] := by
  rw [tableName, h, ← hs]
  rfl

/-- Tables that are written the same are called the same. -/
theorem chars_tableName_iff (hs : s.dialect = f.dialect) {t u : Table} :
    chars c (s.tableName t) = chars c (s.tableName u) ↔ t.Namesake u := by
  constructor
  · intro h
    have alone {d m n : String} (h : chars c [.name (f.dialect.quoting.write m)] =
        chars c ([.name (f.dialect.quoting.write d)] ++
          .mark "." :: [.name (f.dialect.quoting.write n)])) : False := by
      have hnone := (pointless_name (f := f) (c := c) m).qualifier?
      rw [h, (pointless_name n).qualifier?_append (.name d)] at hnone
      cases hnone
    cases ht : t.database with
    | none =>
      rw [tableName_of_none hs ht] at h
      cases hu : u.database with
      | none =>
        rw [tableName_of_none hs hu] at h
        exact ⟨ht.trans hu.symm, chars_name_injective h⟩
      | some e =>
        rw [tableName_of_some hs hu] at h
        exact (alone h).elim
    | some d =>
      rw [tableName_of_some hs ht] at h
      cases hu : u.database with
      | none =>
        rw [tableName_of_none hs hu] at h
        exact (alone h.symm).elim
      | some e =>
        rw [tableName_of_some hs hu] at h
        obtain ⟨hdatabase, hname⟩ :=
          Pointless.append_inj (.name d) (.name e) (pointless_name _) (pointless_name _) h
        refine ⟨?_, chars_name_injective hname⟩
        rw [ht, hu, chars_name_injective hdatabase]
  · rintro ⟨hdatabase, hname⟩
    rw [tableName, tableName, hdatabase, hname]

end Sql.Site

theorem Expr.pointless_mention (hs : s.dialect = f.dialect) (x : Expr) :
    Pointless f c [x.mention s] := by
  unfold mention Site.name
  rw [hs]
  split
  · exact pointless_name _
  · exact pointless_star

theorem Expr.mention_eq_of_chars (hs : s.dialect = f.dialect) {x y : Expr}
    (h : Reading.chars c [x.mention s] = Reading.chars c [y.mention s]) :
      x.mention s = y.mention s := by
  unfold mention Site.name at h ⊢
  rw [hs] at h ⊢
  split at h <;> split at h
  · rw [chars_name_injective h]
  · exact absurd h (chars_name_ne_star _)
  · exact absurd h.symm (chars_name_ne_star _)
  · rfl

/-! ## References -/

/-- What is written of a reference, with its table if that is called for. -/
theorem Expr.qualifier?_reference (hs : s.dialect = f.dialect) (x : Expr) (t : Table) :
    qualifier? f (Reading.chars c ((if s.qualifies t then s.tableName t ++ [.mark "."] else []) ++
        [x.mention s])) =
      if s.qualifies t then some (Reading.chars c (s.tableName t)) else none := by
  have hmention := x.pointless_mention (c := c) hs
  split
  · rw [List.append_assoc]
    exact hmention.qualifier?_append (Site.tableName_woven hs t)
  · exact hmention.qualifier?

theorem Sql.Site.own_eq_singleton {t : Table} (h : ¬ s.qualifies t) : s.own = [t] := by
  obtain ⟨hlength, ht⟩ := not_or.mp h
  have ht : t ∈ s.own := not_not.mp ht
  cases hown : s.own with
  | nil =>
    rw [hown] at ht
    cases ht
  | cons u us =>
    cases us with
    | nil =>
      rw [hown] at ht
      rw [List.mem_singleton.mp ht]
    | cons v vs =>
      rw [hown] at hlength
      exact absurd (by simp) hlength

/-- A reference is read to belong to its table if it is not qualified, or if its table is the
innermost one of its name. -/
theorem Expr.resolve?_reference (hs : s.dialect = f.dialect) (x : Expr) (t : Table) :
    s.resolve? f c (Reading.chars c ((if s.qualifies t then s.tableName t ++ [.mark "."] else []) ++
        [x.mention s])) = some t ↔
      ¬ s.qualifies t ∨ (s.own ++ s.outer).find? (·.Namesake t) = some t := by
  rw [Site.resolve?, qualifier?_reference hs]
  by_cases h : s.qualifies t
  · have hname :
        (fun u => decide (Reading.chars c (s.tableName u) = Reading.chars c (s.tableName t))) =
          fun u => decide (u.Namesake t) := by
      funext u
      exact decide_eq_decide.mpr (Site.chars_tableName_iff hs)
    rw [if_pos h]
    dsimp only
    rw [hname]
    exact ⟨.inr, fun hor => hor.resolve_left (not_not.mpr h)⟩
  · rw [if_neg h, Site.own_eq_singleton h]
    exact ⟨fun _ => .inl h, fun _ => rfl⟩

/-- References to two tables are written the same if they are qualified, and the tables are called
the same, and what is written of each but for its table is the same. -/
theorem Expr.chars_reference_iff (hs : s.dialect = f.dialect) {x y : Expr} {t u : Table}
    (htu : t ≠ u) :
    Reading.chars c ((if s.qualifies t then s.tableName t ++ [.mark "."] else []) ++
      [x.mention s]) =
        Reading.chars c ((if s.qualifies u then s.tableName u ++ [.mark "."] else []) ++
          [y.mention s]) ↔
      s.qualifies t ∧ s.qualifies u ∧ t.Namesake u ∧ x.mention s = y.mention s := by
  constructor
  · intro h
    have hqualifier := congrArg (qualifier? f) h
    rw [qualifier?_reference hs, qualifier?_reference hs] at hqualifier
    by_cases ht : s.qualifies t <;> by_cases hu : s.qualifies u
    · simp only [ht, hu, if_true, List.append_assoc] at h hqualifier
      obtain ⟨-, hmention⟩ := Pointless.append_inj (Site.tableName_woven hs t)
        (Site.tableName_woven hs u) (x.pointless_mention hs) (y.pointless_mention hs) h
      exact ⟨ht, hu, (Site.chars_tableName_iff hs).mp (Option.some.inj hqualifier),
        mention_eq_of_chars hs hmention⟩
    · rw [if_pos ht, if_neg hu] at hqualifier
      cases hqualifier
    · rw [if_neg ht, if_pos hu] at hqualifier
      cases hqualifier
    · have hown := (Site.own_eq_singleton ht).symm.trans (Site.own_eq_singleton hu)
      exact absurd (List.singleton_injective hown) htu
  · rintro ⟨ht, hu, hname, hmention⟩
    rw [if_pos ht, if_pos hu, hmention, chars_append, chars_append, chars_append, chars_append,
      (Site.chars_tableName_iff hs).mpr hname]

/-- References to two tables, at one place in a statement that has a text, are written the same just
when both are qualified, the tables are called the same, and so are the columns. A reference is read
to belong to its table just when it is not qualified, or no other table called the same is further
in. -/
theorem Query.Made.resolve_of_compile {q : Query} (hq : q.Made) {f : Flavor} {finish : Finish}
    {text : String} (htext : q.compile f.dialect finish = .ok text) {s : Site} {x y : Expr}
    {t u : Table} (hx : q.Contains f.dialect [] s x) (ht : x.table? = some t)
    (hy : q.Contains f.dialect [] s y) (hu : y.table? = some u) :
    ∃ xs ys, x.write s = .ok xs ∧ y.write s = .ok ys ∧
      chars finish.letterCase xs <:+: text.toList ∧ chars finish.letterCase ys <:+: text.toList ∧
      (t ≠ u → (chars finish.letterCase xs = chars finish.letterCase ys ↔
        s.qualifies t ∧ s.qualifies u ∧ t.Namesake u ∧ x.mention s = y.mention s)) ∧
      (s.resolve? f finish.letterCase (chars finish.letterCase xs) = some t ↔
        ¬ s.qualifies t ∨ (s.own ++ s.outer).find? (·.Namesake t) = some t) := by
  have hs : s.dialect = f.dialect := (hq.allSound.contains_includes hx).1
  obtain ⟨-, xs, hxs, hxinfix, rfl⟩ := hq.exists_reference htext hx ht
  obtain ⟨-, ys, hys, hyinfix, rfl⟩ := hq.exists_reference htext hy hu
  exact ⟨_, _, hxs, hys, hxinfix, hyinfix, Expr.chars_reference_iff hs,
    Expr.resolve?_reference hs x t⟩

/-- The condition of a query within another one, on a column of each. -/
theorem Query.Made.resolve_of_compile_within :
    let t : Table := { serial := 0, name := "t" }
    let u : Table := { serial := 1, name := "u" }
    let a : Column := ⟨u, "b", .concrete .boolean⟩
    let b : Column := ⟨t, "b", .concrete .boolean⟩
    let both : Cond := .joined .both [.predicate (.column a), .predicate (.column b)]
    let inner : Query := { command := .statement .select, table := some u, filter := some both }
    let whole : Cond := .predicate (.subquery inner)
    let q : Query := { command := .statement .select, table := some t, filter := some whole }
    let s : Site := ⟨.generic, [u], [t]⟩
    let text := "select * from t where (select * from u where b and t.b);"
    q.Made ∧ q.compile .generic = .ok text ∧
      q.Contains .generic [] s (.column a) ∧ (Expr.column a).table? = some u ∧
      q.Contains .generic [] s (.column b) ∧ (Expr.column b).table? = some t ∧
      ∃ xs ys, (Expr.column a).write s = .ok xs ∧ (Expr.column b).write s = .ok ys ∧
        chars .lower xs <:+: text.toList ∧ chars .lower ys <:+: text.toList ∧
        (u ≠ t → (chars .lower xs = chars .lower ys ↔ s.qualifies u ∧ s.qualifies t ∧
          u.Namesake t ∧ (Expr.column a).mention s = (Expr.column b).mention s)) ∧
        (s.resolve? .generic .lower (chars .lower xs) = some u ↔
          ¬ s.qualifies u ∨ (s.own ++ s.outer).find? (·.Namesake u) = some u) := by
  intro t u a b both inner whole q s text
  let first : Cond := .predicate (.column a)
  have hfirst :
      ({ command := .statement .select, table := some u, filter := some first } : Query).Made :=
    Query.MadeOf.restricted .filter .plain (.selectFrom u) (.expr (.column a)) rfl
  have hinner : inner.Made :=
    Query.MadeOf.restricted .filter .both hfirst (.expr (.column b)) rfl
  have hq : q.Made :=
    Query.MadeOf.restricted .filter .plain (.selectFrom t) (.query (c := .select) hinner rfl) rfl
  have htext : q.compile .generic = .ok text := by decide +kernel
  have hwithin {x : Expr} (hx : x ∈ inner.exprs) : q.Contains .generic [] s x :=
    ⟨.subquery inner, List.mem_cons_self, .subquery hx (.self s x)⟩
  have hx := hwithin List.mem_cons_self
  have hy := hwithin (List.mem_cons_of_mem (Expr.column a) List.mem_cons_self)
  exact ⟨hq, htext, hx, rfl, hy, rfl,
    hq.resolve_of_compile (f := .generic) htext hx rfl hy rfl⟩

/-- A table joined with another one of its name: what the condition says of both is written, and
read, of one. -/
theorem Query.Made.reference_confused :
    let t : Table := { serial := 0, name := "t" }
    let u : Table := { serial := 1, name := "t" }
    let a : Column := ⟨t, "b", .concrete .boolean⟩
    let b : Column := ⟨u, "b", .concrete .boolean⟩
    let both : Cond := .joined .both [.predicate (.column a), .predicate (.column b)]
    let j : Join := ⟨.inner, u, some both, none⟩
    let q : Query := { command := .statement .select, table := some t, joins := [j] }
    let s : Site := ⟨.generic, [t, u], []⟩
    q.Made ∧ q.compile .generic = .ok "select t.*, t.* from t inner join t on t.b and t.b;" ∧
      q.Contains .generic [] s (.column a) ∧ (Expr.column a).table? = some t ∧
      q.Contains .generic [] s (.column b) ∧ (Expr.column b).table? = some u ∧
      t ≠ u ∧ s.Sees t ∧ s.Sees u ∧
      ∃ xs, (Expr.column a).write s = .ok xs ∧ (Expr.column b).write s = .ok xs ∧
        s.resolve? .generic .lower (chars .lower xs) = some t := by
  intro t u a b both j q s
  let first : Join := ⟨.inner, u, some (.predicate (.column a)), none⟩
  have hjoin :
      ({ command := .statement .select, table := some t,
         joins := [⟨.inner, u, none, none⟩] } : Query).Made :=
    .called (Query.MadeOf.selectFrom t) (@Query.Called.join _ _ _ _ .inner u rfl)
  have hfirst :
      ({ command := .statement .select, table := some t, joins := [first] } : Query).Made :=
    Query.MadeOf.restricted .pairing .plain hjoin (.expr (.column a)) rfl
  have hq : q.Made :=
    Query.MadeOf.restricted .pairing .both hfirst (.expr (.column b)) rfl
  have htext : q.compile .generic = .ok "select t.*, t.* from t inner join t on t.b and t.b;" := by
    decide +kernel
  have hx : q.Contains .generic [] s (.column a) := ⟨_, List.mem_cons_self, .self s _⟩
  have hy : q.Contains .generic [] s (.column b) :=
    ⟨_, List.mem_cons_of_mem _ List.mem_cons_self, .self s _⟩
  have hxs : (Expr.column a).write s = .ok [.name "t", .mark ".", .name "b"] := by decide +kernel
  have hys : (Expr.column b).write s = .ok [.name "t", .mark ".", .name "b"] := by decide +kernel
  have hread : s.resolve? .generic .lower
      (chars .lower [.name "t", .mark ".", .name "b"]) = some t := by
    decide +kernel
  exact ⟨hq, htext, hx, rfl, hy, rfl, by decide, by decide, by decide, _, hxs, hys, hread⟩

end SqlDraft
