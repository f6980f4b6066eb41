import SqlDraft.Proofs.Reading.Weave
import SqlDraft.Sql.Site

/-! Dotted names as a database reads them: parts with dots between them, each part either between
delimiters or bare. A table and a column behind its table are written so that the parts read are the
names, whatever is in these (`Site.dotted_read`); so what is read of one name is read of no
other. -/

namespace SqlDraft

open Reading Sql

namespace Reading

/-- A part of a dotted name. -/
structure Part where
  isDelimited : Bool
  name : String
deriving DecidableEq

/-- The part that a text begins with, and what follows it. A part that does not begin with the
opening delimiter goes up to the next dot. -/
def readPart (opener closer : Char) (s : List Char) : Option (Part × List Char) :=
  if s.head? = some opener then
    (readQuoted closer none s.tail).map fun r => (⟨true, String.ofList r.1⟩, r.2)
  else some (⟨false, String.ofList (s.takeWhile (· ≠ '.'))⟩, s.dropWhile (· ≠ '.'))

theorem readPart_length {opener closer : Char} {s rest : List Char} {p : Part}
    (h : readPart opener closer s = some (p, rest)) : rest.length ≤ s.length := by
  unfold readPart at h
  split at h
  · obtain ⟨⟨v, r⟩, hr, h⟩ := Option.map_eq_some_iff.mp h
    cases h
    exact ((readQuoted_suffix _ hr).trans (List.tail_suffix s)).length_le
  · cases h
    exact (List.dropWhile_suffix _).length_le

/-- The parts of a dotted name. -/
def readParts (opener closer : Char) (s : List Char) : Option (List Part) :=
  match _h : readPart opener closer s with
  | some (p, []) => some [p]
  | some (p, c :: rest) => if c = '.' then (readParts opener closer rest).map (p :: ·) else none
  | none => none
termination_by s.length
decreasing_by
  have := readPart_length _h
  rw [List.length_cons] at this
  omega

variable {opener closer : Char}

theorem readParts_last {s : List Char} {p : Part} (h : readPart opener closer s = some (p, [])) :
    readParts opener closer s = some [p] := by
  rw [readParts]
  split <;> simp_all

theorem readParts_dot {s rest : List Char} {p : Part}
    (h : readPart opener closer s = some (p, '.' :: rest)) :
    readParts opener closer s = (readParts opener closer rest).map (p :: ·) := by
  rw [readParts]
  split <;> simp_all

end Reading

/-! ## Quoting -/

namespace Quoting

/-- A quoting with single characters for delimiters: one of those at hand from the start, or one
with characters that are no dots and the first of which a bare name does not begin with. -/
inductive Delimits : Quoting → (opener closer : Char) → Prop
  | builtin (f : Flavor) : Delimits f.dialect.quoting f.lexis.opener f.lexis.closer
  | delimited {opener closer : Char} (reserved : List String) (mode : QuotingMode)
      (hopener : opener ≠ '.') (hcloser : closer ≠ '.') (hinner : isInner opener = false) :
      Delimits (.delimited (String.singleton opener)
        (String.singleton closer) reserved mode) opener closer

variable {q : Quoting} {opener closer : Char}

theorem Delimits.quote_toList (h : q.Delimits opener closer) (n : String) :
    (q.quote n).toList = opener :: closed closer none n.toList := by
  cases h with
  | builtin f => exact f.quote_toList n
  | delimited reserved mode =>
    show (String.ofList _).toList = _
    rw [String.toList_ofList, String.toList_singleton, String.toList_singleton, between_singleton]

theorem Delimits.closer_ne (h : q.Delimits opener closer) : closer ≠ '.' := by
  cases h with
  | builtin f => cases f <;> decide
  | delimited _ _ _ hcloser => exact hcloser

theorem Delimits.isInner_opener (h : q.Delimits opener closer) : isInner opener = false := by
  cases h with
  | builtin f => cases f <;> decide
  | delimited _ _ _ _ hinner => exact hinner

/-- A letter of the English alphabet or an underscore, with nothing but such letters, underscores
and digits behind it, that is not reserved when its letters are small. -/
structure Bare (q : Quoting) (n : String) : Prop where
  plain : ∃ c rest, n.toList = c :: rest ∧ (c.isAlpha = true ∨ c = '_') ∧
    ∀ x ∈ rest, x.isAlphanum = true ∨ x = '_'
  unreserved : n.map Char.toLower ∉ q.reserved

/-- A name that is not quoted is bare. -/
theorem write_eq (q : Quoting) (n : String) :
    q.write n = q.quote n ∨ q.write n = n ∧ isPlain n = true ∧ q.Bare n := by
  unfold write
  split
  · exact .inl rfl
  · next h =>
    obtain ⟨-, hreserved, hplain⟩ : q.mode ≠ .always ∧ q.isReserved n ≠ true ∧
      isPlain n = true := by
      simpa [not_or] using h
    refine .inr ⟨rfl, hplain, ?_, by simpa [isReserved] using hreserved⟩
    unfold isPlain at hplain
    split at hplain
    · cases hplain
    · next c rest hn =>
      obtain ⟨hc, hrest⟩ := Bool.and_eq_true_iff.mp hplain
      refine ⟨c, rest, hn, by simpa [isInitial] using hc, fun x hx => ?_⟩
      have hinner := List.all_eq_true.mp hrest x hx
      simp only [isInner, isInitial, Bool.or_eq_true, beq_iff_eq] at hinner
      rw [Char.isAlphanum, Bool.or_eq_true]
      tauto

/-- A name is read to its end where it is written, and if its part is bare, so is the name. -/
theorem Delimits.readPart (h : q.Delimits opener closer) (n : String) {rest : List Char}
    (hrest : rest = [] ∨ rest.head? = some '.') :
    ∃ p, Reading.readPart opener closer ((q.write n).toList ++ rest) = some (p, rest) ∧
      p.name = n ∧ (p.isDelimited = false → q.Bare n) := by
  rcases q.write_eq n with hw | ⟨hw, hplain, hbare⟩
  · have hhead : rest.head? ≠ some closer := by
      rcases hrest with rfl | hdot
      · exact nofun
      · rw [hdot]
        exact fun heq => h.closer_ne (Option.some.inj heq).symm
    -- a closing delimiter within is doubled, and a dot follows the last one, so reading stops there
    refine ⟨⟨true, n⟩, ?_, rfl, nofun⟩
    rw [hw, h.quote_toList, List.cons_append, Reading.readPart, List.head?_cons, if_pos rfl,
      List.tail_cons, readQuoted_closed _ hhead]
    simp
  · have hinner := isPlain_isInner hplain
    -- a bare name has no dot in it, and does not begin as a quoted one does
    have hhead : (n.toList ++ rest).head? ≠ some opener := by
      obtain ⟨c, tail, hn, -, -⟩ := hbare.plain
      have hc : isInner c = true := hinner c (hn ▸ List.mem_cons_self)
      rw [hn, List.cons_append, List.head?_cons]
      intro heq
      rw [Option.some.inj heq, h.isInner_opener] at hc
      cases hc
    have hdots : ∀ c ∈ n.toList, decide (c ≠ '.') = true := by
      intro c hc
      have hne : c ≠ '.' := fun heq => absurd (heq ▸ hinner c hc) (by decide)
      exact decide_eq_true hne
    have htake : rest.takeWhile (· ≠ '.') = [] ∧ rest.dropWhile (· ≠ '.') = rest := by
      cases rest with
      | nil => exact ⟨rfl, rfl⟩
      | cons c tail =>
        obtain rfl : c = '.' := by simpa using hrest
        exact ⟨rfl, rfl⟩
    refine ⟨⟨false, n⟩, ?_, rfl, fun _ => hbare⟩
    rw [hw, Reading.readPart, if_neg hhead, List.takeWhile_append_of_pos hdots,
      List.dropWhile_append_of_pos hdots, htake.1, htake.2, List.append_nil, String.ofList_toList]

/-- The text is read as these names, each of them between delimiters or bare. -/
def Reads (q : Quoting) (opener closer : Char) (text : String) (names : List String) : Prop :=
  ∃ parts, readParts opener closer text.toList = some parts ∧ parts.map Part.name = names ∧
    ∀ p ∈ parts, p.isDelimited = false → q.Bare p.name

/-- A text is read in one way. -/
theorem Reads.unique {text : String} {ms ns : List String} (hm : q.Reads opener closer text ms)
    (hn : q.Reads opener closer text ns) : ms = ns := by
  obtain ⟨ps, hps, rfl, -⟩ := hm
  obtain ⟨ps', hps', rfl, -⟩ := hn
  rw [hps] at hps'
  rw [Option.some.inj hps']

/-- Names with dots between them are read as they are. -/
theorem Delimits.reads (h : q.Delimits opener closer) {text : String} {n : String}
    {ns : List String}
    (htext : text.toList = ['.'].intercalate ((n :: ns).map fun m => (q.write m).toList)) :
    q.Reads opener closer text (n :: ns) := by
  unfold Reads
  rw [htext]
  clear htext
  -- on the names behind the first one, which a dot follows if there are any
  induction ns generalizing n with
  | nil =>
    obtain ⟨p, hp, hname, hbare⟩ := h.readPart n (.inl rfl)
    rw [List.append_nil] at hp
    refine ⟨[p], ?_, by rw [List.map_singleton, hname], ?_⟩
    · rw [List.map_singleton, List.intercalate_singleton]
      exact readParts_last hp
    · exact List.forall_mem_singleton.mpr fun hd => hname ▸ hbare hd
  | cons m ns ih =>
    obtain ⟨parts, hparts, hnames, hbares⟩ := @ih m
    obtain ⟨tail, htail⟩ :
      ∃ tail, tail = ['.'].intercalate ((m :: ns).map fun m => (q.write m).toList) :=
      ⟨_, rfl⟩
    have hcons : ['.'].intercalate ((n :: m :: ns).map fun m => (q.write m).toList) =
        (q.write n).toList ++ '.' :: tail := by
      rw [htail, List.map_cons, List.map_cons, List.intercalate_cons_cons, List.append_assoc]
      rfl
    have hdot : ('.' :: tail).head? = some '.' := rfl
    obtain ⟨p, hp, hname, hbare⟩ := h.readPart n (.inr hdot)
    refine ⟨p :: parts, ?_, by rw [List.map_cons, hname, hnames], ?_⟩
    · rw [hcons, readParts_dot hp, htail, hparts, Option.map_some]
    · exact List.forall_mem_cons.mpr ⟨fun hd => hname ▸ hbare hd, hbares⟩

end Quoting

/-! ## Tables and columns -/

/-- The names that a table is written with. -/
def Table.path (t : Table) : List String := t.database.toList ++ [t.name]

/-- The names that a column is written with behind its table. -/
def Column.path (x : Column) : List String := x.table.database.toList ++ [x.table.name, x.name]

theorem Table.path_inj {t u : Table} (h : t.path = u.path) :
    t.database = u.database ∧ t.name = u.name := by
  unfold path at h
  cases ht : t.database <;> cases hu : u.database <;> simp_all

theorem Column.path_inj {x y : Column} (h : x.path = y.path) :
    x.table.database = y.table.database ∧ x.table.name = y.table.name ∧ x.name = y.name := by
  unfold path at h
  cases hx : x.table.database <;> cases hy : y.table.database <;> simp_all

namespace Sql.Site

variable {s s' : Site} {opener closer : Char}

theorem tableName_reads (h : s.dialect.quoting.Delimits opener closer)
    (c : LetterCase) (t : Table) :
    s.dialect.quoting.Reads opener closer ((s.tableName t).write c) t.path := by
  unfold tableName Table.path
  cases t.database <;> exact h.reads (by simp [Reading.write_toList, Token.write, name])

/-- How a column is written behind its table. -/
theorem column_eq {x : Column} (hx : s.Sees x.table) (hq : s.qualifies x.table) :
    s.column x = .ok (s.tableName x.table ++ [.mark ".", s.name x.name]) := by
  rw [column, reference, if_pos hx, if_pos hq]

theorem column_reads (h : s.dialect.quoting.Delimits opener closer) (c : LetterCase) {x : Column}
    (hq : s.qualifies x.table) {ts : Tokens} (hts : s.column x = .ok ts) :
    s.dialect.quoting.Reads opener closer (ts.write c) x.path := by
  by_cases hx : s.Sees x.table
  · rw [column_eq hx hq] at hts
    cases hts
    unfold tableName Column.path
    cases x.table.database <;> exact h.reads (by simp [Reading.write_toList, Token.write, name])
  · rw [column, reference, if_neg hx] at hts
    cases hts

/-- The text of a table, or of a column behind its table, is read part by part as the names that it
is written with, and a part without delimiters is a bare name; so different names never have the
same text. -/
theorem dotted_read (h : s.dialect.quoting.Delimits opener closer) (hs : s'.dialect = s.dialect)
    (c : LetterCase) :
    (∀ t : Table, s.dialect.quoting.Reads opener closer ((s.tableName t).write c)
      (t.database.toList ++ [t.name])) ∧
    (∀ x : Column, s.Sees x.table → s.qualifies x.table → ∃ ts, s.column x = .ok ts ∧
      s.dialect.quoting.Reads opener closer (ts.write c)
        (x.table.database.toList ++ [x.table.name, x.name])) ∧
    (∀ t u : Table, (s.tableName t).write c = (s'.tableName u).write c →
      t.database = u.database ∧ t.name = u.name) ∧
    ∀ (x y : Column) (ts us : Tokens), s.qualifies x.table → s'.qualifies y.table →
      s.column x = .ok ts → s'.column y = .ok us → ts.write c = us.write c →
      x.table.database = y.table.database ∧ x.table.name = y.table.name ∧ x.name = y.name := by
  have h' : s'.dialect.quoting.Delimits opener closer := hs ▸ h
  refine ⟨tableName_reads h c,
    fun x hx hq => ⟨_, column_eq hx hq, column_reads h c hq (column_eq hx hq)⟩, fun t u htext => ?_,
    fun x y ts us hx hy hts hus htext => ?_⟩
  · have hu := tableName_reads h' c u
    rw [hs, ← htext] at hu
    exact Table.path_inj ((tableName_reads h c t).unique hu)
  · have hy := column_reads h' c hy hus
    rw [hs, ← htext] at hy
    exact Column.path_inj ((column_reads h c hx hts).unique hy)

/-- Names with dots, delimiters and reserved words in them, where a letter is the closing
delimiter. -/
theorem dotted_read_letter :
    let quoting : Quoting := .delimited (String.singleton '<') (String.singleton 'n') ["on"]
    let t : Table := { serial := 0, name := "a.n<", database := some "on" }
    let u : Table := { serial := 1, name := "a.n<", database := some "on" }
    let s : Site := ⟨Dialect.generic.extend { name := "own", quoting := some quoting }, [t, u], []⟩
    let x : Column := ⟨t, "Zo", .any⟩
    let y : Column := ⟨u, "Zo", .any⟩
    let ts : Tokens := s.tableName t ++ [.mark ".", s.name "Zo"]
    quoting.Delimits '<' 'n' ∧ ts.write .upper = "<onnn.<a.nn<n.Zo" ∧
      quoting.Reads '<' 'n' ((s.tableName t).write .upper) ["on", "a.n<"] ∧
      (s.Sees x.table ∧ s.qualifies x.table ∧
        ∃ ts, s.column x = .ok ts ∧ quoting.Reads '<' 'n' (ts.write .upper) ["on", "a.n<", "Zo"]) ∧
      (s.tableName t).write .upper = (s.tableName u).write .upper ∧ t.name = u.name ∧
      s.column x = .ok ts ∧ s.column y = .ok ts ∧ x.name = y.name := by
  intro quoting t u s x y ts
  have h : quoting.Delimits '<' 'n' :=
    .delimited ["on"] .asNeeded (by decide) (by decide) (by decide)
  have hsees : s.Sees x.table ∧ s.Sees y.table := by decide
  have hq : s.qualifies x.table ∧ s.qualifies y.table := by decide
  have hx : s.column x = .ok ts := column_eq hsees.1 hq.1
  have hy : s.column y = .ok ts := column_eq hsees.2 hq.2
  obtain ⟨htable, hcolumn, htables, hcolumns⟩ := @dotted_read s s _ _ h rfl .upper
  exact ⟨h, by decide +kernel, htable t, ⟨hsees.1, hq.1, hcolumn x hsees.1 hq.1⟩, rfl,
    (htables t u rfl).2, hx, hy, (hcolumns x y ts ts hq.1 hq.2 hx hy rfl).2.2⟩

end Sql.Site

end SqlDraft
