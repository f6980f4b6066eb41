import SqlDraft.Proofs.Dialect.Grammar
import SqlDraft.Proofs.Layout.Tree

/-! What is written of a column, and of a value, is one piece (`Glued`), and none that is read as a
word. A whole statement, in parentheses, is known by the word that it begins with. -/

namespace SqlDraft.Reading

open Sql Nest

/-- The lexemes of tokens, each as it stands alone. -/
def lexed (f : Flavor) (c : LetterCase) (ts : Tokens) : List Lexeme :=
  ts.flatMap (lexemes f.lexis c)

def chars (c : LetterCase) (ts : Tokens) : List Char := (ts.write c).toList

/-- The tokens make one piece. -/
structure Glued (f : Flavor) (c : LetterCase) (ts : Tokens) : Prop where
  nest : ∀ n st, nestOnto (lexed f c ts) (n :: st) = glue (chars c ts) n :: st
  ne_nil : chars c ts ≠ []

variable {f : Flavor} {c : LetterCase}

theorem lexed_append (xs ys : Tokens) : lexed f c (xs ++ ys) = lexed f c xs ++ lexed f c ys :=
  List.flatMap_append

theorem lexed_cons (t : Token) (ts : Tokens) :
    lexed f c (t :: ts) = lexemes f.lexis c t ++ lexed f c ts := List.flatMap_cons

theorem chars_append (xs ys : Tokens) : chars c (xs ++ ys) = chars c xs ++ chars c ys := by
  simp [chars, write_toList]

theorem infix_chars {xs ts : Tokens} (h : xs <:+: ts) : chars c xs <:+: chars c ts := by
  obtain ⟨front, back, rfl⟩ := h
  rw [chars_append, chars_append]
  exact List.infix_append _ _ _

theorem chars_singleton (t : Token) : chars c [t] = (t.write c).toList := by
  simp [chars, write_toList]

theorem Glued.lies {ts : Tokens} (h : Glued f c ts) : Lies (lexed f c ts) := (lies_of_eq h.nest).1

theorem Glued.before {ts : Tokens} (h : Glued f c ts) (n : Nest) :
    before (lexed f c ts) n = glue (chars c ts) n := (lies_of_eq h.nest).2 n

theorem Glued.append {xs ys : Tokens} (hx : Glued f c xs) (hy : Glued f c ys) :
    Glued f c (xs ++ ys) where
  nest n st := by
    rw [lexed_append, nestOnto_append, hy.nest, hx.nest, glue_glue, chars_append]
  ne_nil := by simp [chars_append, hx.ne_nil]

/-! ## Single tokens -/

theorem glued_of_isPiece {t : Token}
    (hu : ∀ x ∈ (t.write c).toList, Flavor.isUnquoted x = true)
    (h : isPiece (t.write c).toList = true) : Glued f c [t] := by
  obtain ⟨hne, hs⟩ : (t.write c).toList ≠ [] ∧ ∀ x ∈ (t.write c).toList, isSolid x = true := by
    simpa [isPiece] using h
  refine ⟨fun n st => ?_, by rwa [chars_singleton]⟩
  rw [lexed, List.flatMap_singleton, lexemes_of_unquoted c t hu, chars_singleton]
  exact nestOnto_solid hne hs n st

theorem glued_word {w : String} (hw : Flavor.isWord w = true) (h : isPiece (c.write w) = true) :
    Glued f c [.word w] := glued_of_isPiece (word_isWord hw c).1 h

theorem isSolid_of_isInner {x : Char} (h : Quoting.isInner x = true) : isSolid x = true := by
  simp only [isSolid, Bool.not_eq_true', List.contains_eq_mem, List.mem_cons, List.not_mem_nil,
    or_false, decide_eq_false_iff_not]
  rintro (rfl | rfl | rfl | rfl) <;> exact absurd h (by decide)

theorem isSolid_of_isNumeral {x : Char} (h : Flavor.isNumeral x = true) : isSolid x = true := by
  simp only [isSolid, Bool.not_eq_true', List.contains_eq_mem, List.mem_cons, List.not_mem_nil,
    or_false, decide_eq_false_iff_not]
  rintro (rfl | rfl | rfl | rfl) <;> exact absurd h (by decide)

theorem write_ne_nil (f : Flavor) (n : String) : (f.dialect.quoting.write n).toList ≠ [] := by
  rcases f.quoting_write n with ⟨hn, hp⟩ | hn
  · rw [hn]
    intro h
    rw [Quoting.isPlain, h] at hp
    cases hp
  · rw [hn]
    exact List.cons_ne_nil _ _

theorem glued_lexeme {t : Token} {l : Lexeme} (h : lexemes f.lexis c t = [l])
    (hl : ∀ x, l ≠ .char x) (ht : l.text = (t.write c).toList) (hne : (t.write c).toList ≠ []) :
    Glued f c [t] := by
  refine ⟨fun n st => ?_, by rwa [chars_singleton]⟩
  rw [lexed, List.flatMap_singleton, h, nestOnto_lexeme hl, ht, chars_singleton]

theorem glued_name (n : String) : Glued f c [.name (f.dialect.quoting.write n)] := by
  have hne := write_ne_nil f n
  rcases lexemes_name (f := f) n c with ⟨hn, hp⟩ | h
  · refine glued_of_isPiece (isUnquoted_of_isFree (plain_isFree hn hp)) ?_
    have hs : ∀ x ∈ (f.dialect.quoting.write n).toList, isSolid x = true :=
      fun x hx => isSolid_of_isInner (isPlain_isInner hp x (hn ▸ hx))
    rw [isPiece, Bool.and_eq_true, Bool.not_eq_true', List.isEmpty_eq_false_iff, List.all_eq_true]
    exact ⟨hne, hs⟩
  · exact glued_lexeme h nofun rfl hne

theorem glued_number {x : Float} (h : Decimal.isFinite x = true) :
    Glued f c [.number (Decimal.text x)] := by
  obtain ⟨hne, hn⟩ := Flavor.decimal_isNumeral h
  refine glued_of_isPiece (decimal_isUnquoted x) ?_
  rw [isPiece, Bool.and_eq_true, Bool.not_eq_true', List.isEmpty_eq_false_iff, List.all_eq_true]
  exact ⟨hne, fun y hy => isSolid_of_isNumeral (hn y hy)⟩

theorem literal_ne_nil (f : Flavor) (v : List Char) : f.lexis.literal v ≠ [] := by
  unfold Lexis.literal
  split <;> exact List.cons_ne_nil _ _

theorem glued_string (v : String) : Glued f c [.literal (f.dialect.literals.string v)] :=
  glued_lexeme (lexemes_string v c) nofun (f.literals_string v).symm
    (by rw [Token.write, f.literals_string]; exact literal_ne_nil f _)

theorem glued_mark {m : String} (hm : m ∈ [".", ".*", "*"]) : Glued f c [.mark m] := by
  simp only [List.mem_cons, List.not_mem_nil, or_false] at hm
  rcases hm with rfl | rfl | rfl <;> cases c <;>
    exact glued_of_isPiece (List.all_eq_true.mp (by decide)) (by decide)

/-! ## Columns and values -/

/-- A text that is one piece, and is taken for no word at the beginning of an expression. -/
structure Inert (f : Flavor) (c : LetterCase) (ts : Tokens) : Prop extends Glued f c ts where
  notMem : chars c ts ∉ f.leadWords c

theorem not_mem_leadWords_of_mem {w : Word} {x : Char} (hx : x ∈ w) (ha : x.isAlpha = false) :
    w ∉ f.leadWords c := by
  intro hw
  have hall := (f.leadWords_reserved c hw).2.1 x hx
  rw [ha] at hall
  cases hall

theorem name_notMem (n : String) :
    (f.dialect.quoting.write n).toList ∉ f.leadWords c := by
  unfold Quoting.write
  split
  · next h =>
    rw [f.quote_toList]
    refine not_mem_leadWords_of_mem (x := f.lexis.opener) List.mem_cons_self ?_
    cases f <;> decide
  · next h =>
    intro hw
    have hr := (f.leadWords_reserved c hw).2.2.2
    rw [String.ofList_toList] at hr
    exact h (.inr (.inl hr))

theorem glued_tableName {s : Site} (hs : s.dialect = f.dialect) (t : Table) :
    Glued f c (s.tableName t) := by
  unfold Site.tableName Site.name
  rw [hs]
  split
  · exact glued_name _
  · exact ((glued_name _).append (glued_mark (by decide))).append (glued_name _)

/-- What is written of a column or a star is one piece, and no word, if it is so without its
table. -/
theorem inert_reference {s : Site} (hs : s.dialect = f.dialect) {t : Table} {written : Token}
    (hw : Inert f c [written]) {called : String} {ts : Tokens}
    (h : s.reference t written called = .ok ts) : Inert f c ts := by
  unfold Site.reference at h
  split at h
  · cases h
    split
    · refine ⟨(glued_tableName hs _).append ((glued_mark (by decide)).append hw.toGlued), ?_⟩
      refine not_mem_leadWords_of_mem (x := '.') ?_ (by decide)
      rw [chars_append]
      exact List.mem_append_right _ (by simp [chars, write_toList, Token.write])
    · exact hw
  · cases h

theorem inert_name {s : Site} (hs : s.dialect = f.dialect) (n : String) : Inert f c [s.name n] := by
  rw [Site.name, hs]
  refine ⟨glued_name _, ?_⟩
  rw [chars_singleton]
  exact name_notMem _

theorem inert_column {s : Site} (hs : s.dialect = f.dialect) {col : Column} {ts : Tokens}
    (h : s.column col = .ok ts) : Inert f c ts :=
  inert_reference hs (inert_name hs _) h

theorem inert_star {s : Site} (hs : s.dialect = f.dialect) {t : Table} {ts : Tokens}
    (h : s.star t = .ok ts) : Inert f c ts := by
  refine inert_reference hs ⟨glued_mark (by decide), ?_⟩ h
  exact not_mem_leadWords_of_mem (x := '*') (by simp [chars, write_toList, Token.write]) (by decide)

theorem quote_mem_literal (f : Flavor) (v : List Char) : '\'' ∈ f.lexis.literal v := by
  unfold Lexis.literal
  split <;> simp

theorem inert_string (v : String) : Inert f c [.literal (f.dialect.literals.string v)] := by
  refine ⟨glued_string v, not_mem_leadWords_of_mem (x := '\'') ?_ (by decide)⟩
  rw [chars_singleton, Token.write, f.literals_string]
  exact quote_mem_literal f _

theorem inert_keyword {s : Site} (hs : s.dialect = f.dialect) {k : Keyword}
    (h : k ∈ [.null, .truth true, .truth false]) : Inert f c [s.keyword k] := by
  obtain ⟨hp, hw⟩ := f.write_keyword_notMem_leadWords c h
  rw [Site.keyword, hs]
  refine ⟨glued_word (f.keywords_isWord k) hp, ?_⟩
  rw [chars_singleton]
  exact hw

theorem inert_number {x : Float} (h : Decimal.isFinite x = true) :
    Inert f c [.number (Decimal.text x)] := by
  refine ⟨glued_number h, fun hw => ?_⟩
  rw [chars_singleton] at hw
  obtain ⟨y, hy, hn⟩ := (f.leadWords_reserved c hw).2.2.1
  rw [(Flavor.decimal_isNumeral h).2 y hy] at hn
  cases hn

/-- A value is one piece, and no word. -/
theorem inert_literal {s : Site} (hs : s.dialect = f.dialect) {t : Ty} {v : Value} {ts : Tokens}
    (h : s.literal t v = .ok ts) : Inert f c ts := by
  cases v with
  | null => cases h; exact inert_keyword hs (by simp)
  | truth b => cases h; cases b <;> exact inert_keyword hs (by simp)
  | number x =>
    rw [Site.literal] at h
    split at h
    · next hx => cases h; exact inert_number hx
    · cases h
  | text v =>
    rw [Site.literal, hs] at h
    split at h <;> cases h
    · exact inert_string v
    · rw [f.literals_temporal]; exact inert_string v
  | date i =>
    cases i with
    | none => cases h
    | some i =>
      rw [Site.literal, hs] at h
      cases h
      rw [f.literals_temporal]
      exact inert_string _

/-! ## Words -/

/-- Pieces with a gap between each two. -/
def spread : List Word → Nest → Nest
  | [], n => n
  | [w], n => glue w n
  | w :: ws, n => glue w (space (spread ws n))

theorem isPiece_iff {w : Word} : isPiece w = true ↔ w ≠ [] ∧ ∀ x ∈ w, isSolid x = true := by
  simp [isPiece]

theorem nestOnto_spread {ws : List Word} (hne : ws ≠ []) (h : ∀ w ∈ ws, isPiece w = true)
    (n : Nest) (st : List Nest) :
    nestOnto (([' '].intercalate ws).map .char) (n :: st) = spread ws n :: st := by
  induction ws with
  | nil => exact absurd rfl hne
  | cons w ws ih =>
    obtain ⟨hw, hws⟩ := List.forall_mem_cons.mp h
    obtain ⟨hne', hs⟩ := isPiece_iff.mp hw
    cases ws with
    | nil =>
      rw [List.intercalate_singleton]
      exact nestOnto_solid hne' hs n st
    | cons v ws =>
      rw [List.intercalate_cons_cons, List.map_append, List.map_append, nestOnto_append,
        nestOnto_append, ih (List.cons_ne_nil _ _) hws]
      exact nestOnto_solid hne' hs _ st

theorem nestOnto_word {w : String} (hw : Flavor.isWord w = true)
    (h : ∀ v ∈ c.pieces w, isPiece v = true) (n : Nest) (st : List Nest) :
    nestOnto (lexed f c [.word w]) (n :: st) = spread (c.pieces w) n :: st := by
  have hlex : lexed f c [.word w] = (c.write w).map .char := by
    rw [lexed, List.flatMap_singleton]
    exact lexemes_of_unquoted c (.word w) (word_isWord hw c).1
  have hwrite : c.write w = [' '].intercalate (c.pieces w) :=
    (List.intercalate_splitOn ' ').symm
  rw [hlex, hwrite]
  exact nestOnto_spread (List.splitOn_ne_nil ' ' _) h n st

theorem lead_spread {ws : List Word} {n : Nest} (h : n.Parted) :
    (spread ws n).lead = ws.headD [] := by
  rcases ws with - | ⟨w, - | ⟨v, ws⟩⟩
  · cases n with
    | piece t n => exact h.elim
    | _ => rfl
  · rw [spread, glue_of_parted h]
    rfl
  · rfl

/-! ## Statements -/

/-- A statement begins with the keyword of its command. -/
theorem statement_opens {s : Site} {q : Query} {p : Parts} {ts : Tokens}
    (h : s.statement q p = .ok ts) :
    ∃ k, q.command = .statement k ∧ ∃ rest, ts = s.keyword k.opening :: Tokens.space :: rest := by
  have alone (k : Keyword) {l : List Tokens} (hl : l ≠ []) :
      ∃ rest, Tokens.spaced ([s.keyword k] :: l) = s.keyword k :: Tokens.space :: rest := by
    cases l with
    | nil => exact absurd rfl hl
    | cons t l =>
      exact ⟨_, by rw [Tokens.spaced, Tokens.separated, List.intercalate_cons_cons]; rfl⟩
  have introduced (k : Keyword) (us : Tokens) (l : List Tokens) : ∃ rest,
      Tokens.spaced (s.introduced k us :: l) = s.keyword k :: Tokens.space :: rest := by
    cases l with
    | nil => exact ⟨_, by rw [Tokens.spaced, Tokens.separated, List.intercalate_singleton]; rfl⟩
    | cons t l =>
      exact ⟨_, by rw [Tokens.spaced, Tokens.separated, List.intercalate_cons_cons]; rfl⟩
  obtain ⟨k, t, hk, -, -, h⟩ := Site.statement_eq_ok h
  refine ⟨k, hk, ?_⟩
  cases h with
  | select =>
    simp only [List.append_assoc, List.singleton_append]
    exact alone .select (by simp)
  | insert => exact introduced .insertInto _ _
  | update => exact introduced .update _ _
  | delete => exact introduced .deleteFrom _ _
  | create =>
    simp only [List.singleton_append]
    exact alone .createTable (by simp)
  | drop =>
    simp only [List.singleton_append]
    exact alone .dropTable (by simp)

theorem lexemes_space : lexemes f.lexis c Tokens.space = [.char ' '] :=
  (isMark_of_mem (by decide)).lexemes c

/-- The text of a whole statement begins with the word of its command. -/
theorem statement_begins {q : Query} {outer : List Table} {ts : Tokens}
    (h : q.write f.dialect outer = .ok ts) :
    Lies (lexed f c ts) ∧ ∃ k, q.command = .statement k ∧
      (before (lexed f c ts) nil).lead = f.opening c k := by
  have hlies : Lies (lexed f c ts) := (write_woven q outer h).lies c
  refine ⟨hlies, ?_⟩
  rw [Query.write_eq] at h
  obtain ⟨k, hk, rest, rfl⟩ := statement_opens h
  refine ⟨k, hk, ?_⟩
  have hopening : k.opening ∈ Flavor.openings :=
    Flavor.map_opening_all ▸ List.mem_map_of_mem (Statement.mem_all k)
  have hpieces : ∀ v ∈ c.pieces (f.dialect.keywords k.opening), isPiece v = true :=
    f.openings_pieces c hopening
  have hst := hlies nil []
  rw [lexed_cons, lexed_cons, lexemes_space, nestOnto_append, List.singleton_append,
    nestOnto_cons] at hst
  cases hrest : nestOnto (lexed f c rest) [nil] with
  | nil =>
    rw [hrest] at hst
    change nestOnto _ [] = _ at hst
    rw [nestOnto_nil] at hst
    cases hst
  | cons n st =>
    rw [hrest] at hst
    change nestOnto (lexemes _ _ _) (space n :: st) = _ at hst
    have hword :=
      nestOnto_word (f := f) (c := c) (f.keywords_isWord k.opening) hpieces (space n) st
    rw [lexed, List.flatMap_singleton] at hword
    have hlead := (List.cons.inj (hword.symm.trans hst)).1
    have hparted : (space n).Parted := trivial
    rw [lexed_cons, lexed_cons, lexemes_space, List.singleton_append, ← hlead,
      lead_spread hparted]
    rfl

/-- The text of a whole statement is known by its first word. -/
theorem statement_lead {q : Query} {outer : List Table} {ts : Tokens}
    (h : q.write f.dialect outer = .ok ts) :
    Lies (lexed f c ts) ∧ (before (lexed f c ts) nil).lead ∈ (f.grammar c).statements := by
  obtain ⟨hlies, k, -, hlead⟩ := statement_begins (c := c) h
  exact ⟨hlies, Flavor.mem_statements_iff.mpr ⟨k, hlead.symm⟩⟩

end SqlDraft.Reading
