import Mathlib.Data.List.Infix
import SqlDraft.Proofs.Reading.Atom

/-! Reading expressions piece by piece. `Says` relates the tokens of an expression to the phrase
that is read of them wherever an operand may stand: behind other operands, and behind words in
front. What the rules of a dialect put together says what its parts say, put together
(`Says.between`, `Says.front`, `Says.behind`, `Says.among`, `Says.call`). -/

namespace SqlDraft.Reading

open Sql Nest Phrase Grammar

variable {f : Flavor} {c : LetterCase} {s : Site}

/-! ## Reading on -/

/-- From one place the lexemes lead to another, if the last piece does not go on behind them. -/
structure Takes (g : Grammar) (ls : List Lexeme) (p p' : Place) : Prop where
  lies : Lies ls
  run : ∀ n, n.Parted → g.run (Reading.before ls n) p = g.run n p'

/-- In the place of an operand, the lexemes are read as an expression. -/
def Reads (g : Grammar) (ls : List Lexeme) (items : List Phrase) (left : Left) (ws : List Word)
    (x : Phrase) : Prop :=
  ∃ m, Takes g ls ⟨items, .operand left ws⟩ ⟨items, m⟩ ∧ g.settled? m = some x

variable {g : Grammar}

theorem piece_of_settled {m : Mode} {x : Phrase} (h : g.settled? m = some x) (items : List Phrase)
    (t : Word) : g.piece ⟨items, m⟩ t = g.operator items x t := by
  cases m with
  | operand _ _ => cases h
  | judging _ _ => cases h
  | sought _ _ => cases h
  | named l ws u => cases h; rfl
  | complete y => cases h; rfl

theorem finish_of_settled {m : Mode} {x : Phrase} (h : g.settled? m = some x)
    (items : List Phrase) : g.finish ⟨items, m⟩ = some (items ++ [x]) := by
  have hm : g.finish ⟨items, m⟩ = (g.settled? m).map fun x => items ++ [x] := by
    cases m with
    | operand _ _ => cases h
    | _ => cases items <;> rfl
  rw [hm, h]
  rfl

theorem comma_of_settled {m : Mode} {x : Phrase} (h : g.settled? m = some x)
    (items : List Phrase) :
    g.comma ⟨items, m⟩ = some ⟨items ++ [x], .operand none []⟩ := by
  rw [Grammar.comma, h]
  rfl

/-- An expression that stands alone. -/
theorem Reads.readAll {ls : List Lexeme} {x : Phrase} (h : Reads g ls [] none [] x) :
    g.readAll (Reading.before ls nil) = some [x] := by
  obtain ⟨m, ht, hm⟩ := h
  rw [Grammar.readAll, start, ht.run nil trivial]
  exact finish_of_settled hm []

theorem Takes.append {xs ys : List Lexeme} {p p' p'' : Place} (hx : Takes g xs p p')
    (hy : Takes g ys p' p'') (hp : ∀ n, n.Parted → (Reading.before ys n).Parted) :
    Takes g (xs ++ ys) p p'' where
  lies := hx.lies.append hy.lies
  run n hn := by
    rw [before_append hx.lies hy.lies, hx.run _ (hp n hn), hy.run n hn]

/-! ## Words between, in front and behind -/

theorem nestOnto_space (n : Nest) (st : List Nest) :
    nestOnto (lexed f c [Tokens.space]) (n :: st) = space n :: st := by
  rw [lexed, List.flatMap_singleton, lexemes_space]
  rfl

theorem nestOnto_spaced {w : String} (hw : Flavor.isWord w = true)
    (h : ∀ v ∈ c.pieces w, isPiece v = true) (n : Nest) (st : List Nest) :
    nestOnto (lexed f c [Tokens.space, .word w]) (n :: st) =
      space (spread (c.pieces w) n) :: st := by
  rw [show [Tokens.space, .word w] = [Tokens.space] ++ [.word w] from rfl, lexed_append,
    nestOnto_append, nestOnto_word hw h, nestOnto_space]

theorem pieces_of_isPiece {w : String} (h : isPiece (c.write w) = true) :
    c.pieces w = [c.write w] := by
  have hs : ∀ l ∈ [c.write w], ' ' ∉ l := by
    intro l hl hm
    rw [List.mem_singleton.mp hl] at hm
    exact absurd ((isPiece_iff.mp h).2 ' ' hm) (by decide)
  have hsplit := List.splitOn_intercalate ' ' hs (List.cons_ne_nil _ _)
  rwa [List.intercalate_singleton] at hsplit

/-- A word with a gap on either side. -/
theorem nestOnto_between {w : String} (hw : Flavor.isWord w = true)
    (h : isPiece (c.write w) = true) (n : Nest) (st : List Nest) :
    nestOnto (lexed f c [Tokens.space, .word w, Tokens.space]) (n :: st) =
      space (piece (c.write w) (space n)) :: st := by
  have hp := pieces_of_isPiece h
  have hall : ∀ v ∈ c.pieces w, isPiece v = true := by
    rw [hp]
    exact fun v hv => List.mem_singleton.mp hv ▸ h
  rw [show [Tokens.space, .word w, Tokens.space] = [Tokens.space, .word w] ++ [Tokens.space]
    from rfl, lexed_append, nestOnto_append, nestOnto_space, nestOnto_spaced hw hall, hp]
  rfl

/-- A word with a gap behind it. -/
theorem nestOnto_front {w : String} (hw : Flavor.isWord w = true)
    (h : isPiece (c.write w) = true) (n : Nest) (st : List Nest) :
    nestOnto (lexed f c [.word w, Tokens.space]) (n :: st) =
      piece (c.write w) (space n) :: st := by
  have hp := pieces_of_isPiece h
  have hall : ∀ v ∈ c.pieces w, isPiece v = true := by
    rw [hp]
    exact fun v hv => List.mem_singleton.mp hv ▸ h
  rw [show [.word w, Tokens.space] = [.word w] ++ [Tokens.space] from rfl, lexed_append,
    nestOnto_append, nestOnto_space, nestOnto_word hw hall, hp]
  rfl

/-- An operator behind an expression, and what is read behind that. -/
theorem Takes.operator {xs ys : List Lexeme} {p : Place} {items : List Phrase} {m : Mode}
    {x : Phrase} {w : String} {r : Place} (hx : Takes g xs p ⟨items, m⟩)
    (hm : g.settled? m = some x) (hw : Flavor.isWord w = true) (hp : isPiece (c.write w) = true)
    (hprec : (g.precedence? (c.write w)).isSome)
    (hy : Takes g ys ⟨items, .operand (some (x, c.write w)) []⟩ r) :
    Takes g (xs ++ lexed f c [Tokens.space, .word w, Tokens.space] ++ ys) p r := by
  obtain ⟨hlies, hbefore⟩ := lies_of_eq (nestOnto_between (f := f) hw hp)
  have hnext : Takes g (lexed f c [Tokens.space, .word w, Tokens.space] ++ ys) ⟨items, m⟩ r := by
    refine ⟨hlies.append hy.lies, fun n hn => ?_⟩
    rw [before_append hlies hy.lies, hbefore]
    show (g.piece ⟨items, m⟩ _).bind _ = _
    rw [piece_of_settled hm, Grammar.operator, if_pos hprec]
    exact hy.run n hn
  rw [List.append_assoc]
  refine hx.append hnext fun n _ => ?_
  rw [before_append hlies hy.lies, hbefore]
  trivial

/-- A word in front of an operand. -/
theorem Reads.front {ys : List Lexeme} {items : List Phrase} {left : Left} {ws : List Word}
    {x : Phrase} {w : String} (hw : Flavor.isWord w = true) (hp : isPiece (c.write w) = true)
    (hpre : c.write w ∈ g.prefixes) (hy : Reads g ys items left (ws ++ [c.write w]) x) :
    Reads g (lexed f c [.word w, Tokens.space] ++ ys) items left ws x := by
  obtain ⟨hlies, hbefore⟩ := lies_of_eq (nestOnto_front (f := f) hw hp)
  obtain ⟨m, ht, hm⟩ := hy
  refine ⟨m, ⟨hlies.append ht.lies, fun n hn => ?_⟩, hm⟩
  rw [before_append hlies ht.lies, hbefore]
  show (g.piece ⟨items, .operand left ws⟩ _).bind _ = _
  rw [piece_operand, if_pos hpre]
  exact ht.run n hn

/-- All words but the last leave it open what is meant. -/
theorem run_judging {items : List Phrase} {x : Phrase} {n : Nest} (hn : n.Parted) :
    ∀ (rest done : List Word), rest ≠ [] → done ++ rest ∈ g.postfixes →
      (∀ ws, ws <+: done ++ rest → ws ≠ done ++ rest → ws ∉ g.postfixes) →
      g.run (spread rest n) ⟨items, .judging x done⟩ =
        g.run n ⟨items, .complete (x.onLast (.judged · (done ++ rest)))⟩ := by
  intro rest
  induction rest with
  | nil => exact fun _ h => absurd rfl h
  | cons w rest ih =>
    intro done _ hmem hopen
    cases rest with
    | nil =>
      rw [spread, glue_of_parted hn]
      show (g.judge items x (done ++ [w])).bind _ = _
      rw [judge, if_pos hmem]
      rfl
    | cons v rest =>
      have hpre : done ++ [w] <+: done ++ w :: v :: rest := ⟨v :: rest, by simp⟩
      have hne : done ++ [w] ≠ done ++ w :: v :: rest := by simp
      show (g.judge items x (done ++ [w])).bind _ = _
      rw [judge, if_neg (hopen _ hpre hne), if_pos]
      · show g.run (spread (v :: rest) n) ⟨items, .judging x (done ++ [w])⟩ = _
        have hcons : done ++ w :: v :: rest = done ++ [w] ++ v :: rest := by simp
        rw [hcons] at hmem hopen ⊢
        exact ih (done ++ [w]) (List.cons_ne_nil _ _) hmem hopen
      · exact List.any_eq_true.mpr ⟨_, hmem, List.isPrefixOf_iff_prefix.mpr hpre⟩

/-- Words behind an operand. -/
theorem Reads.behind {xs : List Lexeme} {items : List Phrase} {left : Left} {ws : List Word}
    {x : Phrase} {w : String} (hx : Reads g xs items left ws x) (hw : Flavor.isWord w = true)
    (hs : g.speaks c (.after w) = true) :
    Reads g (xs ++ lexed f c [Tokens.space, .word w]) items left ws
      (x.onLast (.judged · (c.pieces w))) := by
  simp only [Grammar.speaks, Bool.and_eq_true, List.all_eq_true, List.contains_eq_mem,
    decide_eq_true_eq, Bool.or_eq_true, beq_iff_eq, Bool.not_eq_true', decide_eq_false_iff_not,
    List.mem_inits] at hs
  obtain ⟨⟨⟨hpieces, hmem⟩, hhead⟩, hopen⟩ := hs
  obtain ⟨hlies, hbefore⟩ := lies_of_eq (nestOnto_spaced (f := f) hw hpieces)
  obtain ⟨m, ht, hm⟩ := hx
  refine ⟨.complete (x.onLast (.judged · (c.pieces w))), ?_, rfl⟩
  refine ht.append ⟨hlies, fun n hn => ?_⟩ fun n _ => by rw [hbefore]; trivial
  rw [hbefore]
  cases hws : c.pieces w with
  | nil => exact absurd hws (List.splitOn_ne_nil ' ' _)
  | cons v vs =>
    rw [hws] at hmem hhead hopen
    obtain ⟨hprec, hmembers⟩ : g.precedence? v = none ∧ v ∉ g.memberships := by
      simpa using hhead
    obtain ⟨n', hn'⟩ : ∃ n', spread (v :: vs) n = piece v n' := by
      cases vs with
      | nil => exact ⟨n, glue_of_parted hn v⟩
      | cons u us => exact ⟨_, rfl⟩
    have hjudging : g.run (spread (v :: vs) n) ⟨items, .judging x []⟩ = _ :=
      run_judging hn (v :: vs) [] (List.cons_ne_nil _ _) hmem
        fun ws hpre hne => (hopen ws hpre).resolve_left hne
    rw [List.nil_append, hn'] at hjudging
    rw [hn', ← hjudging]
    show (g.piece ⟨items, m⟩ v).bind _ = (g.piece ⟨items, .judging x []⟩ v).bind _
    rw [piece_of_settled hm, piece_judging, Grammar.operator, hprec, if_neg (by simp),
      if_neg hmembers]
    rfl

/-! ## Parentheses -/

theorem lexed_enclosed (ts : Tokens) :
    lexed f c ts.enclosed = .char '(' :: lexed f c ts ++ [.char ')'] := by
  simp [lexed, Tokens.enclosed, IsMark.opening.lexemes, IsMark.closing.lexemes]

theorem Reads.enclosed {ts : Tokens} {x : Phrase} (h : Reads g (lexed f c ts) [] none [] x)
    (hlead : (Reading.before (lexed f c ts) nil).lead ∉ g.statements) (items : List Phrase)
    (left : Left) (ws : List Word) :
    Reads g (lexed f c ts.enclosed) items left ws (g.behind left (negate ws (.grouped x))) := by
  have hlies : Lies (lexed f c ts) := h.choose_spec.1.lies
  have hread : (g.run (Reading.before (lexed f c ts) nil) start).bind g.finish = some [x] :=
    h.readAll
  rw [lexed_enclosed]
  refine ⟨.complete _, ⟨hlies.enclosed, fun n _ => ?_⟩, rfl⟩
  rw [before_enclosed hlies]
  show (g.group ⟨items, .operand left ws⟩ _ _).bind _ = _
  rw [hread, Grammar.group]
  dsimp only
  rw [if_neg hlead]
  rfl

theorem flatMap_text_lexed (ts : Tokens) : (lexed f c ts).flatMap Lexeme.text = chars c ts := by
  rw [lexed, List.flatMap_assoc, chars, write_toList]
  exact List.flatMap_congr fun t _ => flatMap_text_scan _ _

theorem chars_enclosed (ts : Tokens) : chars c ts.enclosed = '(' :: chars c ts ++ [')'] := by
  simp [chars, write_toList, Tokens.enclosed, Token.write]

/-- A whole statement, taken as it is. -/
theorem reads_statement {q : Query} {outer : List Table} {ts : Tokens}
    (h : q.write f.dialect outer = .ok ts) (items : List Phrase) (left : Left) (ws : List Word) :
    Reads (f.grammar c) (lexed f c ts.enclosed) items left ws
      ((f.grammar c).behind left (negate ws (.atom (chars c ts.enclosed)))) := by
  obtain ⟨hlies, hlead⟩ := statement_lead (c := c) h
  have htext : '(' :: (Reading.before (lexed f c ts) nil).text ++ [')'] = chars c ts.enclosed := by
    rw [text_before hlies, flatMap_text_lexed, chars_enclosed, Nest.text, List.append_nil]
  rw [lexed_enclosed]
  refine ⟨.complete _, ⟨hlies.enclosed, fun n _ => ?_⟩, rfl⟩
  rw [before_enclosed hlies]
  show ((f.grammar c).group ⟨items, .operand left ws⟩ _ _).bind _ = _
  rw [Grammar.group]
  dsimp only
  rw [if_pos hlead, htext]
  rfl

/-- One piece in the place of an operand. -/
theorem Inert.reads {ts : Tokens} (h : Inert f c ts) (items : List Phrase) (left : Left)
    (ws : List Word) :
    Reads (f.grammar c) (lexed f c ts) items left ws
      ((f.grammar c).behind left (negate ws (.atom (chars c ts)))) := by
  refine ⟨.named left ws (chars c ts), ⟨h.lies, fun n hn => ?_⟩, rfl⟩
  rw [h.before, glue_of_parted hn]
  show ((f.grammar c).piece ⟨items, .operand left ws⟩ _).bind _ = _
  rw [piece_operand, if_neg fun hm => h.notMem (List.mem_append_left _ hm)]
  rfl

theorem Inert.lead {ts : Tokens} (h : Inert f c ts) {n : Nest} (hn : n.Parted) :
    (Reading.before (lexed f c ts) n).lead ∉ (f.grammar c).statements := by
  rw [h.before, glue_of_parted hn]
  exact fun hm => h.notMem (List.mem_append_right _ hm)

/-! ## Lists -/

theorem nestOnto_comma (n : Nest) (st : List Nest) :
    nestOnto (lexed f c Tokens.comma) (n :: st) = Nest.comma (space n) :: st := by
  have hl : lexed f c Tokens.comma = [.char ',', .char ' '] := by
    rw [lexed, Tokens.comma, List.flatMap_singleton]
    exact (isMark_of_mem (by decide)).lexemes c
  rw [hl]
  rfl

/-- Expressions with a comma between each two, behind others. -/
theorem run_listed {α : Type} {tokens : α → Tokens} {phrase : α → Phrase} {l : List α}
    (h : ∀ a ∈ l, ∀ items, Reads g (lexed f c (tokens a)) items none [] (phrase a))
    (hne : l ≠ []) (items : List Phrase) :
    Lies (lexed f c (Tokens.listed (l.map tokens))) ∧
      (g.run (Reading.before (lexed f c (Tokens.listed (l.map tokens))) nil)
        ⟨items, .operand none []⟩).bind g.finish = some (items ++ l.map phrase) := by
  induction l generalizing items with
  | nil => exact absurd rfl hne
  | cons a l ih =>
    obtain ⟨ha, hl⟩ := List.forall_mem_cons.mp h
    obtain ⟨m, ht, hm⟩ := ha items
    cases l with
    | nil =>
      have hone : Tokens.listed ([a].map tokens) = tokens a := by
        rw [Tokens.listed, Tokens.separated, List.map_singleton, List.intercalate_singleton]
      rw [hone, ht.run nil trivial]
      exact ⟨ht.lies, finish_of_settled hm items⟩
    | cons b l =>
      obtain ⟨hlies, hrun⟩ := ih hl (List.cons_ne_nil _ _) (items ++ [phrase a])
      obtain ⟨hcomma, hbefore⟩ := lies_of_eq (nestOnto_comma (f := f) (c := c))
      have hcons : lexed f c (Tokens.listed ((a :: b :: l).map tokens)) =
          lexed f c (tokens a) ++
            (lexed f c Tokens.comma ++ lexed f c (Tokens.listed ((b :: l).map tokens))) := by
        rw [← lexed_append, ← lexed_append, Tokens.listed, Tokens.listed, Tokens.separated,
          Tokens.separated, List.map_cons, List.map_cons, List.intercalate_cons_cons,
          List.append_assoc]
      have hparted : (Nest.comma (space (Reading.before
          (lexed f c (Tokens.listed ((b :: l).map tokens))) nil))).Parted := trivial
      rw [hcons]
      refine ⟨ht.lies.append (hcomma.append hlies), ?_⟩
      rw [before_append ht.lies (hcomma.append hlies), before_append hcomma hlies, hbefore,
        ht.run _ hparted]
      show ((g.comma ⟨items, m⟩).bind _).bind _ = _
      rw [comma_of_settled hm]
      change (g.run (Reading.before (lexed f c (Tokens.listed ((b :: l).map tokens))) nil)
        ⟨items ++ [phrase a], .operand none []⟩).bind g.finish = _
      rw [hrun, List.append_assoc]
      rfl

theorem readAll_listed {α : Type} {tokens : α → Tokens} {phrase : α → Phrase} {l : List α}
    (h : ∀ a ∈ l, ∀ items, Reads g (lexed f c (tokens a)) items none [] (phrase a)) :
    Lies (lexed f c (Tokens.listed (l.map tokens))) ∧
      (g.run (Reading.before (lexed f c (Tokens.listed (l.map tokens))) nil) start).bind
        g.finish = some (l.map phrase) := by
  cases l with
  | nil => exact ⟨lies_nil, rfl⟩
  | cons a l => exact run_listed h (List.cons_ne_nil _ _) []

/-! ## Expressions -/

theorem isWord_of_word? {n w : String} {r : Rule} (h : f.dialect.rule? n = some r)
    (hw : r.word? = some w) : Flavor.isWord w = true := by
  rcases f.isWord_of_rule? h with ⟨v, hv, hword⟩ | rfl
  · rw [hw] at hv
    cases hv
    exact hword
  · cases hw

theorem nil_notMem_statements : [] ∉ (f.grammar c).statements := fun h =>
  (f.leadWords_reserved c (List.mem_append_right _ h)).1 rfl

/-- What is read of tokens wherever an operand may stand, with any words in front of it; an operator
outside parentheses allows for none. -/
structure Says (f : Flavor) (c : LetterCase) (ts : Tokens) (φ : Phrase) : Prop where
  reads (items : List Phrase) (left : Left) (ws : List Word) (h : ws = [] ∨ φ.Tight) :
    Reads (f.grammar c) (lexed f c ts) items left ws
      ((f.grammar c).behind left (φ.tighten ws))
  lead {n : Nest} (hn : n.Parted) :
    (Reading.before (lexed f c ts) n).lead ∉ (f.grammar c).statements

theorem Says.of_inert {ts : Tokens} (h : Inert f c ts) : Says f c ts (.atom (chars c ts)) where
  reads items left ws _ := h.reads items left ws
  lead := h.lead

theorem Says.lies {ts : Tokens} {φ : Phrase} (h : Says f c ts φ) : Lies (lexed f c ts) :=
  (h.reads [] none [] (.inl rfl)).choose_spec.1.lies

theorem Says.alone {ts : Tokens} {φ : Phrase} (h : Says f c ts φ) (items : List Phrase) :
    Reads (f.grammar c) (lexed f c ts) items none [] φ := by
  have hr := h.reads items none [] (.inl rfl)
  rwa [tighten_nil] at hr

theorem lead_enclosed {ts : Tokens} (h : Lies (lexed f c ts)) (n : Nest) :
    (Reading.before (lexed f c ts.enclosed) n).lead = [] := by
  rw [lexed_enclosed, before_enclosed h]
  rfl

theorem Says.enclosed {ts : Tokens} {φ : Phrase} (h : Says f c ts φ) :
    Says f c ts.enclosed (.grouped φ) where
  reads items left ws _ := (h.alone []).enclosed (h.lead trivial) items left ws
  lead _ := by
    rw [lead_enclosed h.lies]
    exact nil_notMem_statements

theorem Says.of_statement {q : Query} {outer : List Table} {ts : Tokens}
    (h : q.write f.dialect outer = .ok ts) :
    Says f c ts.enclosed (.atom (chars c ts.enclosed)) where
  reads items left ws _ := reads_statement h items left ws
  lead _ := by
    rw [lead_enclosed (statement_lead h).1]
    exact nil_notMem_statements

/-- The phrase of an operand, enclosed like its tokens. -/
def held (s : Site) (misread : Rat → Bool) (e : Expr) (φ : Phrase) : Phrase :=
  match s.precedence? e with
  | some p => if misread p then .grouped φ else φ
  | none => φ

/-- An operand says what it says alone, in parentheses or not. -/
theorem Says.operand {e : Expr} {ts : Tokens} {φ : Phrase} (h : Says f c ts φ)
    (misread : Rat → Bool) : Says f c (s.operand misread e ts) (held s misread e φ) := by
  unfold Site.operand held
  cases s.precedence? e with
  | none => exact h
  | some p =>
    dsimp only
    split
    · exact h.enclosed
    · exact h

/-- What stands behind the first tokens does not change how they begin. -/
theorem Says.lead_append {xs ys : Tokens} {φ : Phrase} (hx : Says f c xs φ)
    (hy : Lies (lexed f c ys)) (hp : ∀ n, (Reading.before (lexed f c ys) n).Parted) (n : Nest) :
    (Reading.before (lexed f c (xs ++ ys)) n).lead ∉ (f.grammar c).statements := by
  rw [lexed_append, before_append hx.lies hy]
  exact hx.lead (hp n)

/-- Operands on either side of an operator say what comes of reading the right one behind what is
read of the left one, if that does not depend on what stands further left. -/
theorem Says.between {xs ys : Tokens} {φ ψ χ : Phrase} {w : String} (hx : Says f c xs φ)
    (hy : Says f c ys ψ) (hw : Flavor.isWord w = true) (hpiece : isPiece (c.write w) = true)
    (hp : ((f.grammar c).precedence? (c.write w)).isSome) (hχ : ¬ χ.Tight)
    (h : ∀ left, (f.grammar c).graft ((f.grammar c).behind left φ) (c.write w) ψ =
      (f.grammar c).behind left χ) :
    Says f c (xs ++ [Tokens.space, .word w, Tokens.space] ++ ys) χ where
  reads items left ws ht := by
    obtain rfl : ws = [] := ht.resolve_right hχ
    obtain ⟨m, ht, hm⟩ := hx.reads items left [] (.inl rfl)
    obtain ⟨m', ht', hm'⟩ :=
      hy.reads items (some ((f.grammar c).behind left φ, c.write w)) [] (.inl rfl)
    rw [tighten_nil] at hm hm'
    change _ = some ((f.grammar c).graft _ _ ψ) at hm'
    rw [h] at hm'
    rw [lexed_append, lexed_append, tighten_nil]
    exact ⟨m', ht.operator hm hw hpiece hp ht', hm'⟩
  lead {n} _ := by
    obtain ⟨hlies, hbefore⟩ := lies_of_eq (nestOnto_between (f := f) hw hpiece)
    rw [List.append_assoc]
    refine hx.lead_append ?_ (fun n => ?_) n
    · rw [lexed_append]
      exact hlies.append hy.lies
    · rw [lexed_append, before_append hlies hy.lies, hbefore]
      trivial

theorem Says.front {ts : Tokens} {φ : Phrase} {n w : String}
    (hrule : f.dialect.rule? n = some (.before w)) (h : Says f c ts φ) (hφ : φ.Tight) :
    Says f c ([.word w, Tokens.space] ++ ts) (φ.tighten [c.write w]) := by
  have hw : Flavor.isWord w = true := isWord_of_word? hrule rfl
  have hs := f.speaks c hrule
  simp only [Grammar.speaks, Bool.and_eq_true, List.contains_eq_mem, decide_eq_true_eq,
    Bool.not_eq_true', decide_eq_false_iff_not] at hs
  obtain ⟨⟨hpiece, hpre⟩, hnot⟩ := hs
  refine ⟨fun items left ws _ => ?_, fun {n} _ => ?_⟩
  · rw [lexed_append, ← tighten_append]
    exact Reads.front hw hpiece hpre (h.reads items left _ (.inr hφ))
  · obtain ⟨hlies, hbefore⟩ := lies_of_eq (nestOnto_front (f := f) hw hpiece)
    rw [lexed_append, before_append hlies h.lies, hbefore]
    exact hnot

theorem Says.behind {ts : Tokens} {φ : Phrase} {n w : String}
    (hrule : f.dialect.rule? n = some (.after w)) (h : Says f c ts φ) (hφ : φ.Tight) :
    Says f c (ts ++ [Tokens.space, .word w]) (.judged φ (c.pieces w)) := by
  have hw : Flavor.isWord w = true := isWord_of_word? hrule rfl
  have hs := f.speaks c hrule
  have hpieces : ∀ v ∈ c.pieces w, isPiece v = true := by
    simp only [Grammar.speaks, Bool.and_eq_true, List.all_eq_true] at hs
    exact hs.1.1.1
  refine ⟨fun items left ws _ => ?_, fun {n} _ => ?_⟩
  · have hr := Reads.behind (f := f) (h.reads items left ws (.inr hφ)) hw hs
    rw [onLast_behind (k := (.judged · (c.pieces w))) (hφ.tighten ws) trivial] at hr
    rw [lexed_append]
    exact hr
  · obtain ⟨hlies, hbefore⟩ := lies_of_eq (nestOnto_spaced (f := f) hw hpieces)
    exact h.lead_append hlies (fun n => by rw [hbefore]; trivial) n

theorem Says.among {ts : Tokens} {φ : Phrase} {n w : String} {yss : List Tokens}
    (hrule : f.dialect.rule? n = some (.membership w)) (h : Says f c ts φ) (hφ : φ.Tight)
    (hys : ∀ ys ∈ yss, Inert f c ys) :
    Says f c (ts ++ [Tokens.space, .word w, Tokens.space] ++ (Tokens.listed yss).enclosed)
      (.among φ (c.write w) (yss.map fun ys => .atom (chars c ys))) := by
  have hw : Flavor.isWord w = true := isWord_of_word? hrule rfl
  have hs := f.speaks c hrule
  simp only [Grammar.speaks, Bool.and_eq_true, List.contains_eq_mem, decide_eq_true_eq,
    beq_iff_eq] at hs
  obtain ⟨⟨hpiece, hprec⟩, hmem⟩ := hs
  obtain ⟨hword, hbetween⟩ := lies_of_eq (nestOnto_between (f := f) hw hpiece)
  have hatoms : ∀ ys ∈ yss, ∀ items, Reads (f.grammar c) (lexed f c (id ys)) items none []
      (.atom (chars c ys)) := fun ys hy => (Says.of_inert (hys ys hy)).alone
  obtain ⟨hlist, hread⟩ := readAll_listed hatoms
  rw [List.map_id] at hlist hread
  have hgroup := hlist.enclosed
  rw [← lexed_enclosed] at hgroup
  have hbefore (n : Nest) : Reading.before (lexed f c ([Tokens.space, .word w, Tokens.space] ++
      (Tokens.listed yss).enclosed)) n =
      space (piece (c.write w) (space
        (Nest.group (Reading.before (lexed f c (Tokens.listed yss)) nil) n))) := by
    rw [lexed_append, before_append hword hgroup, hbetween, lexed_enclosed, before_enclosed hlist]
  have hlies : Lies (lexed f c ([Tokens.space, .word w, Tokens.space] ++
      (Tokens.listed yss).enclosed)) := by
    rw [lexed_append]
    exact hword.append hgroup
  rw [List.append_assoc]
  refine ⟨fun items left ws _ => ?_, fun {n} _ => ?_⟩
  · obtain ⟨m, ht, hm⟩ := h.reads items left ws (.inr hφ)
    have hx := onLast_behind (g := f.grammar c) (hφ.tighten ws)
      (k := (.among · (c.write w) (yss.map fun ys => .atom (chars c ys)))) trivial left
    refine ⟨.complete _, ?_, congrArg some hx⟩
    rw [lexed_append]
    refine ht.append ⟨hlies, fun n _ => ?_⟩ fun n _ => ?_
    · rw [hbefore]
      show ((f.grammar c).piece ⟨items, m⟩ _).bind _ = _
      rw [piece_of_settled hm, Grammar.operator, hprec, if_neg (by simp), if_pos hmem]
      show ((f.grammar c).group ⟨items, .sought _ _⟩ _ _).bind _ = _
      rw [hread]
      rfl
    · rw [hbefore]
      trivial
  · exact h.lead_append hlies (fun n => by rw [hbefore]; trivial) n

theorem Says.call {α : Type} {n w : String} (hrule : f.dialect.rule? n = some (.call w))
    {tokens : α → Tokens} {phrase : α → Phrase} {l : List α}
    (h : ∀ a ∈ l, Says f c (tokens a) (phrase a)) :
    Says f c (.word w :: (Tokens.listed (l.map tokens)).enclosed)
      (.call (c.write w) (l.map phrase)) := by
  have hw : Flavor.isWord w = true := isWord_of_word? hrule rfl
  have hs := f.speaks c hrule
  simp only [Grammar.speaks, Bool.and_eq_true, List.contains_eq_mem,
    Bool.not_eq_true', decide_eq_false_iff_not] at hs
  obtain ⟨⟨hpiece, hpre⟩, hnot⟩ := hs
  obtain ⟨hlist, hread⟩ := readAll_listed (g := f.grammar c) fun a ha => (h a ha).alone
  have hword := glued_word (f := f) hw hpiece
  have hcons : lexed f c (.word w :: (Tokens.listed (l.map tokens)).enclosed) =
      lexed f c [.word w] ++
        (.char '(' :: lexed f c (Tokens.listed (l.map tokens)) ++ [.char ')']) := by
    rw [← lexed_enclosed, ← lexed_append]
    rfl
  have hbefore (n : Nest) :
      Reading.before (lexed f c (.word w :: (Tokens.listed (l.map tokens)).enclosed)) n =
        piece (c.write w)
          (Nest.group (Reading.before (lexed f c (Tokens.listed (l.map tokens))) nil) n) := by
    rw [hcons, before_append hword.lies hlist.enclosed, before_enclosed hlist, hword.before,
      chars_singleton]
    rfl
  refine ⟨fun items left ws _ => ⟨.complete _, ⟨?_, fun n _ => ?_⟩, rfl⟩, fun {n} _ => ?_⟩
  · rw [hcons]
    exact hword.lies.append hlist.enclosed
  · rw [hbefore]
    show ((f.grammar c).piece ⟨items, .operand left ws⟩ _).bind _ = _
    rw [piece_operand, if_neg hpre]
    show ((f.grammar c).group ⟨items, .named left ws _⟩ _ _).bind _ = _
    rw [hread]
    rfl
  · rw [hbefore]
    exact hnot

end SqlDraft.Reading
