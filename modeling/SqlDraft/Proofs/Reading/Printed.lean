import SqlDraft.Proofs.Reading.Expression

/-! What is written of an expression, with the phrase that is read of it. `Printed` goes by the
rules of a dialect: an operand is enclosed where it would be misread, and its phrase along with
it. -/

namespace SqlDraft.Reading

open Sql Nest Phrase Grammar

/-- An expression with its tokens and the phrase that these say. Left out are the calls that take
anything but what their rule asks for, rules that are templates, and lists on their own. -/
inductive Printed (f : Flavor) (c : LetterCase) (s : Site) : Expr → Tokens → Phrase → Prop
  | column {col : Column} {ts : Tokens} (h : s.column col = .ok ts) :
      Printed f c s (.column col) ts (.atom (chars c ts))
  | literal {v : Value} {t : Ty} {ts : Tokens} (h : s.literal t v = .ok ts) :
      Printed f c s (.literal v t) ts (.atom (chars c ts))
  | subquery {q : Query} {ts : Tokens} (h : q.write f.dialect (s.own ++ s.outer) = .ok ts) :
      Printed f c s (.subquery q) ts.enclosed (.atom (chars c ts.enclosed))
  | between {head : CallHead} {l r : Expr} {xs ys : Tokens} {φ ψ : Phrase} {w : String} {p : Rat}
      {alone : Option Bool} (hrule : f.dialect.rule? head.function = some (.between w p alone))
      (hl : Printed f c s l xs φ) (hr : Printed f c s r ys ψ) :
      Printed f c s (.call head [l, r])
        (s.operand (fun q => if alone = some true then q ≤ p else q < p) l xs ++
          [Tokens.space, .word w, Tokens.space] ++ s.operand (fun q => q ≤ p) r ys)
        (.binary (held s (fun q => if alone = some true then q ≤ p else q < p) l φ) (c.write w)
          (held s (fun q => q ≤ p) r ψ))
  | before {head : CallHead} {e : Expr} {ts : Tokens} {φ : Phrase} {w : String}
      (hrule : f.dialect.rule? head.function = some (.before w)) (h : Printed f c s e ts φ) :
      Printed f c s (.call head [e])
        ([.word w, Tokens.space] ++ s.operand (fun _ => true) e ts)
        ((held s (fun _ => true) e φ).tighten [c.write w])
  | after {head : CallHead} {e : Expr} {ts : Tokens} {φ : Phrase} {w : String}
      (hrule : f.dialect.rule? head.function = some (.after w)) (h : Printed f c s e ts φ) :
      Printed f c s (.call head [e])
        (s.operand (fun _ => true) e ts ++ [Tokens.space, .word w])
        (.judged (held s (fun _ => true) e φ) (c.pieces w))
  | membership {head : CallHead} {e : Expr} {ts : Tokens} {φ : Phrase} {w : String}
      {vs : List Value} {t : Ty} {yss : List Tokens}
      (hrule : f.dialect.rule? head.function = some (.membership w)) (h : Printed f c s e ts φ)
      (hne : vs ≠ []) (hvs : gather (vs.map (s.literal t)) = .ok yss) :
      Printed f c s (.call head [e, .list vs t])
        (s.operand (fun _ => true) e ts ++ [Tokens.space, .word w, Tokens.space] ++
          (Tokens.listed yss).enclosed)
        (.among (held s (fun _ => true) e φ) (c.write w) (yss.map fun ys => .atom (chars c ys)))
  | call {head : CallHead} {args : List Expr} {n : String} (tokens : Expr → Tokens)
      (phrase : Expr → Phrase) (hrule : f.dialect.rule? head.function = some (.call n))
      (h : ∀ a ∈ args, Printed f c s a (tokens a) (phrase a)) :
      Printed f c s (.call head args) (.word n :: (Tokens.listed (args.map tokens)).enclosed)
        (.call (c.write n) (args.map phrase))

variable {f : Flavor} {c : LetterCase} {s : Site}

/-! ## The root of a phrase -/

theorem precedence?_call (hs : s.dialect = f.dialect) {head : CallHead} {r : Rule}
    (h : f.dialect.rule? head.function = some r) (args : List Expr) :
    s.precedence? (.call head args) = r.precedence? := by
  rw [Site.precedence?, hs, h]
  rfl

theorem held_tight {e : Expr} {φ : Phrase} (h : s.precedence? e = none → φ.Tight) :
    (held s (fun _ => true) e φ).Tight := by
  unfold held
  cases hp : s.precedence? e with
  | none => exact h hp
  | some p => trivial

/-- An infix expression is read as its operator, with the precedence it was written with; any other
is tight. -/
theorem Printed.root {e : Expr} {ts : Tokens} {φ : Phrase} (h : Printed f c s e ts φ)
    (hs : s.dialect = f.dialect) :
    (s.precedence? e = none → φ.Tight) ∧ ∀ p, s.precedence? e = some p →
      ∃ l w r, φ = .binary l w r ∧ (f.grammar c).precedence? w = some p := by
  induction h with
  | column _ => exact ⟨fun _ => trivial, fun p hp => by cases hp⟩
  | literal _ => exact ⟨fun _ => trivial, fun p hp => by cases hp⟩
  | subquery _ => exact ⟨fun _ => trivial, fun p hp => by cases hp⟩
  | between hrule _ _ _ _ =>
    rw [precedence?_call hs hrule]
    refine ⟨fun hp => (by cases hp), fun p hp => ⟨_, _, _, rfl, ?_⟩⟩
    have hsp := f.speaks c hrule
    simp only [Grammar.speaks, Bool.and_eq_true, beq_iff_eq] at hsp
    rw [hsp.2, ← hp]
    rfl
  | before hrule _ ih =>
    rw [precedence?_call hs hrule]
    exact ⟨fun _ => (held_tight ih.1).tighten _, fun p hp => by cases hp⟩
  | after hrule _ _ =>
    rw [precedence?_call hs hrule]
    exact ⟨fun _ => trivial, fun p hp => by cases hp⟩
  | membership hrule _ _ _ _ =>
    rw [precedence?_call hs hrule]
    exact ⟨fun _ => trivial, fun p hp => by cases hp⟩
  | call _ _ hrule _ _ =>
    rw [precedence?_call hs hrule]
    exact ⟨fun _ => trivial, fun p hp => by cases hp⟩

/-- An operand that is left as it is has an operator at its root that is not misread. -/
theorem held_root {e : Expr} {ts : Tokens} {φ : Phrase} (h : Printed f c s e ts φ)
    (hs : s.dialect = f.dialect) {misread : Rat → Bool} {l r : Phrase} {v : Word}
    (hb : held s misread e φ = .binary l v r) :
    ∃ p, (f.grammar c).precedence? v = some p ∧ misread p = false := by
  unfold held at hb
  cases hp : s.precedence? e with
  | none =>
    rw [hp] at hb
    change φ = _ at hb
    exact absurd ((h.root hs).1 hp) (by rw [hb]; exact id)
  | some p =>
    rw [hp] at hb
    dsimp only at hb
    split at hb
    · cases hb
    · next hm =>
      obtain ⟨_, _, _, hφ, hw⟩ := (h.root hs).2 p hp
      rw [hφ] at hb
      cases hb
      exact ⟨p, hw, by simpa using hm⟩

/-- What is written of an expression is read as its phrase. -/
theorem Printed.reads {e : Expr} {ts : Tokens} {φ : Phrase} (h : Printed f c s e ts φ)
    (hs : s.dialect = f.dialect) : Says f c ts φ := by
  induction h with
  | column h => exact .of_inert (inert_column hs h)
  | literal h => exact .of_inert (inert_literal hs h)
  | subquery h => exact .of_statement h
  | @between head l r xs ys φ ψ w p alone hrule hl hr ihl ihr =>
    have hspeaks := f.speaks c hrule
    simp only [Grammar.speaks, Bool.and_eq_true, beq_iff_eq] at hspeaks
    have hprec : (f.grammar c).precedence (c.write w) = p := by
      rw [Grammar.precedence, hspeaks.2]
      rfl
    refine (ihl.operand _).between (ihr.operand _) (isWord_of_word? hrule rfl) hspeaks.1
      (by rw [hspeaks.2]; rfl) id fun left => ?_
    rw [graft_of_root fun a u b hb => ?_, attach_behind fun a u b hb => ?_]
    · obtain ⟨q, hq, hm⟩ := held_root hl hs hb
      rw [hprec, Grammar.precedence, hq]
      split at hm
      · exact le_of_lt (by simpa using hm)
      · simpa using hm
    · obtain ⟨q, hq, hm⟩ := held_root hr hs hb
      rw [hprec, Grammar.precedence, hq]
      simpa using hm
  | before hrule h ih => exact (ih.operand _).front hrule (held_tight (h.root hs).1)
  | after hrule h ih => exact (ih.operand _).behind hrule (held_tight (h.root hs).1)
  | @membership head e ts φ w vs t yss hrule h _ hvs ih =>
    refine (ih.operand _).among hrule (held_tight (h.root hs).1) fun ys hy => ?_
    rw [gather_eq_ok_iff] at hvs
    have hmem := List.mem_map_of_mem (f := (.ok : Tokens → Outcome Tokens)) hy
    rw [← hvs] at hmem
    obtain ⟨v, -, hv⟩ := List.mem_map.mp hmem
    exact inert_literal hs hv
  | call tokens phrase hrule _ ih => exact .call hrule ih

/-! ## Writing -/

/-- A call that is written by a rule. -/
theorem write_call (hs : s.dialect = f.dialect) {head : CallHead} {r : Rule}
    (h : f.dialect.rule? head.function = some r) (args : List Expr) :
    (Expr.call head args).write s =
      s.apply head.function (args.map fun e => ⟨e, e.write s⟩) r := by
  rw [Expr.write, Site.call, hs, h, Expr.arguments_eq_map]

theorem write_between (hs : s.dialect = f.dialect) {head : CallHead} {w : String} {p : Rat}
    {alone : Option Bool} (h : f.dialect.rule? head.function = some (.between w p alone))
    {l r : Expr} {ts : Tokens} :
    (Expr.call head [l, r]).write s = .ok ts ↔ ∃ xs ys, l.write s = .ok xs ∧ r.write s = .ok ys ∧
      s.operand (fun q => if alone = some true then q ≤ p else q < p) l xs ++
        [Tokens.space, .word w, Tokens.space] ++ s.operand (fun q => q ≤ p) r ys = ts := by
  rw [write_call hs h]
  show ((l.write s).map _ >>= fun xs => (r.write s).map _ >>= fun ys => .ok _) = _ ↔ _
  simp only [bind_eq_ok_iff, map_eq_ok_iff, Except.ok.injEq]
  constructor
  · rintro ⟨_, ⟨xs, hx, rfl⟩, _, ⟨ys, hy, rfl⟩, rfl⟩
    exact ⟨xs, ys, hx, hy, rfl⟩
  · rintro ⟨xs, ys, hx, hy, rfl⟩
    exact ⟨_, ⟨xs, hx, rfl⟩, _, ⟨ys, hy, rfl⟩, rfl⟩

theorem write_before (hs : s.dialect = f.dialect) {head : CallHead} {w : String}
    (h : f.dialect.rule? head.function = some (.before w)) {e : Expr} {ts : Tokens} :
    (Expr.call head [e]).write s = .ok ts ↔ ∃ xs, e.write s = .ok xs ∧
      [.word w, Tokens.space] ++ s.operand (fun _ => true) e xs = ts := by
  rw [write_call hs h]
  show ((e.write s).map _ >>= fun xs => .ok _) = _ ↔ _
  simp only [bind_eq_ok_iff, map_eq_ok_iff, Except.ok.injEq]
  constructor
  · rintro ⟨_, ⟨xs, hx, rfl⟩, rfl⟩
    exact ⟨xs, hx, rfl⟩
  · rintro ⟨xs, hx, rfl⟩
    exact ⟨_, ⟨xs, hx, rfl⟩, rfl⟩

theorem write_after (hs : s.dialect = f.dialect) {head : CallHead} {w : String}
    (h : f.dialect.rule? head.function = some (.after w)) {e : Expr} {ts : Tokens} :
    (Expr.call head [e]).write s = .ok ts ↔ ∃ xs, e.write s = .ok xs ∧
      s.operand (fun _ => true) e xs ++ [Tokens.space, .word w] = ts := by
  rw [write_call hs h]
  show ((e.write s).map _ >>= fun xs => .ok _) = _ ↔ _
  simp only [bind_eq_ok_iff, map_eq_ok_iff, Except.ok.injEq]
  constructor
  · rintro ⟨_, ⟨xs, hx, rfl⟩, rfl⟩
    exact ⟨xs, hx, rfl⟩
  · rintro ⟨xs, hx, rfl⟩
    exact ⟨_, ⟨xs, hx, rfl⟩, rfl⟩

theorem write_membership (hs : s.dialect = f.dialect) {head : CallHead} {w : String}
    (h : f.dialect.rule? head.function = some (.membership w)) {e : Expr} {vs : List Value}
    (hne : vs ≠ []) {t : Ty} {ts : Tokens} :
    (Expr.call head [e, .list vs t]).write s = .ok ts ↔ ∃ xs yss, e.write s = .ok xs ∧
      gather (vs.map (s.literal t)) = .ok yss ∧
      s.operand (fun _ => true) e xs ++ [Tokens.space, .word w, Tokens.space] ++
        (Tokens.listed yss).enclosed = ts := by
  have hlist : (Expr.list vs t).write s =
      (gather (vs.map (s.literal t))).map fun yss => (Tokens.listed yss).enclosed := by
    rw [Expr.write, List.isEmpty_eq_false_iff.mpr hne]
    rfl
  rw [write_call hs h]
  show ((e.write s).map _ >>= fun xs => (Expr.list vs t).write s >>= fun ys => .ok _) = _ ↔ _
  rw [hlist]
  simp only [bind_eq_ok_iff, map_eq_ok_iff, Except.ok.injEq]
  constructor
  · rintro ⟨_, ⟨xs, hx, rfl⟩, _, ⟨yss, hy, rfl⟩, rfl⟩
    exact ⟨xs, yss, hx, hy, rfl⟩
  · rintro ⟨xs, yss, hx, hy, rfl⟩
    exact ⟨_, ⟨xs, hx, rfl⟩, _, ⟨yss, hy, rfl⟩, rfl⟩

theorem write_function (hs : s.dialect = f.dialect) {head : CallHead} {n : String}
    (h : f.dialect.rule? head.function = some (.call n)) {args : List Expr} {ts : Tokens} :
    (Expr.call head args).write s = .ok ts ↔ ∃ tss, gather (args.map (Expr.write s)) = .ok tss ∧
      .word n :: (Tokens.listed tss).enclosed = ts := by
  rw [write_call hs h, Site.apply, List.map_map]
  show (gather _ >>= fun tss => .ok _) = _ ↔ _
  simp only [bind_eq_ok_iff, Except.ok.injEq]
  rfl

theorem Printed.write {e : Expr} {ts : Tokens} {φ : Phrase} (h : Printed f c s e ts φ)
    (hs : s.dialect = f.dialect) : e.write s = .ok ts := by
  induction h with
  | column h => rwa [Expr.write]
  | literal h => rwa [Expr.write]
  | subquery h => rw [Expr.write, hs, h]; rfl
  | between hrule _ _ ihl ihr => exact (write_between hs hrule).mpr ⟨_, _, ihl, ihr, rfl⟩
  | before hrule _ ih => exact (write_before hs hrule).mpr ⟨_, ih, rfl⟩
  | after hrule _ ih => exact (write_after hs hrule).mpr ⟨_, ih, rfl⟩
  | membership hrule _ hne hvs ih =>
    exact (write_membership hs hrule hne).mpr ⟨_, _, ih, hvs, rfl⟩
  | @call head args n tokens phrase hrule _ ih =>
    refine (write_function hs hrule).mpr ⟨args.map tokens, gather_eq_ok_iff.mpr ?_, rfl⟩
    rw [List.map_map]
    exact List.map_congr_left ih

/-- The text of tokens is read as what they say. -/
theorem Says.read {ts : Tokens} {vs : List String} {φ : Phrase} (h : Says f c ts φ)
    (hw : Woven f ts vs) : (f.grammar c).read f.lexis (chars c ts) = some φ := by
  have hscan : scan f.lexis (chars c ts) = lexed f c ts := by
    have hwrite := hw.scan_write c Ends.nil
    rwa [List.append_nil, show scan f.lexis [] = [] from rfl, List.append_nil] at hwrite
  rw [Grammar.read, hscan, h.lies.nest?, Option.bind_some, (h.alone []).readAll]

/-- The text of an expression is read as its phrase. -/
theorem Printed.read {e : Expr} {ts : Tokens} {φ : Phrase} (h : Printed f c s e ts φ)
    (hs : s.dialect = f.dialect) : (f.grammar c).read f.lexis (chars c ts) = some φ :=
  (h.reads hs).read ((carries_steps f).expr e s hs ts (h.write hs)).woven

/-! ## The text of a phrase -/

mutual

/-- What is written of a phrase. -/
def Phrase.text : Phrase → List Char
  | .atom t => t
  | .call n args => n ++ '(' :: [',', ' '].intercalate (Phrase.texts args) ++ [')']
  | .grouped x => '(' :: x.text ++ [')']
  | .negated w x => w ++ ' ' :: x.text
  | .judged x ws => x.text ++ ' ' :: [' '].intercalate ws
  | .among x w items =>
    x.text ++ ' ' :: w ++ ' ' :: '(' :: [',', ' '].intercalate (Phrase.texts items) ++ [')']
  | .binary l w r => l.text ++ ' ' :: w ++ ' ' :: r.text

def Phrase.texts : List Phrase → List (List Char)
  | [] => []
  | x :: xs => x.text :: Phrase.texts xs

end

theorem Phrase.texts_eq_map (xs : List Phrase) : Phrase.texts xs = xs.map Phrase.text := by
  induction xs with
  | nil => rfl
  | cons x xs ih => rw [Phrase.texts, ih, List.map_cons]

theorem text_tighten (w : Word) : ∀ x : Phrase, (x.tighten [w]).text = w ++ ' ' :: x.text
  | .judged x ws => by
    rw [Phrase.tighten, Phrase.text, text_tighten w x, Phrase.text]
    simp
  | .among x v items => by
    rw [Phrase.tighten, Phrase.text, text_tighten w x, Phrase.text]
    simp
  | .atom _ | .call .. | .grouped _ | .negated .. | .binary .. => rfl

theorem chars_word (w : String) : chars c [.word w] = c.write w := chars_singleton _

theorem chars_space : chars c [Tokens.space] = [' '] := by
  simp [chars_singleton, Tokens.space, Token.write]

theorem chars_listed (tss : List Tokens) :
    chars c (Tokens.listed tss) = [',', ' '].intercalate (tss.map (chars c)) := by
  have hcomma : chars c Tokens.comma = [',', ' '] := by
    simp [Tokens.comma, chars_singleton, Token.write]
  induction tss with
  | nil => rfl
  | cons ts tss ih =>
    cases tss with
    | nil =>
      rw [Tokens.listed, Tokens.separated, List.intercalate_singleton, List.map_singleton,
        List.intercalate_singleton]
    | cons us tss =>
      rw [Tokens.listed, Tokens.separated] at ih ⊢
      rw [List.intercalate_cons_cons, chars_append, chars_append, ih, hcomma]
      simp only [List.map_cons, List.intercalate_cons_cons]

theorem chars_operand (misread : Rat → Bool) (e : Expr) {ts : Tokens} {φ : Phrase}
    (h : chars c ts = φ.text) : chars c (s.operand misread e ts) = (held s misread e φ).text := by
  unfold Site.operand held
  cases s.precedence? e with
  | none => exact h
  | some p =>
    dsimp only
    split
    · rw [chars_enclosed, h, Phrase.text]
    · exact h

/-- The phrase of an expression has the text of the expression. -/
theorem Printed.text {e : Expr} {ts : Tokens} {φ : Phrase} (h : Printed f c s e ts φ) :
    chars c ts = φ.text := by
  have hspaced (w : String) :
      chars c [Tokens.space, .word w, Tokens.space] = ' ' :: c.write w ++ [' '] := by
    rw [show [Tokens.space, .word w, Tokens.space] = [Tokens.space] ++ [.word w] ++ [Tokens.space]
      from rfl, chars_append, chars_append, chars_word, chars_space]
    rfl
  induction h with
  | column _ => rfl
  | literal _ => rfl
  | subquery _ => rfl
  | between _ _ _ ihl ihr =>
    rw [chars_append, chars_append, chars_operand _ _ ihl, chars_operand _ _ ihr, hspaced,
      Phrase.text]
    simp
  | @before head e ts φ w _ _ ih =>
    rw [show [.word w, Tokens.space] = [.word w] ++ [Tokens.space] from rfl, chars_append,
      chars_append, chars_operand _ _ ih, chars_word, chars_space, text_tighten]
    simp
  | @after head e ts φ w _ _ ih =>
    rw [show [Tokens.space, .word w] = [Tokens.space] ++ [.word w] from rfl, chars_append,
      chars_append, chars_operand _ _ ih, chars_word, chars_space, Phrase.text, LetterCase.pieces,
      List.intercalate_splitOn]
    rfl
  | membership _ _ _ _ ih =>
    rw [chars_append, chars_append, chars_operand _ _ ih, hspaced, chars_enclosed, chars_listed,
      Phrase.text, Phrase.texts_eq_map, List.map_map]
    simp [Function.comp_def, Phrase.text]
  | @call head args n tokens phrase _ _ ih =>
    have htexts : (args.map tokens).map (chars c) = (args.map phrase).map Phrase.text := by
      rw [List.map_map, List.map_map]
      exact List.map_congr_left ih
    rw [show Token.word n :: (Tokens.listed (args.map tokens)).enclosed =
      [.word n] ++ (Tokens.listed (args.map tokens)).enclosed from rfl, chars_append, chars_word,
      chars_enclosed, chars_listed, htexts, Phrase.text, Phrase.texts_eq_map, List.append_assoc]

end SqlDraft.Reading
