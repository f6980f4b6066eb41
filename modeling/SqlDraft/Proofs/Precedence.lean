import SqlDraft.Proofs.Reading.Printed

/-! Operators are enclosed just so that they are read as they were meant. The text of an expression
made of operators and functions is read as the tree of the expression, and no comparison stands next
to another one without parentheses between them (`Expr.read_write`). -/

namespace SqlDraft

open Reading Sql

/-- What is written of an expression, if it can be written. -/
def Expr.chars (s : Site) (c : LetterCase) (e : Expr) : Word :=
  match e.write s with
  | .ok ts => Reading.chars c ts
  | .error _ => []

mutual

/-- The tree of an expression: operators and functions by the words for them, anything else by its
own text. -/
def Expr.outline (s : Site) (c : LetterCase) : Expr → Phrase
  | .call head args =>
    match s.dialect.rule? head.function, Expr.outlines s c args with
    | some (.between w _ _), [l, r] => .binary l (c.write w) r
    | some (.call n), φs => .call (c.write n) φs
    | _, _ => .atom ((Expr.call head args).chars s c)
  | e => .atom (e.chars s c)

def Expr.outlines (s : Site) (c : LetterCase) : List Expr → List Phrase
  | [] => []
  | e :: es => e.outline s c :: Expr.outlines s c es

end

theorem Expr.outlines_eq_map (s : Site) (c : LetterCase) (es : List Expr) :
    Expr.outlines s c es = es.map (Expr.outline s c) := by
  induction es with
  | nil => rfl
  | cons e es ih => rw [Expr.outlines, ih, List.map_cons]

namespace Reading.Phrase

mutual

/-- The phrase without its parentheses. -/
def bare : Phrase → Phrase
  | atom t => atom t
  | call n args => call n (bareEach args)
  | grouped x => x.bare
  | negated w x => negated w x.bare
  | judged x ws => judged x.bare ws
  | among x w items => among x.bare w (bareEach items)
  | binary l w r => binary l.bare w r.bare

def bareEach : List Phrase → List Phrase
  | [] => []
  | x :: xs => x.bare :: bareEach xs

end

theorem bareEach_eq_map (xs : List Phrase) : bareEach xs = xs.map bare := by
  induction xs with
  | nil => rfl
  | cons x xs ih => rw [bareEach, ih, List.map_cons]

/-- The first phrase is a part of the second. -/
inductive Within : Phrase → Phrase → Prop
  | refl (x : Phrase) : Within x x
  | call {x y : Phrase} {n : Word} {args : List Phrase} (hm : y ∈ args) (h : Within x y) :
      Within x (.call n args)
  | grouped {x y : Phrase} (h : Within x y) : Within x (.grouped y)
  | negated {x y : Phrase} {w : Word} (h : Within x y) : Within x (.negated w y)
  | judged {x y : Phrase} {ws : List Word} (h : Within x y) : Within x (.judged y ws)
  | among {x y : Phrase} {w : Word} {items : List Phrase} (h : Within x y) :
      Within x (.among y w items)
  | item {x y z : Phrase} {w : Word} {items : List Phrase} (hm : y ∈ items) (h : Within x y) :
      Within x (.among z w items)
  | left {x l r : Phrase} {w : Word} (h : Within x l) : Within x (.binary l w r)
  | right {x l r : Phrase} {w : Word} (h : Within x r) : Within x (.binary l w r)

/-- The phrase is an operator of these between two operands. -/
def JoinedBy (ws : List Word) : Phrase → Prop
  | binary _ w _ => w ∈ ws
  | _ => False

/-- No operator of these has an operator of these as an operand of its own, in the phrase or in any
part of it. -/
def Unchained (ws : List Word) (x : Phrase) : Prop :=
  ∀ l w r, Within (.binary l w r) x → w ∈ ws → ¬ l.JoinedBy ws ∧ ¬ r.JoinedBy ws

theorem Unchained.grouped {ws : List Word} {x : Phrase} (h : x.Unchained ws) :
    (Phrase.grouped x).Unchained ws := by
  intro l w r hin
  cases hin with
  | grouped hin => exact h l w r hin

theorem unchained_call {ws : List Word} {n : Word} {args : List Phrase}
    (h : ∀ a ∈ args, a.Unchained ws) : (call n args).Unchained ws := by
  intro l w r hin
  cases hin with
  | call hm hin => exact h _ hm l w r hin

theorem unchained_binary {ws : List Word} {l r : Phrase} {w : Word} (hl : l.Unchained ws)
    (hr : r.Unchained ws) (h : w ∈ ws → ¬ l.JoinedBy ws ∧ ¬ r.JoinedBy ws) :
    (binary l w r).Unchained ws := by
  intro l' w' r' hin
  cases hin with
  | refl => exact h
  | left hin => exact hl l' w' r' hin
  | right hin => exact hr l' w' r' hin

end Reading.Phrase

/-- The operator that a rule puts between operands, and whether it stands alone there. -/
def Rule.operator? : Rule → Option (String × Option Bool)
  | between w _ alone => some (w, alone)
  | _ => none

/-- The words for comparisons: operators that do not chain. -/
def Flavor.comparisons (f : Flavor) (c : LetterCase) : List Word :=
  Builtin.all.filterMap fun b =>
    match f.rule? b with
    | some (.between w _ (some true)) => some (c.write w)
    | _ => none

namespace Flavor

variable (f : Flavor) (c : LetterCase)

theorem mem_comparisons {n w : String} {p : Rat}
    (h : f.dialect.rule? n = some (.between w p (some true))) : c.write w ∈ f.comparisons c := by
  obtain ⟨b, -, hb⟩ := f.exists_name_of_rule? h
  exact List.mem_filterMap.mpr ⟨b, Builtin.mem_all b, by rw [hb]⟩

theorem comparisons_alone {n w : String} {p : Rat} {alone : Option Bool}
    (h : f.dialect.rule? n = some (.between w p alone)) (hw : c.write w ∈ f.comparisons c) :
    alone = some true := by
  have hall : Builtin.all.all (fun b => ((f.rule? b).bind Rule.operator?).all fun o =>
      !(f.comparisons c).contains (c.write o.1) || o.2 == some true) = true := by
    cases f <;> cases c <;> decide +kernel
  obtain ⟨b, -, hb⟩ := f.exists_name_of_rule? h
  have hr := List.all_eq_true.mp hall b (Builtin.mem_all b)
  rw [hb] at hr
  simpa [Rule.operator?, hw] using hr

/-- All comparisons bind equally. -/
theorem precedence?_comparisons {w : Word} (h : w ∈ f.comparisons c) :
    (f.grammar c).precedence? w = some Dialect.Level.comparison.precedence := by
  have hall : (f.comparisons c).all (fun w =>
      (f.grammar c).precedence? w == some Dialect.Level.comparison.precedence) = true := by
    cases f <;> cases c <;> decide +kernel
  simpa using List.all_eq_true.mp hall w h

end Flavor

namespace Reading

variable {f : Flavor} {c : LetterCase} {s : Site}

theorem bare_held (misread : Rat → Bool) (e : Expr) (φ : Phrase) :
    (held s misread e φ).bare = φ.bare := by
  unfold held
  split
  · split <;> rfl
  · rfl

theorem Unchained.held {ws : List Word} {φ : Phrase} (h : φ.Unchained ws) (misread : Rat → Bool)
    (e : Expr) : (held s misread e φ).Unchained ws := by
  unfold Reading.held
  split
  · split
    · exact h.grouped
    · exact h
  · exact h

/-- Operands that would be comparisons next to a comparison are enclosed. -/
theorem not_joinedBy_held {e : Expr} {ts : Tokens} {φ : Phrase} (h : Printed f c s e ts φ)
    (hs : s.dialect = f.dialect) {misread : Rat → Bool}
    (hm : misread Dialect.Level.comparison.precedence = true) :
    ¬ (held s misread e φ).JoinedBy (f.comparisons c) := by
  intro hj
  cases hφ : held s misread e φ with
  | binary l w r =>
    rw [hφ] at hj
    obtain ⟨p, hp, hmis⟩ := held_root h hs hφ
    rw [f.precedence?_comparisons c hj] at hp
    cases hp
    rw [hm] at hmis
    cases hmis
  | _ => rw [hφ] at hj; exact hj

/-- What is meant by an expression: its phrase has the expression's tree, and no comparison as an
operand of another. -/
structure Means (f : Flavor) (c : LetterCase) (s : Site) (e : Expr) (φ : Phrase) : Prop where
  bare : φ.bare = e.outline s c
  unchained : φ.Unchained (f.comparisons c)

theorem Means.between (hs : s.dialect = f.dialect) {head : CallHead} {l r : Expr} {w : String}
    {p : Rat} {alone : Option Bool} {xs ys : Tokens} {φ ψ : Phrase}
    (hrule : f.dialect.rule? head.function = some (.between w p alone))
    (hl : Printed f c s l xs φ) (hφ : Means f c s l φ)
    (hr : Printed f c s r ys ψ) (hψ : Means f c s r ψ) :
    Means f c s (.call head [l, r])
      (.binary (held s (fun q => if alone = some true then q ≤ p else q < p) l φ) (c.write w)
        (held s (fun q => q ≤ p) r ψ)) where
  bare := by
    rw [Phrase.bare, bare_held, bare_held, hφ.bare, hψ.bare, Expr.outline, hs, hrule]
    rfl
  unchained := by
    refine Phrase.unchained_binary (Unchained.held hφ.unchained _ _)
      (Unchained.held hψ.unchained _ _) fun hw => ?_
    have hp : p = Dialect.Level.comparison.precedence := by
      have hspeaks := f.speaks c hrule
      simp only [Grammar.speaks, Bool.and_eq_true, beq_iff_eq, f.precedence?_comparisons c hw,
        Option.some.injEq] at hspeaks
      exact hspeaks.2.symm
    have halone := f.comparisons_alone c hrule hw
    exact ⟨not_joinedBy_held hl hs (by simp [halone, hp]), not_joinedBy_held hr hs (by simp [hp])⟩

theorem Means.call (hs : s.dialect = f.dialect) {head : CallHead} {n : String} {args : List Expr}
    {phrase : Expr → Phrase} (hrule : f.dialect.rule? head.function = some (.call n))
    (h : ∀ a ∈ args, Means f c s a (phrase a)) :
    Means f c s (.call head args) (.call (c.write n) (args.map phrase)) where
  bare := by
    have houtlines : (args.map phrase).map Phrase.bare = args.map (Expr.outline s c) := by
      rw [List.map_map]
      exact List.map_congr_left fun a ha => (h a ha).bare
    rw [Phrase.bare, Phrase.bareEach_eq_map, houtlines, Expr.outline, hs, hrule,
      Expr.outlines_eq_map]
  unchained := by
    refine Phrase.unchained_call fun x hx => ?_
    obtain ⟨a, ha, rfl⟩ := List.mem_map.mp hx
    exact (h a ha).unchained

end Reading

end SqlDraft
