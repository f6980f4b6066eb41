import SqlDraft.Proofs.Condition.Chain

/-! The phrase of a chain, and the truth value of what is read. The text of a sentence has the value
of the sentence on its own (`Sentence.value?_phrase`); what a whole chain comes to is worked out
from the words that stand between its conditions (`Chain.value?_phrase`). -/

namespace SqlDraft

open Reading Sql Grammar

/-! ## Words -/

def Connective.all : List Connective := [and, or, xor]

/-- The operator that a word stands for. -/
def Flavor.connective? (f : Flavor) (c : LetterCase) (w : Word) : Option Connective :=
  Connective.all.find? fun op => ((Operator.connective op).written? f).any fun r => c.write r.1 == w

/-- The word between two conditions. -/
def Flavor.joining (f : Flavor) (c : LetterCase) (j : Joiner) : Word :=
  c.write (f.dialect.keywords (.joiner j))

/-- The operator with the word that joins conditions. -/
def Joiner.connective : Joiner → Connective
  | both => .and
  | either => .or

theorem Joiner.on_connective (j : Joiner) (x y : Bool) : j.connective.on x y = j.on x y := by
  cases j <;> rfl

variable {f : Flavor} {c : LetterCase} {s : Site} {t : Table} {v : Word → Bool}

theorem Joiner.either_lt_both : either.precedence < both.precedence := by decide +kernel

theorem Joiner.either_le (j : Joiner) : either.precedence ≤ j.precedence := by
  cases j with
  | both => exact either_lt_both.le
  | either => exact le_rfl

namespace Connective

variable {op : Connective} {w : String} {p : Rat} {alone : Option Bool}

theorem connective?_write (h : (Operator.connective op).written? f = some (w, p, alone))
    (c : LetterCase) : f.connective? c (c.write w) = some op := by
  cases f <;> cases op <;> cases c <;> cases h <;> decide +kernel

theorem speaks_write (h : (Operator.connective op).written? f = some (w, p, alone))
    (c : LetterCase) :
    isPiece (c.write w) = true ∧ (f.grammar c).precedence? (c.write w) = some p := by
  have hs := f.speaks c (Operator.written?_eq_some h)
  simpa only [Grammar.speaks, Bool.and_eq_true, beq_iff_eq] using hs

theorem precedence_write (h : (Operator.connective op).written? f = some (w, p, alone))
    (c : LetterCase) : (f.grammar c).precedence (c.write w) = p := by
  rw [precedence, (speaks_write h c).2]
  rfl

/-- Operators bind as loosely as `or`, as tightly as `and`, or more tightly than either. -/
theorem written?_cases (h : (Operator.connective op).written? f = some (w, p, alone)) :
    op.loose f = true ∧ p = Joiner.either.precedence ∧ alone = none ∨
      op.loose f = false ∧ p = Joiner.both.precedence ∧ op = .and ∨
      op.loose f = false ∧ Joiner.both.precedence < p := by
  cases f <;> cases op <;> cases h <;> decide +kernel

theorem either_le (h : (Operator.connective op).written? f = some (w, p, alone)) :
    Joiner.either.precedence ≤ p := by
  rcases written?_cases h with ⟨-, rfl, -⟩ | ⟨-, rfl, -⟩ | ⟨-, hp⟩
  · exact le_rfl
  · exact Joiner.either_lt_both.le
  · exact (Joiner.either_lt_both.trans hp).le

theorem exists_written? {u : Word} (h : f.connective? c u = some op) :
    ∃ w p alone, (Operator.connective op).written? f = some (w, p, alone) ∧ c.write w = u := by
  have hfound := List.find?_some h
  obtain ⟨⟨w, p, alone⟩, hw, hu⟩ := (Option.any_eq_true _ _).mp hfound
  exact ⟨w, p, alone, hw, beq_iff_eq.mp hu⟩

/-- Of the words that bind as tightly as `and` there is only one for conditions. -/
theorem eq_and {u : Word} (h : f.connective? c u = some op)
    (hp : (f.grammar c).precedence u = Joiner.both.precedence) : op = .and := by
  obtain ⟨w, p, alone, hw, rfl⟩ := exists_written? h
  rw [precedence_write hw] at hp
  rcases written?_cases hw with ⟨-, rfl, -⟩ | ⟨-, -, rfl⟩ | ⟨-, hlt⟩
  · exact absurd hp Joiner.either_lt_both.ne
  · rfl
  · exact absurd hp hlt.ne'

end Connective

namespace Flavor

/-- Conditions are joined by the words of the operators between them. -/
theorem written?_joiner (f : Flavor) (j : Joiner) :
    ∃ alone, (Operator.connective j.connective).written? f =
      some (f.dialect.keywords (.joiner j), j.precedence, alone) := by
  cases f <;> cases j <;> exact ⟨_, rfl⟩

theorem isPiece_joining (f : Flavor) (c : LetterCase) (j : Joiner) :
    isPiece (f.joining c j) = true := by
  obtain ⟨alone, h⟩ := f.written?_joiner j
  exact (Connective.speaks_write h c).1

theorem precedence?_joining (f : Flavor) (c : LetterCase) (j : Joiner) :
    (f.grammar c).precedence? (f.joining c j) = some j.precedence := by
  obtain ⟨alone, h⟩ := f.written?_joiner j
  exact (Connective.speaks_write h c).2

theorem precedence_joining (f : Flavor) (c : LetterCase) (j : Joiner) :
    (f.grammar c).precedence (f.joining c j) = j.precedence := by
  obtain ⟨alone, h⟩ := f.written?_joiner j
  exact Connective.precedence_write h c

theorem connective?_joining (f : Flavor) (c : LetterCase) (j : Joiner) :
    f.connective? c (f.joining c j) = some j.connective := by
  obtain ⟨alone, h⟩ := f.written?_joiner j
  exact Connective.connective?_write h c

end Flavor

/-! ## Truth values -/

namespace Reading.Phrase

/-- The truth value of a phrase of columns, negations and operators, given the values of texts. -/
def value? (f : Flavor) (c : LetterCase) (v : Word → Bool) : Phrase → Option Bool
  | atom u => some (v u)
  | grouped x => x.value? f c v
  | negated w x => if w = c.write "not" then (x.value? f c v).map (!·) else none
  | binary l w r =>
    match f.connective? c w, l.value? f c v, r.value? f c v with
    | some op, some x, some y => some (op.on x y)
    | _, _, _ => none
  | _ => none

theorem value?_binary {l r : Phrase} {w : Word} {op : Connective} {x y : Bool}
    (hw : f.connective? c w = some op) (hl : l.value? f c v = some x)
    (hr : r.value? f c v = some y) : (binary l w r).value? f c v = some (op.on x y) := by
  rw [value?, hw, hl, hr]

theorem exists_of_value?_binary {l r : Phrase} {w : Word} {b : Bool}
    (h : (binary l w r).value? f c v = some b) :
    ∃ op x y, f.connective? c w = some op ∧ l.value? f c v = some x ∧ r.value? f c v = some y ∧
      op.on x y = b := by
  rw [value?] at h
  split at h
  · next op x y hop hx hy => exact ⟨op, x, y, hop, hx, hy, Option.some.inj h⟩
  · cases h

theorem value?_above (p : Rat) (x : Phrase) :
    ((f.grammar c).above p x).value? f c v = x.value? f c v := by
  cases x with
  | binary l w r =>
    rw [above]
    split <;> rfl
  | _ => rfl

/-- A word in front of what has a truth value belongs to all of it. -/
theorem tighten_eq_negated {x : Phrase} {b : Bool} (h : x.value? f c v = some b) (w : Word) :
    x.tighten [w] = negated w x := by
  cases x with
  | judged _ _ => cases h
  | among _ _ _ => cases h
  | _ => rfl

theorem value?_graft_of_tight {j : Joiner} {u x : Phrase} {a b : Bool}
    (hu : (f.grammar c).Over j.precedence u) (hx : x.Tight) (ha : u.value? f c v = some a)
    (hb : x.value? f c v = some b) :
    ((f.grammar c).graft u (f.joining c j) x).value? f c v = some (j.on a b) := by
  rw [graft_of_tight (by rwa [f.precedence_joining c j]) hx,
    value?_binary (f.connective?_joining c j) ha hb, j.on_connective]

/-- Conditions behind `and` do not depend on how those within them are taken together. -/
theorem value?_graft_both {u : Phrase} {a : Bool} (hu : (f.grammar c).Over Joiner.both.precedence u)
    (ha : u.value? f c v = some a) : ∀ {x : Phrase} {b : Bool},
      (f.grammar c).Over Joiner.both.precedence x → x.value? f c v = some b →
        ((f.grammar c).graft u (f.joining c .both) x).value? f c v = some (a && b)
  | .binary l w r, b, hx, hb => by
    have hp := f.precedence_joining c .both
    rw [graft_binary (by rwa [hp]) (by rwa [hp]), hp]
    split
    · exact value?_binary (f.connective?_joining c .both) ha hb
    · next hw =>
      obtain ⟨op, y, z, hop, hy, hz, rfl⟩ := exists_of_value?_binary hb
      obtain rfl := Connective.eq_and hop ((not_lt.mp hw).antisymm hx.1)
      rw [value?_binary hop (value?_graft_both hu ha hx.2 hy) hz]
      exact congrArg some (Bool.and_assoc a y z)
  | .atom _, b, _, hb | .call .., b, _, hb | .grouped _, b, _, hb | .negated .., b, _, hb
  | .judged .., b, _, hb | .among .., b, _, hb => by
    exact value?_graft_of_tight (j := .both) hu trivial ha hb

theorem value?_enclose (F : Formula) (misread : Rat → Bool) (x : Phrase) :
    (F.enclose f misread x).value? f c v = x.value? f c v := by
  unfold Formula.enclose
  split
  · split <;> rfl
  · rfl

end Reading.Phrase

open Phrase

/-! ## Sentences -/

namespace Sentence

def formula : Sentence → Formula
  | column n => .column n
  | not x => .not x.formula
  | connect op l r => .binary (.connective op) l.formula r.formula

/-- What is read of a sentence. -/
def phrase (f : Flavor) (c : LetterCase) (s : Site) (t : Table) (S : Sentence) : Phrase :=
  S.formula.phrase f c s t

/-- The values of columns that go with those of their texts. -/
def values (c : LetterCase) (s : Site) (t : Table) (v : Word → Bool) (n : String) : Bool :=
  v (chars c (s.spelled t n))

theorem phrase_not (x : Sentence) : (not x).phrase f c s t =
    (x.formula.enclose f (fun _ => true) (x.phrase f c s t)).tighten [c.write "not"] := rfl

theorem phrase_connect {op : Connective} {w : String} {p : Rat} {alone : Option Bool}
    (hw : (Operator.connective op).written? f = some (w, p, alone)) (l r : Sentence) :
    (connect op l r).phrase f c s t =
      .binary
        (l.formula.enclose f (fun q => if alone = some true then q ≤ p else q < p)
          (l.phrase f c s t))
        (c.write w) (r.formula.enclose f (fun q => q ≤ p) (r.phrase f c s t)) := by
  rw [phrase, formula, Formula.phrase, hw]
  rfl

theorem exists_written? {op : Connective} {l r : Sentence}
    (h : (connect op l r).formula.Written f) :
    ∃ w p alone, (Operator.connective op).written? f = some (w, p, alone) := by
  obtain ⟨⟨w, p, alone⟩, hw⟩ := Option.isSome_iff_exists.mp h.1
  exact ⟨w, p, alone, hw⟩

/-- The text of a sentence has the value of the sentence. -/
theorem value?_phrase {S : Sentence} (h : S.formula.Written f) :
    (S.phrase f c s t).value? f c v = some (S.value (values c s t v)) := by
  induction S with
  | column n => rfl
  | not x ih =>
    have hx := (value?_enclose x.formula (fun _ => true) _).trans (ih h)
    rw [phrase_not, tighten_eq_negated hx, value?, if_pos rfl, hx]
    rfl
  | connect op l r ihl ihr =>
    obtain ⟨w, p, alone, hw⟩ := exists_written? h
    rw [phrase_connect hw, value]
    exact value?_binary (Connective.connective?_write hw c)
      ((value?_enclose _ _ _).trans (ihl h.2.1)) ((value?_enclose _ _ _).trans (ihr h.2.2))

theorem phrase_not_eq {x : Sentence} (h : x.formula.Written f) : (not x).phrase f c s t =
    .negated (c.write "not") (x.formula.enclose f (fun _ => true) (x.phrase f c s t)) :=
  tighten_eq_negated (v := fun _ => false) ((value?_enclose _ _ _).trans (value?_phrase h)) _

theorem formula_precedence?_eq_none {S : Sentence} (h : S.formula.Written f)
    (hp : S.formula.precedence? f = none) : (S.phrase f c s t).Tight := by
  cases S with
  | column n => trivial
  | not x =>
    rw [phrase_not_eq (x := x) h]
    trivial
  | connect op l r =>
    obtain ⟨w, p, alone, hw⟩ := exists_written? h
    rw [formula, Formula.precedence?, hw] at hp
    cases hp

/-- An operand has no operator at its left end that binds more loosely than what is not misread. -/
theorem over_enclose {F : Formula} {x : Phrase} {p : Rat} {misread : Rat → Bool}
    (hnone : F.precedence? f = none → x.Tight)
    (hsome : ∀ q, F.precedence? f = some q → (f.grammar c).Over q x)
    (hm : ∀ q, misread q = false → p ≤ q) : (f.grammar c).Over p (F.enclose f misread x) := by
  unfold Formula.enclose
  cases hF : F.precedence? f with
  | none => exact Tight.over (hnone hF) p
  | some q =>
    dsimp only
    split
    · trivial
    · next hq => exact (hsome q hF).mono (hm q (Bool.eq_false_of_not_eq_true hq))

/-- The operator of a sentence is that of its text, and no operator at the left end of the text
binds more loosely. -/
theorem root {S : Sentence} (h : S.formula.Written f) {p : Rat}
    (hp : S.formula.precedence? f = some p) :
    Joiner.either.precedence ≤ p ∧ ∃ l w r, S.phrase f c s t = .binary l w r ∧
      (f.grammar c).precedence w = p ∧ (f.grammar c).Over p l := by
  induction S generalizing p with
  | column n => cases hp
  | not x _ => cases hp
  | connect op l r ihl _ =>
    obtain ⟨w, q, alone, hw⟩ := exists_written? h
    rw [formula, Formula.precedence?, hw] at hp
    cases hp
    refine ⟨Connective.either_le hw, _, _, _, phrase_connect hw l r,
      Connective.precedence_write hw c, ?_⟩
    refine over_enclose (formula_precedence?_eq_none h.2.1) (fun q' hq' => ?_) fun q' hq' => ?_
    · obtain ⟨-, a, u, b, hl, hu, ha⟩ := ihl h.2.1 hq'
      rw [hl]
      exact ⟨hu.ge, ha⟩
    · split at hq'
      · exact le_of_lt (by simpa using hq')
      · simpa using hq'

theorem layered {S : Sentence} (h : S.formula.Written f) :
    (f.grammar c).Layered Joiner.either.precedence (S.phrase f c s t) := by
  cases hp : S.formula.precedence? f with
  | none => exact Tight.layered (formula_precedence?_eq_none h hp) _
  | some p =>
    obtain ⟨hle, l, w, r, hphrase, hw, hl⟩ := root (c := c) (s := s) (t := t) h hp
    rw [hphrase]
    exact ⟨hle.trans hw.ge, hw ▸ hl⟩

/-- A sentence is enclosed among conditions if its operator binds more loosely than the word between
them. -/
theorem above_eq {S : Sentence} (h : S.formula.Written f) (q : Rat) :
    (f.grammar c).above q (S.phrase f c s t) =
      S.formula.enclose f (fun p => p < q) (S.phrase f c s t) := by
  unfold Formula.enclose
  cases hp : S.formula.precedence? f with
  | none => exact Tight.above (formula_precedence?_eq_none h hp) q
  | some p =>
    obtain ⟨-, l, w, r, hphrase, hw, -⟩ := root (c := c) (s := s) (t := t) h hp
    rw [hphrase, above, hw]
    simp only [decide_eq_true_eq]

/-- An operand of an operator as loose as `or` is never enclosed on the left. -/
theorem enclose_eq {S : Sentence} (h : S.formula.Written f) {misread : Rat → Bool}
    (hm : ∀ p, Joiner.either.precedence ≤ p → misread p = false) (x : Phrase) :
    S.formula.enclose f misread x = x := by
  unfold Formula.enclose
  cases hp : S.formula.precedence? f with
  | none => rfl
  | some p =>
    have hle := (root (c := .lower) (s := ⟨f.dialect, [], []⟩) (t := ⟨0, "", none, none⟩) h hp).1
    exact if_neg (Bool.eq_false_iff.mp (hm p hle))

/-- What is read of `or` and a sentence, behind what is read before. -/
theorem value?_graft {S : Sentence} (h : S.formula.Written f) {u : Phrase} {b : Bool}
    (hu : (f.grammar c).Over Joiner.either.precedence u) (hb : u.value? f c v = some b) :
    ((f.grammar c).graft u (f.joining c .either) (S.phrase f c s t)).value? f c v =
      some (S.after f (values c s t v) b) := by
  have hprec := f.precedence_joining c .either
  have hor := f.connective?_joining c .either
  induction S with
  | column n => exact value?_graft_of_tight (j := .either) hu trivial hb (value?_phrase h)
  | not x _ =>
    have htight := formula_precedence?_eq_none (c := c) (s := s) (t := t) h rfl
    exact value?_graft_of_tight (j := .either) hu htight hb (value?_phrase h)
  | connect op l r ihl _ =>
    obtain ⟨w, p, alone, hw⟩ := exists_written? h
    have hover := (layered (c := c) (s := s) (t := t) h).over
    have hwhole := value?_phrase (c := c) (s := s) (t := t) (v := v) h
    rw [phrase_connect hw] at hover hwhole ⊢
    rw [graft_binary (by rwa [hprec]) (by rwa [hprec]), hprec,
      Connective.precedence_write hw, after]
    rcases Connective.written?_cases hw with ⟨hop, rfl, rfl⟩ | ⟨hop, rfl, -⟩ | ⟨hop, hlt⟩
    · -- The sentence on the left is not enclosed, and comes apart in turn.
      rw [if_neg (lt_irrefl _), if_pos hop, enclose_eq h.2.1 fun q hq => by simpa using hq]
      exact value?_binary (Connective.connective?_write hw c) (ihl h.2.1)
        ((value?_enclose _ _ _).trans (value?_phrase h.2.2))
    · rw [if_pos Joiner.either_lt_both, if_neg (by simp [hop])]
      exact value?_binary hor hb hwhole
    · rw [if_pos (Joiner.either_lt_both.trans hlt), if_neg (by simp [hop])]
      exact value?_binary hor hb hwhole

end Sentence

/-! ## Chains -/

mutual

/-- What is read of a chain, call by call. -/
def Chain.phrase (f : Flavor) (c : LetterCase) (s : Site) (t : Table) : Chain → Phrase
  | .first _ p => p.phrase f c s t
  | .more C m p =>
    let g := f.grammar c
    let j := m.link.joiner
    g.graft (g.above j.precedence (C.phrase f c s t)) (f.joining c j)
      (g.above j.precedence (p.phrase f c s t))

def Part.phrase (f : Flavor) (c : LetterCase) (s : Site) (t : Table) : Part → Phrase
  | .sentence S => S.phrase f c s t
  | .draft C => .grouped (C.phrase f c s t)

end

mutual

/-- The dialect has a way to write all that is in the chain. -/
def Chain.Written (f : Flavor) : Chain → Prop
  | .first _ p => p.Written f
  | .more C _ p => C.Written f ∧ p.Written f

def Part.Written (f : Flavor) : Part → Prop
  | .sentence S => S.formula.Written f
  | .draft C => C.Written f

end

theorem layered_graft {j : Joiner} {u x : Phrase} (hu : (f.grammar c).Over j.precedence u)
    (hx : (f.grammar c).Over j.precedence x) :
    (f.grammar c).Layered Joiner.either.precedence
      ((f.grammar c).graft u (f.joining c j) x) := by
  have hprec := f.precedence_joining c j
  obtain ⟨l, w, r, heq, hw⟩ :=
    exists_graft_eq (w := f.joining c j) (by rwa [hprec] : (f.grammar c).Over _ u) (by rwa [hprec])
  have hover := hu.graft hprec.ge hx
  rw [heq] at hover ⊢
  rw [hprec] at hw
  exact ⟨hw ▸ j.either_le, hw ▸ hover.2⟩

mutual

theorem Chain.layered : ∀ {C : Chain}, C.Written f →
    (f.grammar c).Layered Joiner.either.precedence (C.phrase f c s t)
  | .first _ _, h => Part.layered h
  | .more _ _ _, h => layered_graft ((Chain.layered h.1).above _) ((Part.layered h.2).above _)

theorem Part.layered : ∀ {p : Part}, p.Written f →
    (f.grammar c).Layered Joiner.either.precedence (p.phrase f c s t)
  | .sentence _, h => Sentence.layered h
  | .draft _, _ => trivial

end

mutual

/-- The text of a chain says what `Chain.said` works out. -/
theorem Chain.value?_phrase : ∀ {C : Chain}, C.Written f →
    (C.phrase f c s t).value? f c v = some (C.said f (Sentence.values c s t v))
  | .first _ _, h => Part.value?_phrase h
  | .more _ _ _, h =>
    Part.value?_graft h.2 ((Chain.layered h.1).above _)
      ((value?_above _ _).trans (Chain.value?_phrase h.1))

theorem Part.value?_phrase : ∀ {p : Part}, p.Written f →
    (p.phrase f c s t).value? f c v = some (p.said f (Sentence.values c s t v) none)
  | .sentence _, h => Sentence.value?_phrase h
  | .draft _, h => Chain.value?_phrase (C := _) h

theorem Part.value?_graft {j : Joiner} {u : Phrase} {b : Bool} : ∀ {p : Part}, p.Written f →
    (f.grammar c).Over j.precedence u → u.value? f c v = some b →
    ((f.grammar c).graft u (f.joining c j)
      ((f.grammar c).above j.precedence (p.phrase f c s t))).value? f c v =
        some (p.said f (Sentence.values c s t v) (some (j, b)))
  | .sentence S, h, hu, hb => by
    have hlayered := S.layered (c := c) (s := s) (t := t) h
    cases j with
    | both =>
      exact value?_graft_both hu hb (hlayered.above _)
        ((value?_above _ _).trans (Sentence.value?_phrase h))
    | either =>
      rw [Part.phrase, hlayered.above_eq]
      exact Sentence.value?_graft h hu hb
  | .draft _, h, hu, hb => value?_graft_of_tight hu trivial hb (Chain.value?_phrase h)

end

end SqlDraft
