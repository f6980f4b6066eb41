import SqlDraft.Command
import SqlDraft.Proofs.Formula.Phrase

/-! Conditions added one after the other, and what they are meant to say: each call joins its
condition to all there was before it (`Chain.value`). A text has no place for all of that. A
sentence is not enclosed behind `or`, and where it is made with an operator that binds as loosely,
the text says something else (`Chain.said`). Chains whose texts never do are `safe`; any other goes
wrong for some of its columns (`Chain.exists_said_ne`). -/

namespace SqlDraft

def Connective.on : Connective → Bool → Bool → Bool
  | and, x, y => x && y
  | or, x, y => x || y
  | xor, x, y => x ^^ y

def Joiner.on : Joiner → Bool → Bool → Bool
  | both, x, y => x && y
  | either, x, y => x || y

/-- A condition over columns that is made with operators alone. -/
inductive Sentence where
  | column (name : String)
  | not (x : Sentence)
  | connect (op : Connective) (l r : Sentence)

/-- The call of a method that adds a condition. A scope has the methods of its clause and those of
rows; elsewhere only the methods of the clause itself add to it. -/
structure Call where
  own : Bool
  link : Link

mutual

/-- Calls one after the other. -/
inductive Chain where
  | first (m : Call) (p : Part)
  | more (C : Chain) (m : Call) (p : Part)

/-- What a call adds: a sentence, or a group drafted in a scope of its own. -/
inductive Part where
  | sentence (S : Sentence)
  | draft (C : Chain)

end

/-- What is in front of a condition: nothing, or a word with the value of all there is before it. -/
abbrev Front := Option (Joiner × Bool)

def Front.on : Front → Bool → Bool
  | none, b => b
  | some (j, x), b => j.on x b

/-! ## What is meant, and what is said -/

/-- Whether a dialect takes the operator to bind no tighter than `or` between conditions. -/
def Connective.loose (f : Flavor) (op : Connective) : Bool :=
  ((Operator.connective op).written? f).any fun r => r.2.1 ≤ Joiner.either.precedence

namespace Sentence

def value (v : String → Bool) : Sentence → Bool
  | column n => v n
  | not x => !x.value v
  | connect op l r => op.on (l.value v) (r.value v)

/-- What is said by `or` and the sentence, read behind something of the given value. -/
def after (f : Flavor) (v : String → Bool) (b : Bool) : Sentence → Bool
  | connect op l r =>
    if op.loose f then op.on (l.after f v b) (r.value v) else b || op.on (l.value v) (r.value v)
  | x => b || x.value v

/-- The sentence says the same behind `or` as within parentheses. -/
def clear (f : Flavor) : Sentence → Bool
  | connect op l _ => if op.loose f then op ≠ .xor && l.clear f else true
  | _ => true

/-- What is said of the sentence behind what is in front of it. -/
def said (f : Flavor) (v : String → Bool) : Front → Sentence → Bool
  | some (.either, b), S => S.after f v b
  | left, S => left.on (S.value v)

/-- The sentence without the names of its columns. -/
def shape : Sentence → Sentence
  | column _ => column ""
  | not x => not x.shape
  | connect op l r => connect op l.shape r.shape

end Sentence

mutual

/-- Each call joins its condition to those before it. -/
def Chain.value (v : String → Bool) : Chain → Bool
  | .first _ p => p.value v
  | .more C m p => m.link.joiner.on (C.value v) (p.value v)

def Part.value (v : String → Bool) : Part → Bool
  | .sentence S => S.value v
  | .draft C => C.value v

end

mutual

/-- What the text of a chain says. -/
def Chain.said (f : Flavor) (v : String → Bool) : Chain → Bool
  | .first _ p => p.said f v none
  | .more C m p => p.said f v (some (m.link.joiner, C.said f v))

def Part.said (f : Flavor) (v : String → Bool) (left : Front) : Part → Bool
  | .sentence S => S.said f v left
  | .draft C => left.on (C.said f v)

end

mutual

/-- No sentence behind `or` is read as anything but a whole, at whatever depth. -/
def Chain.safe (f : Flavor) : Chain → Bool
  | .first _ p => p.safe f none
  | .more C m p => C.safe f && p.safe f (some m.link.joiner)

def Part.safe (f : Flavor) (j : Option Joiner) : Part → Bool
  | .sentence S => j ≠ some .either || S.clear f
  | .draft C => C.safe f

end

mutual

/-- The chain without the names of its columns. -/
def Chain.shape : Chain → Chain
  | .first m p => .first m p.shape
  | .more C m p => .more C.shape m p.shape

def Part.shape : Part → Part
  | .sentence S => .sentence S.shape
  | .draft C => .draft C.shape

end

/-! ## Safe chains -/

variable {f : Flavor} {v : String → Bool}

theorem Connective.loose_and (f : Flavor) : Connective.and.loose f = false := by
  cases f <;> rfl

theorem Connective.loose_or (f : Flavor) : Connective.or.loose f = true := by
  cases f <;> rfl

namespace Sentence

theorem after_of_clear {S : Sentence} (h : S.clear f = true) (b : Bool) :
    S.after f v b = (b || S.value v) := by
  induction S with
  | column n => rfl
  | not x _ => rfl
  | connect op l r ihl _ =>
    rw [clear] at h
    rw [after, value]
    split
    · next hop =>
      rw [if_pos hop, Bool.and_eq_true] at h
      cases op with
      | and => rw [Connective.loose_and] at hop; cases hop
      | or => rw [ihl h.2, Connective.on, Connective.on, Bool.or_assoc]
      | xor => simp at h
    · rfl

theorem said_of_clear {S : Sentence} (h : S.clear f = true) (left : Front) :
    S.said f v left = left.on (S.value v) := by
  unfold said
  split
  · exact after_of_clear h _
  · rfl

theorem said_of_ne {S : Sentence} {left : Front} (h : left.map Prod.fst ≠ some .either) :
    S.said f v left = left.on (S.value v) := by
  unfold said
  split
  · exact absurd rfl h
  · rfl

end Sentence

mutual

/-- The text of a safe chain says what is meant. -/
theorem Chain.said_eq_value : ∀ {C : Chain}, C.safe f = true → C.said f v = C.value v
  | .first _ _, h => Part.said_eq_on none h
  | .more C m _, h => by
    rw [Chain.safe, Bool.and_eq_true] at h
    rw [Chain.said, Chain.value, Chain.said_eq_value h.1]
    exact Part.said_eq_on (some (m.link.joiner, C.value v)) h.2

theorem Part.said_eq_on {p : Part} (left : Front) (h : p.safe f (left.map Prod.fst) = true) :
    p.said f v left = left.on (p.value v) := by
  match p with
  | .sentence S =>
    simp only [Part.safe, Bool.or_eq_true, decide_eq_true_eq] at h
    exact h.elim Sentence.said_of_ne fun h => Sentence.said_of_clear h left
  | .draft _ => rw [Part.said, Part.value, Chain.said_eq_value h]

end

theorem Sentence.clear_shape (S : Sentence) : S.shape.clear f = S.clear f := by
  induction S with
  | column n => rfl
  | not x _ => rfl
  | connect op l r ihl _ => rw [shape, clear, clear, ihl]

mutual

/-- Whether a chain is safe does not depend on the columns in it. -/
theorem Chain.safe_shape : ∀ C : Chain, C.shape.safe f = C.safe f
  | .first _ p => by rw [Chain.shape, Chain.safe, Chain.safe, p.safe_shape]
  | .more C _ p => by rw [Chain.shape, Chain.safe, Chain.safe, C.safe_shape, p.safe_shape]

theorem Part.safe_shape {j : Option Joiner} : ∀ p : Part, p.shape.safe f j = p.safe f j
  | .sentence S => by rw [Part.shape, Part.safe, Part.safe, S.clear_shape]
  | .draft C => by rw [Part.shape, Part.safe, Part.safe, C.safe_shape]

end

/-! ## Names to choose from -/

/-- The name of a column for each truth value. -/
def Sentence.mark (b : Bool) : String := if b then "a" else "b"

/-- The values that go with the marks. -/
def Sentence.marked (n : String) : Bool := n == Sentence.mark true

namespace Sentence

theorem marked_mark (b : Bool) : marked (mark b) = b := by
  cases b <;> decide

/-- The sentence with columns for which it comes to the given value. -/
def fit (b : Bool) : Sentence → Sentence
  | column _ => column (mark b)
  | not x => not (x.fit !b)
  | connect .xor l r => connect .xor (l.fit b) (r.fit false)
  | connect op l r => connect op (l.fit b) (r.fit b)

theorem shape_fit (b : Bool) (S : Sentence) : (S.fit b).shape = S.shape := by
  induction S generalizing b with
  | column n => rfl
  | not x ih => rw [fit, shape, ih, shape]
  | connect op l r ihl ihr => cases op <;> rw [fit, shape, ihl, ihr, shape] <;> nofun

theorem value_fit (b : Bool) (S : Sentence) : (S.fit b).value marked = b := by
  induction S generalizing b with
  | column n => exact marked_mark b
  | not x ih => rw [fit, value, ih, Bool.not_not]
  | connect op l r ihl ihr =>
    cases op with
    | and => rw [fit, value, ihl, ihr, Connective.on, Bool.and_self]; nofun
    | or => rw [fit, value, ihl, ihr, Connective.on, Bool.or_self]; nofun
    | xor => rw [fit, value, ihl, ihr, Connective.on, Bool.xor_false]

/-- A sentence of which nothing is true leaves what is in front of it as it is. -/
theorem after_fit_false (b : Bool) (S : Sentence) : (S.fit false).after f marked b = b := by
  induction S with
  | column n => exact (congrArg (b || ·) (marked_mark false)).trans (Bool.or_false b)
  | not x _ => exact (congrArg (b || ·) (value_fit false (not x))).trans (Bool.or_false b)
  | connect op l r ihl _ =>
    have hvalue := value_fit false (connect op l r)
    cases op with
    | and =>
      rw [fit, value] at hvalue
      · rw [fit, after, Connective.loose_and, if_neg Bool.false_ne_true, hvalue, Bool.or_false]
        nofun
      · nofun
    | or =>
      rw [fit, after, if_pos (Connective.loose_or f), ihl, value_fit, Connective.on, Bool.or_false]
      nofun
    | xor =>
      rw [fit, value] at hvalue
      rw [fit, after]
      split
      · rw [ihl, value_fit, Connective.on, Bool.xor_false]
      · rw [hvalue, Bool.or_false]

/-- A sentence that is not clear can take away the truth of what is in front of it. -/
theorem exists_after_eq_false {S : Sentence} (h : S.clear f = false) :
    ∃ T : Sentence, T.shape = S.shape ∧ T.after f marked true = false := by
  induction S with
  | column n => cases h
  | not x _ => cases h
  | connect op l r ihl _ =>
    rw [clear] at h
    split at h
    · next hop =>
      cases op with
      | and => rw [Connective.loose_and] at hop; cases hop
      | or =>
        obtain ⟨l', hl, hafter⟩ := ihl (by simpa using h)
        refine ⟨connect .or l' (r.fit false), by rw [shape, hl, shape_fit, shape], ?_⟩
        rw [after, if_pos hop, hafter, value_fit]
        rfl
      | xor =>
        refine ⟨connect .xor (l.fit false) (r.fit true), by rw [shape, shape_fit, shape_fit, shape],
          ?_⟩
        rw [after, if_pos hop, after_fit_false, value_fit]
        rfl
    · cases h

end Sentence

/-! ## Chains that are not safe -/

/-- What leaves the other side of the word as it is. -/
def Joiner.neutral : Joiner → Bool
  | both => true
  | either => false

theorem Joiner.on_neutral (j : Joiner) (b : Bool) : j.on b j.neutral = b := by
  cases j
  · exact Bool.and_true b
  · exact Bool.or_false b

mutual

/-- The chain with columns for which it comes to the given value, call by call. -/
def Chain.fit (b : Bool) : Chain → Chain
  | .first m p => .first m (p.fit b)
  | .more C m p => .more (C.fit b) m (p.fit m.link.joiner.neutral)

def Part.fit (b : Bool) : Part → Part
  | .sentence S => .sentence (S.fit b)
  | .draft C => .draft (C.fit b)

end

mutual

theorem Chain.shape_fit (b : Bool) : ∀ C : Chain, (C.fit b).shape = C.shape
  | .first _ p => by rw [Chain.fit, Chain.shape, Part.shape_fit b p, Chain.shape]
  | .more C _ p => by
    rw [Chain.fit, Chain.shape, Chain.shape_fit b C, Part.shape_fit _ p, Chain.shape]

theorem Part.shape_fit (b : Bool) : ∀ p : Part, (p.fit b).shape = p.shape
  | .sentence S => congrArg Part.sentence (S.shape_fit b)
  | .draft C => congrArg Part.draft (C.shape_fit b)

end

mutual

theorem Chain.value_fit (b : Bool) : ∀ C : Chain, (C.fit b).value Sentence.marked = b
  | .first _ p => p.value_fit b
  | .more C m p => by
    rw [Chain.fit, Chain.value, C.value_fit b, p.value_fit, Joiner.on_neutral]

theorem Part.value_fit (b : Bool) : ∀ p : Part, (p.fit b).value Sentence.marked = b
  | .sentence S => S.value_fit b
  | .draft C => C.value_fit b

end

theorem Sentence.said_fit {b : Bool} {left : Front}
    (h : left.map Prod.fst = some .either → b = false)
    (S : Sentence) : (S.fit b).said f marked left = left.on b := by
  unfold said
  split
  · next x =>
    obtain rfl := h rfl
    exact (after_fit_false x S).trans (Bool.or_false x).symm
  · rw [value_fit]

theorem Joiner.neutral_of_either {j : Joiner} (h : some j = some .either) : j.neutral = false := by
  cases h
  rfl

mutual

/-- What is fit is said as it is meant. -/
theorem Chain.said_fit (b : Bool) : ∀ C : Chain, (C.fit b).said f Sentence.marked = b
  | .first _ p => Part.said_fit none nofun p
  | .more C m p => by
    rw [Chain.fit, Chain.said, C.said_fit b,
      Part.said_fit (some (m.link.joiner, b)) Joiner.neutral_of_either p]
    exact m.link.joiner.on_neutral b

theorem Part.said_fit {b : Bool} (left : Front) (h : left.map Prod.fst = some .either → b = false) :
    ∀ p : Part, (p.fit b).said f Sentence.marked left = left.on b
  | .sentence S => S.said_fit h
  | .draft C => by rw [Part.fit, Part.said, C.said_fit b]

end

mutual

/-- A chain that is not safe goes wrong for some of its columns. -/
theorem Chain.exists_said_ne : ∀ {C : Chain}, C.safe f = false →
    ∃ D : Chain, D.shape = C.shape ∧ D.said f Sentence.marked ≠ D.value Sentence.marked
  | .first m p, h => by
    obtain ⟨p', x, hp, hne⟩ := Part.exists_said_ne none h
    exact ⟨.first m p', congrArg (Chain.first m) hp, hne⟩
  | .more C m p, h => by
    rw [Chain.safe, Bool.and_eq_false_iff] at h
    rcases h with h | h
    · -- What follows is made to leave the difference as it is.
      obtain ⟨D, hD, hne⟩ := Chain.exists_said_ne h
      refine ⟨.more D m (p.fit m.link.joiner.neutral), ?_, ?_⟩
      · rw [Chain.shape, hD, Part.shape_fit, Chain.shape]
      · rw [Chain.said, Chain.value,
          Part.said_fit (some (m.link.joiner, _)) Joiner.neutral_of_either p,
          p.value_fit, Joiner.on_neutral]
        exact fun he => hne ((m.link.joiner.on_neutral _).symm.trans he)
    · obtain ⟨p', x, hp, hne⟩ := Part.exists_said_ne (some m.link.joiner) h
      refine ⟨.more (C.fit x) m p', ?_, ?_⟩
      · rw [Chain.shape, hp, Chain.shape_fit, Chain.shape]
      · rw [Chain.said, Chain.value, Chain.said_fit, Chain.value_fit]
        exact hne

theorem Part.exists_said_ne (j : Option Joiner) : ∀ {p : Part}, p.safe f j = false →
    ∃ (p' : Part) (x : Bool), p'.shape = p.shape ∧
      p'.said f Sentence.marked (j.map (·, x)) ≠
        Front.on (j.map (·, x)) (p'.value Sentence.marked)
  | .sentence S, h => by
    simp only [Part.safe, Bool.or_eq_false_iff, decide_eq_false_iff_not, not_not] at h
    obtain ⟨rfl, h⟩ := h
    obtain ⟨T, hT, hafter⟩ := Sentence.exists_after_eq_false h
    refine ⟨.sentence T, true, congrArg Part.sentence hT, ?_⟩
    show T.after f Sentence.marked true ≠ true
    rw [hafter]
    exact Bool.false_ne_true
  | .draft C, h => by
    obtain ⟨D, hD, hne⟩ := Chain.exists_said_ne h
    refine ⟨.draft D, j.any Joiner.neutral, congrArg Part.draft hD, ?_⟩
    rcases j with - | - | -
    · exact hne
    · exact hne
    · exact hne

end

end SqlDraft
