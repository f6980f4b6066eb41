import Mathlib.Algebra.Order.Ring.Unbundled.Rat
import SqlDraft.Proofs.Reading.Nest

/-! What an expression says to whoever reads its text. Operators with a higher precedence bind
tighter, and among equals the one further left does (`Grammar.attach`). A word in front of an
operand, or behind one, belongs to that operand alone.

A text is read from left to right, one pair of parentheses at a time (`Grammar.run`). -/

namespace SqlDraft.Reading

abbrev Word := List Char

/-- The words that mean something within expressions. -/
structure Grammar where
  /-- Operators between their operands, with their precedence. -/
  infixes : List (Word × Rat)
  prefixes : List Word
  postfixes : List (List Word)
  memberships : List Word
  /-- What statements begin with. -/
  statements : List Word

inductive Phrase where
  /-- What is not read any further: a column, a literal, a number, or a whole statement. -/
  | atom (text : Word)
  | call (name : Word) (args : List Phrase)
  | grouped (x : Phrase)
  | negated (word : Word) (x : Phrase)
  | judged (x : Phrase) (words : List Word)
  | among (x : Phrase) (word : Word) (items : List Phrase)
  | binary (left : Phrase) (word : Word) (right : Phrase)

namespace Phrase

/-- No operator stands between operands outside parentheses. -/
def Tight : Phrase → Prop
  | binary .. => False
  | _ => True

/-- The phrase with words in front, the first of them outermost. -/
def negate (words : List Word) (x : Phrase) : Phrase := words.foldr negated x

/-- What words in front of a phrase come to mean. They belong to the operand behind them, so what
stands behind that is taken with them. -/
def tighten (words : List Word) : Phrase → Phrase
  | judged x ws => judged (x.tighten words) ws
  | among x w items => among (x.tighten words) w items
  | x => negate words x

/-- Changes the operand at the end. -/
def onLast (k : Phrase → Phrase) : Phrase → Phrase
  | binary l w r => binary l w (r.onLast k)
  | x => k x

end Phrase

namespace Grammar

open Phrase

variable (g : Grammar)

def precedence? (w : Word) : Option Rat := g.infixes.lookup w

def precedence (w : Word) : Rat := (g.precedence? w).getD 0

/-- A phrase with an operator and one more operand behind it. -/
def attach : Phrase → Word → Phrase → Phrase
  | .binary l v r, w, x =>
    if g.precedence v < g.precedence w then .binary l v (attach r w x)
    else .binary (.binary l v r) w x
  | t, w, x => .binary t w x

/-- A phrase with an operator and all that is read in a further phrase behind it. -/
def graft (t : Phrase) (w : Word) : Phrase → Phrase
  | .binary l v r =>
    if g.precedence w < g.precedence v then g.attach t w (.binary l v r)
    else g.attach (graft t w l) v r
  | x => g.attach t w x

/-- What is read so far, with the operator that waits for an operand. -/
abbrev Left := Option (Phrase × Word)

/-- A phrase behind what is read so far. -/
def behind (left : Left) (x : Phrase) : Phrase :=
  match left with
  | none => x
  | some (t, w) => g.graft t w x

end Grammar

/-- What the next piece may be. -/
inductive Mode where
  /-- An operand, or one more word in front of it. -/
  | operand (left : Grammar.Left) (words : List Word)
  /-- After a piece in the place of an operand. -/
  | named (left : Grammar.Left) (words : List Word) (text : Word)
  /-- After an operand. -/
  | complete (x : Phrase)
  /-- Within words behind an operand. -/
  | judging (x : Phrase) (words : List Word)
  /-- After a word that asks for a list. -/
  | sought (x : Phrase) (word : Word)

/-- A place in a list of expressions, with the expressions before it. -/
structure Place where
  items : List Phrase
  mode : Mode

namespace Grammar

open Phrase

variable (g : Grammar)

def start : Place := ⟨[], .operand none []⟩

/-- The expression that ends here, if one may. -/
def settled? : Mode → Option Phrase
  | .named left ws t => some (g.behind left (negate ws (.atom t)))
  | .complete x => some x
  | _ => none

/-- Words behind an operand, as far as they are read. -/
def judge (items : List Phrase) (x : Phrase) (ws : List Word) : Option Place :=
  if ws ∈ g.postfixes then some ⟨items, .complete (x.onLast (.judged · ws))⟩
  else if g.postfixes.any (ws.isPrefixOf ·) then some ⟨items, .judging x ws⟩
  else none

/-- The first word behind an operand. -/
def operator (items : List Phrase) (x : Phrase) (w : Word) : Option Place :=
  if (g.precedence? w).isSome then some ⟨items, .operand (some (x, w)) []⟩
  else if w ∈ g.memberships then some ⟨items, .sought x w⟩
  else g.judge items x [w]

def piece (p : Place) (t : Word) : Option Place :=
  match p.mode with
  | .operand left ws =>
    if t ∈ g.prefixes then some ⟨p.items, .operand left (ws ++ [t])⟩
    else some ⟨p.items, .named left ws t⟩
  | .judging x ws => g.judge p.items x (ws ++ [t])
  | m => (g.settled? m).bind fun x => g.operator p.items x t

def comma (p : Place) : Option Place :=
  (g.settled? p.mode).map fun x => ⟨p.items ++ [x], .operand none []⟩

/-- The expressions of a list that ends here. -/
def finish (p : Place) : Option (List Phrase) :=
  match p.items, p.mode with
  | [], .operand none [] => some []
  | items, m => (g.settled? m).map fun x => items ++ [x]

/-- Parentheses: a statement, a call, a list to search, or an expression of its own. -/
def group (p : Place) (inside : Nest) (read : Option (List Phrase)) : Option Place :=
  match p.mode with
  | .operand left ws =>
    if inside.lead ∈ g.statements then
      let t := Phrase.atom ('(' :: inside.text ++ [')'])
      some ⟨p.items, .complete (g.behind left (negate ws t))⟩
    else
      match read with
      | some [x] => some ⟨p.items, .complete (g.behind left (negate ws (.grouped x)))⟩
      | _ => none
  | .named left ws t =>
    read.map fun xs => ⟨p.items, .complete (g.behind left (negate ws (.call t xs)))⟩
  | .sought x w => read.map fun xs => ⟨p.items, .complete (x.onLast (.among · w xs))⟩
  | _ => none

/-- Reads on from a place. Gaps only keep pieces apart. -/
def run : Nest → Place → Option Place
  | .nil, p => some p
  | .piece t n, p => (g.piece p t).bind fun p => run n p
  | .space n, p => run n p
  | .comma n, p => (g.comma p).bind fun p => run n p
  | .group i n, p => (g.group p i ((run i start).bind g.finish)).bind fun p => run n p

/-- A list of expressions. -/
def readAll (n : Nest) : Option (List Phrase) := (g.run n start).bind g.finish

/-- The expression that a text says, if it is one. -/
def read (x : Lexis) (s : List Char) : Option Phrase :=
  match (nest? (scan x s)).bind g.readAll with
  | some [φ] => some φ
  | _ => none

theorem piece_operand (items : List Phrase) (left : Left) (ws : List Word) (t : Word) :
    g.piece ⟨items, .operand left ws⟩ t =
      if t ∈ g.prefixes then some ⟨items, .operand left (ws ++ [t])⟩
      else some ⟨items, .named left ws t⟩ := rfl

theorem piece_judging (items : List Phrase) (x : Phrase) (ws : List Word) (t : Word) :
    g.piece ⟨items, .judging x ws⟩ t = g.judge items x (ws ++ [t]) := rfl

end Grammar

/-! ## Words in front -/

namespace Phrase

theorem tighten_nil : ∀ x : Phrase, x.tighten [] = x
  | judged x ws => by rw [tighten, tighten_nil x]
  | among x w items => by rw [tighten, tighten_nil x]
  | atom _ | call .. | grouped _ | negated .. | binary .. => rfl

theorem tighten_append (ws vs : List Word) :
    ∀ x : Phrase, x.tighten (ws ++ vs) = (x.tighten vs).tighten ws
  | judged x us => by rw [tighten, tighten, tighten, tighten_append ws vs x]
  | among x w items => by rw [tighten, tighten, tighten, tighten_append ws vs x]
  | atom _ | call .. | grouped _ | negated .. | binary .. => by
    cases vs with
    | nil => simp only [List.append_nil, tighten_nil]
    | cons v vs => simp only [tighten, negate, List.foldr_append, List.foldr_cons]

theorem Tight.tighten {x : Phrase} (h : x.Tight) (ws : List Word) : (x.tighten ws).Tight := by
  cases ws with
  | nil => rwa [tighten_nil]
  | cons w ws => cases x <;> trivial

theorem Tight.onLast {x : Phrase} (h : x.Tight) (k : Phrase → Phrase) : x.onLast k = k x := by
  cases x with
  | binary l w r => exact h.elim
  | _ => rfl

end Phrase

/-! ## Attaching -/

namespace Grammar

open Phrase

variable {g : Grammar}

/-- An operator that binds more loosely than all at the root takes the whole phrase. -/
theorem attach_of_root {t : Phrase} {w : Word}
    (h : ∀ l v r, t = .binary l v r → g.precedence w ≤ g.precedence v) (x : Phrase) :
    g.attach t w x = .binary t w x := by
  cases t with
  | binary l v r => rw [attach, if_neg (not_lt_of_ge (h l v r rfl))]
  | _ => rfl

theorem attach_attach {w v : Word} (h : g.precedence w < g.precedence v) (x r : Phrase) :
    ∀ t : Phrase, g.attach (g.attach t w x) v r = g.attach t w (g.attach x v r)
  | .binary a u b => by
    rw [attach, attach]
    split
    · next hu => rw [attach, if_pos (hu.trans h), attach_attach h x r b]
    · rw [attach, if_pos h]
  | .atom _ | .call .. | .grouped _ | .negated .. | .judged .. | .among .. => by
    show g.attach (.binary _ w x) v r = .binary _ w _
    rw [attach, if_pos h]

theorem onLast_attach (k : Phrase → Phrase) (w : Word) (x : Phrase) :
    ∀ t : Phrase, (g.attach t w x).onLast k = g.attach t w (x.onLast k)
  | .binary a u b => by
    rw [attach, attach]
    split
    · rw [onLast, onLast_attach k w x b]
    · rfl
  | .atom _ | .call .. | .grouped _ | .negated .. | .judged .. | .among .. => rfl

theorem Tight.graft {x : Phrase} (h : x.Tight) (t : Phrase) (w : Word) :
    g.graft t w x = g.attach t w x := by
  cases x with
  | binary l v r => exact h.elim
  | _ => rfl

theorem graft_of_root {x : Phrase} {w : Word}
    (h : ∀ l v r, x = .binary l v r → g.precedence w < g.precedence v) (t : Phrase) :
    g.graft t w x = g.attach t w x := by
  cases x with
  | binary l v r => rw [Grammar.graft, if_pos (h l v r rfl)]
  | _ => rfl

/-- Reading an operator and its right operand behind what was read of its left operand gives the
same as reading all of it behind what was there before. -/
theorem attach_behind {left : Left} {l r : Phrase} {v : Word}
    (h : ∀ a u b, l = .binary a u b → g.precedence v ≤ g.precedence u) :
    g.attach (g.behind left l) v r = g.behind left (.binary l v r) := by
  rcases left with - | ⟨t, w⟩
  · exact attach_of_root h r
  · show g.attach (g.graft t w l) v r = g.graft t w (.binary l v r)
    rw [Grammar.graft]
    split
    · next hv =>
      rw [graft_of_root fun a u b hl => hv.trans_le (h a u b hl), attach_attach hv,
        attach_of_root h]
    · rfl

/-! ## Rows of operators -/

/-- No operator at the left end binds more loosely than that. -/
def Over (g : Grammar) (p : Rat) : Phrase → Prop
  | .binary l v _ => p ≤ g.precedence v ∧ Over g p l
  | _ => True

theorem Over.mono {p q : Rat} (hpq : p ≤ q) : ∀ {x : Phrase}, g.Over q x → g.Over p x
  | .binary _ _ _, h => ⟨hpq.trans h.1, h.2.mono hpq⟩
  | .atom _, _ | .call .., _ | .grouped _, _ | .negated .., _ | .judged .., _ | .among .., _ =>
    trivial

theorem Tight.over {x : Phrase} (h : x.Tight) (p : Rat) : g.Over p x := by
  cases x with
  | binary l v r => exact h.elim
  | _ => trivial

theorem Over.root {p : Rat} {x l r : Phrase} {v : Word} (h : g.Over p x) (hx : x = .binary l v r) :
    p ≤ g.precedence v := by
  subst hx
  exact h.1

theorem Over.attach {p : Rat} {w : Word} (hw : p ≤ g.precedence w) (x : Phrase) {t : Phrase}
    (ht : g.Over p t) : g.Over p (g.attach t w x) := by
  cases t with
  | binary l v r =>
    rw [Grammar.attach]
    split
    · exact ht
    · exact ⟨hw, ht⟩
  | _ => exact ⟨hw, ht⟩

theorem Over.graft {p : Rat} {w : Word} (hw : p ≤ g.precedence w) {t : Phrase} (ht : g.Over p t) :
    ∀ {x : Phrase}, g.Over p x → g.Over p (g.graft t w x)
  | .binary l v r, hx => by
    rw [Grammar.graft]
    split
    · exact ht.attach hw _
    · exact (ht.graft hw hx.2).attach hx.1 r
  | .atom _, _ | .call .., _ | .grouped _, _ | .negated .., _ | .judged .., _ | .among .., _ =>
    ht.attach hw _

/-- A phrase without operators stands on its own behind an operator that binds no tighter than those
before it. -/
theorem graft_of_tight {w : Word} {t x : Phrase} (ht : g.Over (g.precedence w) t) (hx : x.Tight) :
    g.graft t w x = .binary t w x := by
  rw [Tight.graft hx, attach_of_root fun _ _ _ h => ht.root h]

/-- A phrase with an operator is taken apart behind another one that binds as tightly. -/
theorem graft_binary {w v : Word} {t l r : Phrase} (ht : g.Over (g.precedence w) t)
    (hx : g.Over (g.precedence w) (.binary l v r)) :
    g.graft t w (.binary l v r) =
      if g.precedence w < g.precedence v then .binary t w (.binary l v r)
      else .binary (g.graft t w l) v r := by
  rw [Grammar.graft]
  split
  · exact attach_of_root (fun _ _ _ h => ht.root h) _
  · next hv =>
    exact attach_of_root (fun _ _ _ h => (not_lt.mp hv).trans ((ht.graft le_rfl hx.2).root h)) r

/-- What is read behind an operator, and all of it behind what was there before, where the operator
binds no tighter than those at the left end. -/
theorem graft_behind {left : Left} {t : Phrase} {w : Word} (ht : g.Over (g.precedence w) t) :
    ∀ {x : Phrase}, g.Over (g.precedence w) x →
      g.graft (g.behind left t) w x = g.behind left (g.graft t w x)
  | .binary l v r, hx => by
    rw [graft_binary ht hx, Grammar.graft]
    split
    · exact attach_behind fun _ _ _ h => ht.root h
    · next hv =>
      rw [graft_behind ht hx.2]
      exact attach_behind fun _ _ _ h => (not_lt.mp hv).trans ((ht.graft le_rfl hx.2).root h)
  | .atom _, _ | .call .., _ | .grouped _, _ | .negated .., _ | .judged .., _ | .among .., _ => by
    show g.attach (g.behind left t) w _ = g.behind left (g.attach t w _)
    rw [attach_of_root fun _ _ _ h => ht.root h]
    exact attach_behind fun _ _ _ h => ht.root h

/-- No operator at the left end binds more loosely than the one at the root, and that no more
loosely than asked for. -/
def Layered (g : Grammar) (p : Rat) : Phrase → Prop
  | .binary l v _ => p ≤ g.precedence v ∧ g.Over (g.precedence v) l
  | _ => True

/-- The phrase, in parentheses if its operator binds more loosely than that. -/
def above (g : Grammar) (p : Rat) : Phrase → Phrase
  | .binary l v r => if g.precedence v < p then .grouped (.binary l v r) else .binary l v r
  | x => x

theorem Tight.layered {x : Phrase} (h : x.Tight) (p : Rat) : g.Layered p x := by
  cases x with
  | binary l v r => exact h.elim
  | _ => trivial

theorem Tight.above {x : Phrase} (h : x.Tight) (p : Rat) : g.above p x = x := by
  cases x with
  | binary l v r => exact h.elim
  | _ => rfl

theorem Layered.over {p : Rat} {x : Phrase} (h : g.Layered p x) : g.Over p x := by
  cases x with
  | binary l v r => exact ⟨h.1, h.2.mono h.1⟩
  | _ => trivial

theorem Layered.above_eq {p : Rat} {x : Phrase} (h : g.Layered p x) : g.above p x = x := by
  cases x with
  | binary l v r => exact if_neg (not_lt.mpr h.1)
  | _ => rfl

theorem Layered.above {q : Rat} {x : Phrase} (h : g.Layered q x) (p : Rat) :
    g.Over p (g.above p x) := by
  cases x with
  | binary l v r =>
    rw [Grammar.above]
    split
    · trivial
    · next hv => exact ⟨not_lt.mp hv, h.2.mono (not_lt.mp hv)⟩
  | _ => trivial

/-- What is read behind an operator has an operator at its root that binds no tighter. -/
theorem exists_graft_eq {w : Word} {t x : Phrase} (ht : g.Over (g.precedence w) t)
    (hx : g.Over (g.precedence w) x) :
    ∃ l v r, g.graft t w x = .binary l v r ∧ g.precedence v = g.precedence w := by
  cases x with
  | binary l v r =>
    rw [graft_binary ht hx]
    split
    · exact ⟨_, _, _, rfl, rfl⟩
    · next hv => exact ⟨_, _, _, rfl, (not_lt.mp hv).antisymm hx.1⟩
  | _ => exact ⟨_, _, _, graft_of_tight ht trivial, rfl⟩

theorem onLast_behind {x : Phrase} (h : x.Tight) {k : Phrase → Phrase} (hk : (k x).Tight)
    (left : Left) : (g.behind left x).onLast k = g.behind left (k x) := by
  rcases left with - | ⟨t, w⟩
  · exact h.onLast k
  · show (g.graft t w x).onLast k = g.graft t w (k x)
    rw [Tight.graft h, Tight.graft hk, onLast_attach, h.onLast]

end Grammar

end SqlDraft.Reading
