import SqlDraft.Proofs.Condition.Phrase
import SqlDraft.Query.Condition

/-! What is written of the conditions of a chain, and how it is read. A condition that is added to
others is written behind them, however the tree keeps it (`Cond.write_combine`), and the whole is
read as the phrase of the chain (`Chain.Stands.reads`). -/

namespace SqlDraft

open Reading Sql Grammar

mutual

/-- The condition is what the chain makes over columns of the table. -/
def Chain.Stands (t : Table) : Chain → Cond → Prop
  | .first _ p, d => p.Stands t d
  | .more C m p, d => ∃ existing added, C.Stands t existing ∧ p.Stands t added ∧
      d = .combine (some existing) m.link.joiner added

def Part.Stands (t : Table) : Part → Cond → Prop
  | .sentence S, d => ∃ e, S.formula.Stands t e ∧ d = .predicate e
  | .draft C, d => ∃ inside, C.Stands t inside ∧ d = .group inside

end

namespace Cond

/-- A condition with nothing to join. -/
def IsHollow : Cond → Prop
  | joined _ [] => True
  | _ => False

/-- Whether a condition is enclosed next to the word. -/
def yields (s : Site) (j : Joiner) : Cond → Bool
  | predicate e => (s.precedence? e).any (· < j.precedence)
  | joined i _ => i = .either && j = .both
  | group _ => false

variable {s : Site} {j : Joiner} {existing added : Cond}

/-- Next to a word a condition is written like a whole one, but for parentheses. -/
theorem write_within (s : Site) (j : Joiner) (d : Cond) :
    d.write s (some j) =
      (d.write s none).map fun ts => if d.yields s j then ts.enclosed else ts := by
  cases d with
  | predicate e =>
    rw [Cond.write, Cond.write, map_map]
    congr 1
    funext ts
    show s.operand _ e ts = _
    unfold Site.operand
    split
    · next h => rw [yields, h, Option.any_some]
    · next h => rw [yields, h, Option.any_none, if_neg Bool.false_ne_true]
  | group c =>
    rw [Cond.write, Cond.write, map_map]
    rfl
  | joined i cs =>
    rw [Cond.write, Cond.write, Sql.map_bind]
    congr 1
    funext parts
    show (Except.ok _ : Outcome Tokens) = (Except.ok _ : Outcome Tokens).map _
    rw [Except.map]
    simp [yields]

theorem combine_not_hollow (existing added : Cond) (j : Joiner) :
    ¬ (combine (some existing) j added).IsHollow := by
  unfold combine
  split
  · next h => cases h
  · next operands _ =>
    split
    · cases operands <;> exact id
    · exact id
  · exact id

theorem yields_combine (i : Joiner) :
    (combine (some existing) j added).yields s i = (j = .either && i = .both) := by
  unfold combine
  split
  · next h => cases h
  · split <;> rfl
  · rfl

/-- Conditions with the word between each two. -/
def row (s : Site) (j : Joiner) (cs : List Cond) : Outcome Tokens :=
  (gather (cs.map fun c => c.write s (some j))).map
    (Tokens.separated [Tokens.space, s.keyword (.joiner j), Tokens.space])

theorem write_joined (s : Site) (j : Joiner) (cs : List Cond) {within : Option Joiner}
    (h : within = none ∨ within = some j) : (joined j cs).write s within = row s j cs := by
  have hwhole : ¬ (j = .either ∧ within = some .both) := by
    rcases h with rfl | rfl
    · exact nofun
    · rintro ⟨rfl, h⟩
      cases h
  rw [Cond.write, Cond.writeEach_eq_map]
  simp only [if_neg hwhole]
  rfl

theorem row_singleton (s : Site) (j : Joiner) (d : Cond) : row s j [d] = d.write s (some j) := by
  rw [row, List.map_singleton]
  cases d.write s (some j) with
  | error e => rfl
  | ok ts => exact congrArg Except.ok List.intercalate_singleton

theorem gather_append_singleton {os : List (Outcome Tokens)} {o : Outcome Tokens}
    {tss : List Tokens} : gather (os ++ [o]) = .ok tss ↔
      ∃ xss ys, gather os = .ok xss ∧ o = .ok ys ∧ xss ++ [ys] = tss := by
  simp only [gather_eq_ok_iff]
  constructor
  · intro h
    obtain ⟨xss, rest, rfl, rfl, hrest⟩ := List.append_eq_map_iff.mp h
    obtain ⟨ys, rfl, ho⟩ := List.map_eq_singleton_iff.mp hrest
    exact ⟨xss, ys, rfl, ho.symm, rfl⟩
  · rintro ⟨xss, ys, rfl, rfl, rfl⟩
    rw [List.map_append]
    rfl

theorem separated_append_singleton {separator : Tokens} {xss : List Tokens} (h : xss ≠ [])
    (ys : Tokens) : Tokens.separated separator (xss ++ [ys]) =
      Tokens.separated separator xss ++ separator ++ ys := by
  induction xss with
  | nil => exact absurd rfl h
  | cons xs xss ih =>
    cases xss with
    | nil =>
      simp [Tokens.separated]
    | cons us xss =>
      unfold Tokens.separated at ih ⊢
      rw [List.cons_append, List.intercalate_cons_of_ne_nil (List.append_ne_nil_of_left_ne_nil
        (List.cons_ne_nil _ _) _), ih (List.cons_ne_nil _ _), List.intercalate_cons_cons]
      simp only [List.append_assoc]

theorem row_append_singleton {cs : List Cond} (h : cs ≠ []) {ts : Tokens} :
    row s j (cs ++ [added]) = .ok ts ↔ ∃ xs ys, row s j cs = .ok xs ∧
      added.write s (some j) = .ok ys ∧
        xs ++ [Tokens.space, s.keyword (.joiner j), Tokens.space] ++ ys = ts := by
  have hne {xss : List Tokens} (hg : gather (cs.map fun c => c.write s (some j)) = .ok xss) :
      xss ≠ [] := by
    rintro rfl
    exact h (List.map_eq_nil_iff.mp (gather_eq_ok_iff.mp hg))
  simp only [row, map_eq_ok_iff, List.map_append, List.map_singleton, gather_append_singleton]
  constructor
  · rintro ⟨_, ⟨xss, ys, hg, hy, rfl⟩, rfl⟩
    exact ⟨_, ys, ⟨xss, hg, rfl⟩, hy, (separated_append_singleton (hne hg) ys).symm⟩
  · rintro ⟨_, ys, ⟨xss, hg, rfl⟩, hy, rfl⟩
    exact ⟨_, ⟨xss, ys, hg, hy, rfl⟩, separated_append_singleton (hne hg) ys⟩

/-- What is added to conditions is written behind them, with the word between. -/
theorem write_combine (h : ¬ existing.IsHollow) {ts : Tokens} :
    (combine (some existing) j added).write s none = .ok ts ↔ ∃ xs ys,
      existing.write s (some j) = .ok xs ∧ added.write s (some j) = .ok ys ∧
        xs ++ [Tokens.space, s.keyword (.joiner j), Tokens.space] ++ ys = ts := by
  have hpair : (joined j [existing, added]).write s none = .ok ts ↔ ∃ xs ys,
      existing.write s (some j) = .ok xs ∧ added.write s (some j) = .ok ys ∧
        xs ++ [Tokens.space, s.keyword (.joiner j), Tokens.space] ++ ys = ts := by
    rw [write_joined s j _ (.inl rfl), ← row_singleton s j existing]
    exact row_append_singleton (List.cons_ne_nil existing [])
  cases existing with
  | predicate e => exact hpair
  | group c => exact hpair
  | joined i cs =>
    rw [combine]
    split
    · next hij =>
      subst hij
      rw [write_joined s i _ (.inl rfl), write_joined s i cs (.inr rfl)]
      refine row_append_singleton ?_
      rintro rfl
      exact h trivial
    · exact hpair

end Cond

/-- What is written of the condition is read as the phrase, which has the looser operators of the
two next to a word in parentheses, like the condition. -/
structure Cond.Tells (f : Flavor) (c : LetterCase) (s : Site) (d : Cond) (ts : Tokens)
    (φ : Phrase) : Prop where
  spoken : Says f c ts φ
  above (j : Joiner) :
    (f.grammar c).above j.precedence φ = if d.yields s j then .grouped φ else φ

variable {f : Flavor} {c : LetterCase} {s : Site} {t : Table}

theorem Cond.Tells.within {d : Cond} {ts xs : Tokens} {φ : Phrase} {j : Joiner}
    (h : d.Tells f c s ts φ) (hd : d.write s none = .ok ts) (hx : d.write s (some j) = .ok xs) :
    Says f c xs ((f.grammar c).above j.precedence φ) := by
  rw [write_within, hd] at hx
  cases hx
  rw [h.above]
  split
  · exact h.spoken.enclosed
  · exact h.spoken

theorem Cond.exists_write_none {d : Cond} {j : Joiner} {xs : Tokens}
    (h : d.write s (some j) = .ok xs) : ∃ ts, d.write s none = .ok ts := by
  rw [write_within] at h
  obtain ⟨ts, hts, -⟩ := map_eq_ok_iff.mp h
  exact ⟨ts, hts⟩

/-- Conditions on either side of a word. -/
theorem spoken_joined {xs ys : Tokens} {φ ψ : Phrase} {j : Joiner} (hs : s.dialect = f.dialect)
    (hx : Says f c xs φ) (hy : Says f c ys ψ) (hφ : (f.grammar c).Over j.precedence φ)
    (hψ : (f.grammar c).Over j.precedence ψ) :
    Says f c (xs ++ [Tokens.space, s.keyword (.joiner j), Tokens.space] ++ ys)
      ((f.grammar c).graft φ (f.joining c j) ψ) := by
  have hprec := f.precedence_joining c j
  rw [← hprec] at hφ hψ
  have hnot : ¬ ((f.grammar c).graft φ (f.joining c j) ψ).Tight := by
    obtain ⟨l, w, r, heq, -⟩ := exists_graft_eq hφ hψ
    rw [heq]
    exact id
  rw [Site.keyword, hs]
  refine hx.between hy (f.keywords_isWord _) (f.isPiece_joining c j) ?_ hnot
    fun left => graft_behind hφ hψ
  show ((f.grammar c).precedence? (f.joining c j)).isSome
  rw [f.precedence?_joining c j]
  rfl

/-- Next to a word, what is joined by another word is enclosed if that one binds more loosely. -/
theorem above_graft {i : Joiner} {φ ψ : Phrase} (hφ : (f.grammar c).Over i.precedence φ)
    (hψ : (f.grammar c).Over i.precedence ψ) (j : Joiner) :
    (f.grammar c).above j.precedence ((f.grammar c).graft φ (f.joining c i) ψ) =
      if i = .either && j = .both then .grouped ((f.grammar c).graft φ (f.joining c i) ψ)
      else (f.grammar c).graft φ (f.joining c i) ψ := by
  have hprec := f.precedence_joining c i
  rw [← hprec] at hφ hψ
  obtain ⟨l, w, r, heq, hw⟩ := exists_graft_eq hφ hψ
  have hlt : i.precedence < j.precedence ↔ i = .either ∧ j = .both := by
    cases i <;> cases j <;> simp [Joiner.either_lt_both, Joiner.either_lt_both.le]
  rw [heq, above, hw, hprec]
  simp only [hlt, Bool.and_eq_true, decide_eq_true_eq]

theorem Sentence.tells (hs : s.dialect = f.dialect) {S : Sentence} {e : Expr}
    (hS : S.formula.Stands t e) {ts : Tokens} (h : e.write s = .ok ts) :
    S.formula.Written f ∧ (Cond.predicate e).Tells f c s ts (S.phrase f c s t) := by
  obtain ⟨-, hwritten, hprinted⟩ := hS.printed (c := c) hs h
  refine ⟨hwritten, hprinted.reads hs, fun j => ?_⟩
  rw [above_eq hwritten, Cond.yields, hS.precedence?_eq hs]
  unfold Formula.enclose
  cases S.formula.precedence? f with
  | none => rfl
  | some p => rfl

theorem Part.Stands.not_hollow {p : Part} {d : Cond} (h : p.Stands t d) : ¬ d.IsHollow := by
  cases p with
  | sentence S =>
    obtain ⟨e, -, rfl⟩ := h
    exact id
  | draft C =>
    obtain ⟨inside, -, rfl⟩ := h
    exact id

theorem Chain.Stands.not_hollow {C : Chain} {d : Cond} (h : C.Stands t d) : ¬ d.IsHollow := by
  cases C with
  | first m p => exact Part.Stands.not_hollow (p := p) h
  | more C m p =>
    obtain ⟨existing, added, -, -, rfl⟩ := h
    exact Cond.combine_not_hollow existing added _

mutual

/-- What is written of the condition of a chain is read as the phrase of the chain. -/
theorem Chain.Stands.tells (hs : s.dialect = f.dialect) : ∀ {C : Chain} {d : Cond} {ts : Tokens},
    C.Stands t d → d.write s none = .ok ts →
      C.Written f ∧ d.Tells f c s ts (C.phrase f c s t)
  | .first _ p, _, _, hd, h => Part.Stands.tells hs (p := p) hd h
  | .more C m p, _, _, ⟨existing, added, hexisting, hadded, hd⟩, h => by
    subst hd
    obtain ⟨xs, ys, hx, hy, rfl⟩ := (Cond.write_combine hexisting.not_hollow).mp h
    obtain ⟨xs', hx'⟩ := Cond.exists_write_none hx
    obtain ⟨ys', hy'⟩ := Cond.exists_write_none hy
    obtain ⟨hCwritten, hC⟩ := Chain.Stands.tells hs hexisting hx'
    obtain ⟨hpwritten, hp⟩ := Part.Stands.tells hs hadded hy'
    have hφ := (Chain.layered (c := c) (s := s) (t := t) hCwritten).above m.link.joiner.precedence
    have hψ := (Part.layered (c := c) (s := s) (t := t) hpwritten).above m.link.joiner.precedence
    refine ⟨⟨hCwritten, hpwritten⟩,
      spoken_joined hs (hC.within hx' hx) (hp.within hy' hy) hφ hψ, fun j => ?_⟩
    rw [Cond.yields_combine]
    exact above_graft hφ hψ j

theorem Part.Stands.tells (hs : s.dialect = f.dialect) : ∀ {p : Part} {d : Cond} {ts : Tokens},
    p.Stands t d → d.write s none = .ok ts →
      p.Written f ∧ d.Tells f c s ts (p.phrase f c s t)
  | .sentence S, _, ts, ⟨e, he, hd⟩, h => by
    subst hd
    rw [Cond.write] at h
    obtain ⟨ts, hts, rfl⟩ := map_eq_ok_iff.mp h
    obtain ⟨hwritten, htells⟩ := S.tells (c := c) hs he hts
    exact ⟨hwritten, htells⟩
  | .draft C, _, _, ⟨inside, hinside, hd⟩, h => by
    subst hd
    rw [Cond.write] at h
    obtain ⟨ts, hts, rfl⟩ := map_eq_ok_iff.mp h
    obtain ⟨hwritten, htells⟩ := Chain.Stands.tells hs hinside hts
    exact ⟨hwritten, htells.spoken.enclosed, fun _ => rfl⟩

end

/-- The text of a chain is read as its phrase. -/
theorem Chain.Stands.read (hs : s.dialect = f.dialect) {C : Chain} {d : Cond} {ts : Tokens}
    (hC : C.Stands t d) (h : d.write s none = .ok ts) :
    (f.grammar c).read f.lexis (chars c ts) = some (C.phrase f c s t) :=
  (hC.tells hs h).2.spoken.read ((carries_steps f).cond d s none hs ts h).woven

end SqlDraft
