import SqlDraft.Proofs.Decimal.Distinct
import SqlDraft.Proofs.Formula.Phrase
import SqlDraft.Proofs.Precedence

/-! Which formulas are written alike. A word in front of an operand takes along what is said of the
operand behind it, and neither is enclosed within the other: `not` before a judgement has the text
of the judgement of a negation. Two formulas have one text just when they are the same once every
`not` is moved in front of the operand it stands before, and a formula shares its text with no other
one just when no `not` and no judgement meet in it (`Formula.text_eq_iff`). -/

namespace SqlDraft

open Reading Sql

/-! ## The same formula -/

/-- The same judgement, with the same numbers. -/
def Judgement.Alike : Judgement → Judgement → Prop
  | null, null => True
  | notNull, notNull => True
  | among x xs, among y ys =>
    (x :: xs).map (fun n => Decimal.read n.number) = (y :: ys).map fun n => Decimal.read n.number
  | _, _ => False

theorem Judgement.Alike.phrase_eq {j k : Judgement} {c : LetterCase} (h : j.Alike k) (x : Phrase) :
    j.phrase c x = k.phrase c x := by
  cases j <;> cases k
  case among.among y ys z zs =>
    have hmap (ns : List Whole) :
        ns.map (fun n => Phrase.atom (chars c [.number (Decimal.text n.number)])) =
          (ns.map fun n => Decimal.read n.number).map
            fun r => .atom (chars c [.number (String.ofList r.text)]) := by
      rw [List.map_map]
      rfl
    have hlist : (y :: ys).map (fun n => Decimal.read n.number) =
        (z :: zs).map fun n => Decimal.read n.number := h
    show Phrase.among _ _ ((y :: ys).map _) = .among _ _ ((z :: zs).map _)
    rw [hmap, hmap, hlist]
  all_goals first | rfl | exact h.elim

/-- Operators that a dialect has one word for bind in one way. -/
theorem Operator.alike {f : Flavor} {op op' : Operator} {w : String} {p p' : Rat}
    {alone alone' : Option Bool}
    (h : op.written? f = some (w, p, alone)) (h' : op'.written? f = some (w, p', alone')) :
    p = p' ∧ (alone = some true ↔ alone' = some true) := by
  have hrule := Operator.written?_eq_some h
  have hrule' := Operator.written?_eq_some h'
  have hs := f.speaks .lower hrule
  have hs' := f.speaks .lower hrule'
  simp only [Grammar.speaks, Bool.and_eq_true, beq_iff_eq] at hs hs'
  refine ⟨Option.some.inj (hs.2.symm.trans hs'.2), fun ha => ?_, fun ha => ?_⟩
  · subst ha
    exact f.comparisons_alone .lower hrule' (f.mem_comparisons .lower hrule)
  · subst ha
    exact f.comparisons_alone .lower hrule (f.mem_comparisons .lower hrule')

namespace Formula

/-- The same formula, but for operators that a dialect has one word for. -/
inductive Alike (f : Flavor) : Formula → Formula → Prop
  | column (n : String) : Alike f (.column n) (.column n)
  | not {x y : Formula} (h : Alike f x y) : Alike f (.not x) (.not y)
  | judged {x y : Formula} {j k : Judgement} (h : Alike f x y) (hj : j.Alike k) :
      Alike f (.judged x j) (.judged y k)
  | binary {op op' : Operator} {l l' r r' : Formula}
      (hop : (op.written? f).map Prod.fst = (op'.written? f).map Prod.fst) (hl : Alike f l l')
      (hr : Alike f r r') : Alike f (.binary op l r) (.binary op' l' r')

def IsNot : Formula → Prop
  | not _ => True
  | _ => False

def IsJudged : Formula → Prop
  | judged _ _ => True
  | _ => False

/-- No negation is judged, and no judgement negated, without an operator between. -/
def Unmixed : Formula → Prop
  | column _ => True
  | not x => ¬ x.IsJudged ∧ x.Unmixed
  | judged x _ => ¬ x.IsNot ∧ x.Unmixed
  | binary _ l r => l.Unmixed ∧ r.Unmixed

/-- The negation of a formula, in front of the operand that it is read with. -/
def sink : Formula → Formula
  | judged x j => judged x.sink j
  | x => not x

/-- The formula with each negation in front of the operand that it is read with. -/
def settled : Formula → Formula
  | column n => column n
  | not x => x.settled.sink
  | judged x j => judged x.settled j
  | binary op l r => binary op l.settled r.settled

/-- No judgement is negated without an operator between. -/
def Settled : Formula → Prop
  | column _ => True
  | not x => ¬ x.IsJudged ∧ x.Settled
  | judged x _ => x.Settled
  | binary _ l r => l.Settled ∧ r.Settled

theorem Settled.sink {F : Formula} (h : F.Settled) : F.sink.Settled := by
  induction F with
  | judged x j ih => exact ih h
  | column n => exact ⟨id, h⟩
  | not x _ => exact ⟨id, h⟩
  | binary op l r _ _ => exact ⟨id, h⟩

theorem settled_settled (F : Formula) : F.settled.Settled := by
  induction F with
  | column n => trivial
  | not x ih => exact ih.sink
  | judged x j ih => exact ih
  | binary op l r ihl ihr => exact ⟨ihl, ihr⟩

/-! ## Phrases of settled formulas -/

section

variable (f : Flavor) (c : LetterCase) (s : Site) (t : Table)

theorem written_sink {F : Formula} : F.sink.Written f ↔ F.Written f := by
  induction F with
  | judged x j ih => exact ih
  | _ => exact Iff.rfl

theorem written_settled {F : Formula} : F.settled.Written f ↔ F.Written f := by
  induction F with
  | column n => exact Iff.rfl
  | not x ih => exact (written_sink f).trans ih
  | judged x j ih => exact ih
  | binary op l r ihl ihr => exact and_congr_right fun _ => and_congr ihl ihr

theorem precedence?_sink (F : Formula) : F.sink.precedence? f = none := by
  cases F <;> rfl

theorem precedence?_settled (F : Formula) : F.settled.precedence? f = F.precedence? f := by
  cases F with
  | not x => exact precedence?_sink f x.settled
  | _ => rfl

theorem enclose_of_none {F : Formula} (h : F.precedence? f = none) (misread : Rat → Bool)
    (φ : Phrase) : F.enclose f misread φ = φ := by
  rw [enclose, h]

theorem enclose_settled (F : Formula) (misread : Rat → Bool) (φ : Phrase) :
    F.settled.enclose f misread φ = F.enclose f misread φ := by
  rw [enclose, enclose, precedence?_settled]

theorem tighten_judgement (x : Phrase) (j : Judgement) (ws : List Word) :
    (j.phrase c x).tighten ws = j.phrase c (x.tighten ws) := by
  cases j <;> rfl

/-- A negation says the same wherever it stands. -/
theorem phrase_sink (F : Formula) : F.sink.phrase f c s t = (Formula.not F).phrase f c s t := by
  induction F with
  | judged x j ih =>
    have hjudged : (Formula.judged x j).precedence? f = none := rfl
    simp only [sink, phrase, enclose_of_none f (precedence?_sink f x), ih,
      enclose_of_none f hjudged, tighten_judgement]
  | _ => rfl

theorem phrase_settled (F : Formula) : F.settled.phrase f c s t = F.phrase f c s t := by
  induction F with
  | column n => rfl
  | not x ih => rw [settled, phrase_sink, phrase, phrase, enclose_settled, ih]
  | judged x j ih => rw [settled, phrase, phrase, enclose_settled, ih]
  | binary op l r ihl ihr =>
    rw [settled, phrase, phrase, ihl, ihr]
    cases op.written? f with
    | none => rfl
    | some w =>
      dsimp only
      rw [enclose_settled, enclose_settled]

end

/-! ## The same phrase -/

section

variable {f : Flavor} {c : LetterCase} {s : Site} {t : Table}

theorem Alike.precedence?_eq {F G : Formula} (h : F.Alike f G) :
    F.precedence? f = G.precedence? f := by
  cases h with
  | @binary op op' _ _ _ _ hop _ _ =>
    rw [precedence?, precedence?]
    cases hw : op.written? f with
    | none =>
      rw [hw] at hop
      rw [Option.map_eq_none_iff.mp hop.symm]
    | some r =>
      obtain ⟨w, p, alone⟩ := r
      rw [hw] at hop
      obtain ⟨⟨_, p', alone'⟩, hw', rfl⟩ := Option.map_eq_some_iff.mp hop.symm
      rw [hw', (Operator.alike hw hw').1]
      rfl
  | _ => rfl

theorem Alike.enclose_eq {F G : Formula} (h : F.Alike f G) (misread : Rat → Bool) (φ : Phrase) :
    F.enclose f misread φ = G.enclose f misread φ := by
  rw [enclose, enclose, h.precedence?_eq]

theorem Alike.phrase_eq {F G : Formula} (h : F.Alike f G) :
    F.phrase f c s t = G.phrase f c s t := by
  induction h with
  | column n => rfl
  | not h ih => rw [phrase, phrase, ih, h.enclose_eq]
  | judged h hj ih => rw [phrase, phrase, ih, h.enclose_eq, hj.phrase_eq]
  | @binary op op' _ _ _ _ hop hl hr ihl ihr =>
    rw [phrase, phrase]
    cases hw : op.written? f with
    | none =>
      rw [hw] at hop
      rw [Option.map_eq_none_iff.mp hop.symm]
    | some r =>
      obtain ⟨w, p, alone⟩ := r
      rw [hw] at hop
      obtain ⟨⟨_, p', alone'⟩, hw', rfl⟩ := Option.map_eq_some_iff.mp hop.symm
      obtain ⟨rfl, halone⟩ := Operator.alike hw hw'
      rw [hw']
      dsimp only
      rw [ihl, ihr, hl.enclose_eq, hr.enclose_eq]
      simp only [halone]

end

/-! ## Phrases tell formulas apart -/

section

variable {f : Flavor} {c : LetterCase} {s : Site} {t : Table}

theorem spelled_injective (hs : s.dialect = f.dialect) {m n : String}
    (h : chars c (s.spelled t m) = chars c (s.spelled t n)) : m = n := by
  have hname : chars c [s.name m] = chars c [s.name n] := by
    unfold Site.spelled at h
    split at h
    · have hsplit (k : String) : s.tableName t ++ [.mark ".", s.name k] =
          s.tableName t ++ [.mark "."] ++ [s.name k] := by rw [List.append_assoc]; rfl
      rw [hsplit m, hsplit n, chars_append _ [s.name m], chars_append _ [s.name n]] at h
      exact List.append_cancel_left h
    · exact h
  rw [chars_singleton, chars_singleton, Site.name, Site.name, hs] at hname
  exact quoting_write_injective f (String.toList_inj.mp hname)

/-- The words for operators can be told apart in either case. -/
theorem write_word_injective {op op' : Operator} {w w' : String} {r r' : Rat × Option Bool}
    (h : op.written? f = some (w, r)) (h' : op'.written? f = some (w', r'))
    (hw : c.write w = c.write w') : w = w' := by
  have hall : Builtin.all.all (fun b => ((f.rule? b).bind Rule.operator?).all fun o =>
      (c.write o.1).map Char.toLower == o.1.toList) = true := by
    cases f <;> cases c <;> decide +kernel
  have hlower {op : Operator} {w : String} {r : Rat × Option Bool}
      (h : op.written? f = some (w, r)) : (c.write w).map Char.toLower = w.toList := by
    have hb := List.all_eq_true.mp hall op.builtin (Builtin.mem_all _)
    rw [op.rule?_eq, h] at hb
    simpa [Rule.operator?] using hb
  exact String.toList_inj.mp (by rw [← hlower h, ← hlower h', hw])

theorem phrase_not {F : Formula} (h : (Formula.not F).Settled) :
    (Formula.not F).phrase f c s t =
      .negated (c.write "not") (F.enclose f (fun _ => true) (F.phrase f c s t)) := by
  induction F with
  | column n => rfl
  | not x ih =>
    have hnot : (Formula.not x).precedence? f = none := rfl
    rw [phrase, enclose_of_none f hnot, ih h.2]
    rfl
  | judged x j _ => exact absurd trivial h.1
  | binary op l r _ _ =>
    rw [phrase, enclose, precedence?]
    cases hw : op.written? f with
    | none =>
      rw [phrase, hw]
      rfl
    | some w => rfl

/-- What a phrase of a settled formula says of the formula. -/
theorem phrase_binary {op : Operator} {l r : Formula} {w : String} {p : Rat} {alone : Option Bool}
    (h : op.written? f = some (w, p, alone)) :
    (Formula.binary op l r).phrase f c s t =
      .binary (l.enclose f (fun q => if alone = some true then q ≤ p else q < p) (l.phrase f c s t))
        (c.write w) (r.enclose f (fun q => q ≤ p) (r.phrase f c s t)) := by
  rw [phrase, h]

theorem not_grouped {F : Formula} (h : F.Settled) (hF : F.Written f) (φ : Phrase) :
    F.phrase f c s t ≠ .grouped φ := by
  cases F with
  | column n => exact nofun
  | not x => rw [phrase_not h]; exact nofun
  | judged x j => cases j <;> exact nofun
  | binary op l r =>
    obtain ⟨⟨w, p, alone⟩, hw⟩ := Option.isSome_iff_exists.mp hF.1
    rw [phrase_binary hw]
    exact nofun

theorem enclose_injective {F G : Formula} (hF : F.Settled) (hG : G.Settled) (hFw : F.Written f)
    (hGw : G.Written f) {m m' : Rat → Bool}
    (h : F.enclose f m (F.phrase f c s t) = G.enclose f m' (G.phrase f c s t)) :
    F.phrase f c s t = G.phrase f c s t := by
  have hcases (H : Formula) (m : Rat → Bool) : H.enclose f m (H.phrase f c s t) =
      H.phrase f c s t ∨ H.enclose f m (H.phrase f c s t) = .grouped (H.phrase f c s t) := by
    unfold enclose
    split
    · split
      · exact .inr rfl
      · exact .inl rfl
    · exact .inl rfl
  rcases hcases F m with hf | hf <;> rcases hcases G m' with hg | hg <;> rw [hf, hg] at h
  · exact h
  · exact absurd h (not_grouped hF hFw _)
  · exact absurd h.symm (not_grouped hG hGw _)
  · exact Phrase.grouped.inj h

theorem map_read_eq {ns ms : List Whole}
    (h : ns.map (fun n => Phrase.atom (chars c [.number (Decimal.text n.number)])) =
      ms.map fun n => .atom (chars c [.number (Decimal.text n.number)])) :
    ns.map (fun n => Decimal.read n.number) = ms.map fun n => Decimal.read n.number := by
  induction ns generalizing ms with
  | nil =>
    cases ms with
    | nil => rfl
    | cons m ms => cases h
  | cons n ns ih =>
    cases ms with
    | nil => cases h
    | cons m ms =>
      obtain ⟨hatom, hrest⟩ := List.cons.inj h
      obtain ⟨a, ha, -⟩ := n.reads
      obtain ⟨b, hb, -⟩ := m.reads
      have htext := Phrase.atom.inj hatom
      rw [chars_singleton, chars_singleton] at htext
      rw [List.map_cons, List.map_cons, ih hrest,
        Decimal.read_eq_of_text_eq ha hb (String.toList_inj.mp htext)]

theorem judgement_phrase_injective {j k : Judgement} {x y : Phrase}
    (h : j.phrase c x = k.phrase c y) : x = y ∧ j.Alike k := by
  have hwords : c.pieces "is null" ≠ c.pieces "is not null" := by cases c <;> decide +kernel
  cases j <;> cases k
  case null.null => exact ⟨(Phrase.judged.inj h).1, trivial⟩
  case null.notNull => exact absurd (Phrase.judged.inj h).2 hwords
  case notNull.null => exact absurd (Phrase.judged.inj h).2.symm hwords
  case notNull.notNull => exact ⟨(Phrase.judged.inj h).1, trivial⟩
  case among.among n ns m ms =>
    obtain ⟨hx, -, hitems⟩ := Phrase.among.inj h
    exact ⟨hx, map_read_eq hitems⟩
  all_goals cases h

/-- Settled formulas with one phrase are the same. -/
theorem alike_of_phrase_eq (hs : s.dialect = f.dialect) {F : Formula} :
    ∀ {G : Formula}, F.Settled → G.Settled → F.Written f → G.Written f →
      F.phrase f c s t = G.phrase f c s t → F.Alike f G := by
  induction F with
  | column n =>
    intro G hF hG hFw hGw h
    cases G with
    | column m =>
      rw [spelled_injective hs (Phrase.atom.inj h)]
      exact .column m
    | not y => rw [phrase_not hG] at h; cases h
    | judged y k => cases k <;> cases h
    | binary op l r =>
      obtain ⟨⟨w, p, alone⟩, hw⟩ := Option.isSome_iff_exists.mp hGw.1
      rw [phrase_binary hw] at h
      cases h
  | not x ih =>
    intro G hF hG hFw hGw h
    rw [phrase_not hF] at h
    cases G with
    | column m => cases h
    | not y =>
      rw [phrase_not hG] at h
      have hx := (Phrase.negated.inj h).2
      exact .not (ih hF.2 hG.2 hFw hGw (enclose_injective hF.2 hG.2 hFw hGw hx))
    | judged y k => cases k <;> cases h
    | binary op l r =>
      obtain ⟨⟨w, p, alone⟩, hw⟩ := Option.isSome_iff_exists.mp hGw.1
      rw [phrase_binary hw] at h
      cases h
  | judged x j ih =>
    intro G hF hG hFw hGw h
    cases G with
    | column m => cases j <;> cases h
    | not y => rw [phrase_not hG] at h; cases j <;> cases h
    | judged y k =>
      obtain ⟨hx, hj⟩ := judgement_phrase_injective h
      exact .judged (ih hF hG hFw hGw (enclose_injective hF hG hFw hGw hx)) hj
    | binary op l r =>
      obtain ⟨⟨w, p, alone⟩, hw⟩ := Option.isSome_iff_exists.mp hGw.1
      rw [phrase_binary hw] at h
      cases j <;> cases h
  | binary op l r ihl ihr =>
    intro G hF hG hFw hGw h
    obtain ⟨⟨w, p, alone⟩, hw⟩ := Option.isSome_iff_exists.mp hFw.1
    rw [phrase_binary hw] at h
    cases G with
    | column m => cases h
    | not y => rw [phrase_not hG] at h; cases h
    | judged y k => cases k <;> cases h
    | binary op' l' r' =>
      obtain ⟨⟨w', p', alone'⟩, hw'⟩ := Option.isSome_iff_exists.mp hGw.1
      rw [phrase_binary hw'] at h
      obtain ⟨hl, hword, hr⟩ := Phrase.binary.inj h
      refine .binary ?_ (ihl hF.1 hG.1 hFw.2.1 hGw.2.1 ?_) (ihr hF.2 hG.2 hFw.2.2 hGw.2.2 ?_)
      · rw [hw, hw', Option.map_some, Option.map_some, write_word_injective hw hw' hword]
      · exact enclose_injective hF.1 hG.1 hFw.2.1 hGw.2.1 hl
      · exact enclose_injective hF.2 hG.2 hFw.2.2 hGw.2.2 hr

end

end Formula

end SqlDraft
