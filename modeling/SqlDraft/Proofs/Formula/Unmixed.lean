import SqlDraft.Proofs.Formula.Alike
import SqlDraft.Query.Step
import SqlDraft.Sql.Compile

/-! Which formulas share their text with another one: those in which a negation is judged, or a
judgement negated (`Formula.text_injective_iff`). -/

namespace SqlDraft

open Reading Sql

theorem Judgement.Alike.refl (j : Judgement) : j.Alike j := by
  cases j with
  | null => trivial
  | notNull => trivial
  | among n ns => rfl

namespace Formula

variable {f : Flavor}

theorem Alike.refl (F : Formula) : F.Alike f F := by
  induction F with
  | column n => exact .column n
  | not x ih => exact .not ih
  | judged x j ih => exact .judged ih (.refl j)
  | binary op l r ihl ihr => exact .binary rfl ihl ihr

theorem Alike.isNot_iff {F G : Formula} (h : F.Alike f G) : F.IsNot ↔ G.IsNot := by
  cases h <;> exact Iff.rfl

theorem Alike.isJudged_iff {F G : Formula} (h : F.Alike f G) : F.IsJudged ↔ G.IsJudged := by
  cases h <;> exact Iff.rfl

theorem Alike.unmixed_iff {F G : Formula} (h : F.Alike f G) : F.Unmixed ↔ G.Unmixed := by
  induction h with
  | column n => exact Iff.rfl
  | not h ih => exact and_congr (not_congr h.isJudged_iff) ih
  | judged h _ ih => exact and_congr (not_congr h.isNot_iff) ih
  | binary _ _ _ ihl ihr => exact and_congr ihl ihr

theorem sink_of_not_isJudged {F : Formula} (h : ¬ F.IsJudged) : F.sink = .not F := by
  cases F with
  | judged x j => exact absurd trivial h
  | _ => rfl

theorem Unmixed.settled_eq {F : Formula} (h : F.Unmixed) : F.settled = F := by
  induction F with
  | column n => rfl
  | not x ih => rw [settled, ih h.2, sink_of_not_isJudged h.1]
  | judged x j ih => rw [settled, ih h.2]
  | binary op l r ihl ihr => rw [settled, ihl h.1, ihr h.2]

/-- Moving a negation behind a judgement leaves it judged. -/
theorem not_unmixed_sink {F : Formula} (h : F.IsJudged) : ¬ F.sink.Unmixed := by
  induction F with
  | judged x j ih =>
    intro hu
    by_cases hx : x.IsJudged
    · exact ih hx hu.2
    · rw [sink, sink_of_not_isJudged hx] at hu
      exact hu.1 trivial
  | _ => exact h.elim

/-- Only formulas that are settled already become unmixed by it. -/
theorem settled_eq_of_unmixed {F : Formula} (h : F.settled.Unmixed) : F.settled = F := by
  induction F with
  | column n => rfl
  | not x ih =>
    have hx : ¬ x.settled.IsJudged := fun hj => not_unmixed_sink hj h
    rw [settled, sink_of_not_isJudged hx] at h ⊢
    rw [ih h.2]
  | judged x j ih => rw [settled, ih h.2]
  | binary op l r ihl ihr => rw [settled, ihl h.1, ihr h.2]

/-- A negation and a judgement that meet can change places. -/
theorem exists_of_not_unmixed {F : Formula} (h : ¬ F.Unmixed) :
    ∃ G : Formula, G.settled = F.settled ∧ (G.Written f ↔ F.Written f) ∧ ¬ F.Alike f G := by
  induction F with
  | column n => exact absurd trivial h
  | not x ih =>
    cases x with
    | judged y j => exact ⟨.judged (.not y) j, rfl, Iff.rfl, nofun⟩
    | _ =>
      obtain ⟨G, hG, hw, hne⟩ := ih fun hx => h ⟨id, hx⟩
      exact ⟨.not G, congrArg sink hG, hw, fun ha => by cases ha with | not ha => exact hne ha⟩
  | judged x j ih =>
    cases x with
    | not y => exact ⟨.not (.judged y j), rfl, Iff.rfl, nofun⟩
    | _ =>
      obtain ⟨G, hG, hw, hne⟩ := ih fun hx => h ⟨id, hx⟩
      exact ⟨.judged G j, congrArg (judged · j) hG, hw,
        fun ha => by cases ha with | judged ha _ => exact hne ha⟩
  | binary op l r ihl ihr =>
    by_cases hl : l.Unmixed
    · obtain ⟨G, hG, hw, hne⟩ := ihr fun hr => h ⟨hl, hr⟩
      exact ⟨.binary op l G, congrArg (binary op l.settled ·) hG,
        and_congr_right fun _ => and_congr_right fun _ => hw,
        fun ha => by cases ha with | binary _ _ ha => exact hne ha⟩
    · obtain ⟨G, hG, hw, hne⟩ := ihl hl
      exact ⟨.binary op G r, congrArg (binary op · r.settled) hG,
        and_congr_right fun _ => and_congr_left fun _ => hw,
        fun ha => by cases ha with | binary _ ha _ => exact hne ha⟩

variable {c : LetterCase} {s : Site} {t : Table}

/-- Formulas have one text just when they are the same once they are settled. -/
theorem text_eq_iff (hs : s.dialect = f.dialect) {F G : Formula} {d e : Expr}
    (hF : F.Stands t d) (hG : G.Stands t e) {xs ys : Tokens} (hx : d.write s = .ok xs)
    (hy : e.write s = .ok ys) :
    xs.write c = ys.write c ↔ F.settled.Alike f G.settled := by
  have hFw := (written_settled f).mpr (hF.printed (c := c) hs hx).2.1
  have hGw := (written_settled f).mpr (hG.printed (c := c) hs hy).2.1
  rw [← String.toList_inj]
  refine (text_eq_iff_phrase_eq hs hF hG hx hy).trans ⟨fun h => ?_, fun h => ?_⟩
  · refine alike_of_phrase_eq (c := c) (t := t) hs F.settled_settled G.settled_settled hFw hGw ?_
    rw [phrase_settled, phrase_settled, h]
  · rw [← phrase_settled, ← phrase_settled f c s t G, h.phrase_eq]

/-- A formula is told from all others by its text just when it is unmixed. Formulas have one text
just when they are the same but for negations that stand in front of the judgement of what they
negate. -/
theorem text_injective_iff (hs : s.dialect = f.dialect) {F : Formula} {d : Expr}
    (hF : F.Stands t d) {xs : Tokens} (hx : d.write s = .ok xs) :
    (∀ (G : Formula) (e : Expr) (ys : Tokens), G.Stands t e → e.write s = .ok ys →
      (xs.write c = ys.write c ↔ F.settled.Alike f G.settled)) ∧
    ((∀ (G : Formula) (e : Expr) (ys : Tokens), G.Stands t e → e.write s = .ok ys →
      xs.write c = ys.write c → F.Alike f G) ↔ F.Unmixed) := by
  refine ⟨fun G e ys hG hy => text_eq_iff hs hF hG hx hy, fun h => ?_,
    fun h G e ys hG hy htext => ?_⟩
  · by_contra hmixed
    obtain ⟨G, hG, hw, hne⟩ := exists_of_not_unmixed (f := f) hmixed
    obtain ⟨hsees, hFw, -⟩ := hF.printed (c := c) hs hx
    have hstands := stands_expr t G
    obtain ⟨ys, hy⟩ := hstands.exists_write hs hsees (hw.mpr hFw)
    refine hne (h G _ ys hstands hy ((text_eq_iff hs hF hstands hx hy).mpr ?_))
    rw [hG]
    exact .refl _
  · have halike := (text_eq_iff hs hF hG hx hy).mp htext
    rw [h.settled_eq] at halike
    rwa [settled_eq_of_unmixed (halike.unmixed_iff.mp h)] at halike

/-- The operand of a negation is enclosed if it is made with an operator. -/
theorem text_injective_iff_conjunction :
    let t : Table := { serial := 0, name := "t" }
    let s : Site := ⟨.mysql, [t], []⟩
    let F : Formula := .not (.binary (.connective .and) (.column "a") (.column "b"))
    let xs : Tokens := [.word "not", Tokens.space, .mark "(", .name "a", Tokens.space, .word "and",
      Tokens.space, .name "b", .mark ")"]
    (∀ (G : Formula) (e : Expr) (ys : Tokens), G.Stands t e → e.write s = .ok ys →
      (xs.write .upper = ys.write .upper ↔ F.settled.Alike .mysql G.settled)) ∧
    ((∀ (G : Formula) (e : Expr) (ys : Tokens), G.Stands t e → e.write s = .ok ys →
      xs.write .upper = ys.write .upper → F.Alike .mysql G) ↔ F.Unmixed) :=
  text_injective_iff rfl (stands_expr _ _) (by decide +kernel)

/-- The rows of a table for which the formula holds. -/
def rows (F : Formula) : Outcome Query := do
  let t : Table := { serial := 0, name := "t" }
  let q ← Query.select []
  Step.applyAll [.target t, .restrict .filter .plain (F.term t)] q

/-- That nothing is said of a value, and that its negation is said to be nothing, have one text. -/
theorem text_not_injective :
    let F : Formula := .not (.judged (.column "a") .null)
    let G : Formula := .judged (.not (.column "a")) .null
    (F.rows >>= fun q => q.compile .generic) = .ok "select * from t where not a is null;" ∧
      (G.rows >>= fun q => q.compile .generic) = .ok "select * from t where not a is null;" ∧
      ¬ F.Alike .generic G :=
  ⟨by decide +kernel, by decide +kernel, nofun⟩

end Formula

end SqlDraft
