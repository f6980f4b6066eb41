import SqlDraft.Proofs.Reading.Expression
import SqlDraft.Proofs.Reading.Group

/-! Tokens by what they have in parentheses. A text is guarded if all that stands there and begins
as a statement does is granted (`Guarded`). Whatever does not begin like that itself (`Subordinate`)
may be put in parentheses freely, and anything else only if it is granted (`Guarded.enclosed`). -/

namespace SqlDraft.Reading

open Sql Nest

/-- The tokens close the parentheses that they open, and what stands in these as a statement does is
granted. -/
structure Guarded (f : Flavor) (c : LetterCase) (S : Nest → Prop) (ts : Tokens) : Prop where
  lies : Lies (lexed f c ts)
  granted : ∀ g ∈ (before (lexed f c ts) nil).groups, g.lead ∈ (f.grammar c).statements → S g

/-- Nor do they begin as a statement does. -/
structure Subordinate (f : Flavor) (c : LetterCase) (S : Nest → Prop) (ts : Tokens) : Prop
    extends Guarded f c S ts where
  lead : ∀ {n : Nest}, n.Parted → (before (lexed f c ts) n).lead ∉ (f.grammar c).statements

/-- No piece goes on behind what stands in front of the tokens. -/
def Splits (f : Flavor) (c : LetterCase) (ts : Tokens) : Prop :=
  ∀ n, (before (lexed f c ts) n).Parted

variable {f : Flavor} {c : LetterCase} {S : Nest → Prop}

/-! ## Tokens side by side -/

theorem guarded_nil : Guarded f c S [] := ⟨lies_nil, nofun⟩

theorem Guarded.append {xs ys : Tokens} (hx : Guarded f c S xs) (hy : Guarded f c S ys) :
    Guarded f c S (xs ++ ys) where
  lies := by
    rw [lexed_append]
    exact hx.lies.append hy.lies
  granted := by
    rw [lexed_append, groups_append hx.lies hy.lies, List.forall_mem_append]
    exact ⟨hx.granted, hy.granted⟩

theorem Guarded.cons {t : Token} {ts : Tokens} (ht : Guarded f c S [t]) (h : Guarded f c S ts) :
    Guarded f c S (t :: ts) := ht.append h

theorem Glued.guarded {ts : Tokens} (h : Glued f c ts) : Guarded f c S ts where
  lies := h.lies
  granted g hg := by
    rw [h.before, groups_glue] at hg
    cases hg

theorem Inert.subordinate {ts : Tokens} (h : Inert f c ts) : Subordinate f c S ts :=
  { h.toGlued.guarded with lead := h.lead }

theorem Splits.append {xs ys : Tokens} (h : Splits f c xs) (hx : Lies (lexed f c xs))
    (hy : Lies (lexed f c ys)) : Splits f c (xs ++ ys) := fun n => by
  rw [lexed_append, before_append hx hy]
  exact h _

theorem Subordinate.append {xs ys : Tokens} (hx : Subordinate f c S xs) (hy : Guarded f c S ys)
    (h : Splits f c ys) : Subordinate f c S (xs ++ ys) :=
  { hx.toGuarded.append hy with
    lead := fun {n} _ => by
      rw [lexed_append, before_append hx.lies hy.lies]
      exact hx.lead (h n) }

/-! ## Marks, words and numbers -/

theorem lexed_mark {m : String} (hm : m ∈ marks) : lexed f c [.mark m] = m.toList.map .char := by
  rw [lexed, List.flatMap_singleton]
  exact (isMark_of_mem hm).lexemes c

theorem guarded_mark {m : String} (hm : m ∈ marks) : Guarded f c S [.mark m] := by
  refine ⟨(Woven.mark hm).lies c, fun g hg hlead => ?_⟩
  rw [lexed_mark hm] at hg
  -- the one mark with parentheses has no word in them
  have hstar : g = piece ['*'] nil := by
    simp only [marks, List.mem_cons, List.not_mem_nil, or_false] at hm
    rcases hm with rfl | rfl | rfl | rfl | rfl | rfl | rfl <;>
      first | exact List.mem_singleton.mp hg | cases hg
  rw [hstar] at hlead
  exact absurd (List.mem_append_right _ hlead)
    (not_mem_leadWords_of_mem (x := '*') (List.mem_singleton_self _) (by decide))

theorem guarded_space : Guarded f c S [Tokens.space] := guarded_mark (by decide)

theorem guarded_comma : Guarded f c S Tokens.comma := guarded_mark (by decide)

/-- The marks that begin with a gap, a comma or a parenthesis. -/
theorem splits_mark {m : String} (hm : m ∈ [" ", ", ", "(*)"]) : Splits f c [.mark m] := fun n => by
  have hmarks : m ∈ marks := (show [" ", ", ", "(*)"] ⊆ marks by decide) hm
  rw [lexed_mark hmarks]
  simp only [List.mem_cons, List.not_mem_nil, or_false] at hm
  rcases hm with rfl | rfl | rfl <;> trivial

theorem splits_space {ts : Tokens} (h : Lies (lexed f c ts)) : Splits f c (Tokens.space :: ts) :=
  (splits_mark (m := " ") (by decide)).append (guarded_space (S := fun _ => True)).lies h

/-- Characters that delimit and enclose nothing make no group. -/
theorem groups_chars {s : List Char} (h : ∀ x ∈ s, Flavor.isFree x = true) :
    (before (s.map .char) nil).groups = [] := by
  refine groups_eq_nil fun l hl => ?_
  obtain ⟨x, hx, rfl⟩ := List.mem_map.mp hl
  obtain ⟨-, hopen, hclose⟩ := Flavor.isFree_iff.mp (h x hx)
  exact ⟨fun hl => hopen (Lexeme.char.inj hl), fun hl => hclose (Lexeme.char.inj hl)⟩

theorem guarded_number (x : Float) : Guarded f c S [.number (Decimal.text x)] := by
  have hlexed : lexed f c [.number (Decimal.text x)] = (Decimal.text x).toList.map .char := by
    rw [lexed, List.flatMap_singleton]
    exact lexemes_of_unquoted c (.number _) (decimal_isUnquoted x)
  refine ⟨(Woven.number x).lies c, fun g hg => ?_⟩
  rw [hlexed, groups_chars (Flavor.decimal_isFree x)] at hg
  cases hg

theorem isFree_write {w : String} (h : Flavor.isBare w = true) (c : LetterCase) :
    ∀ x ∈ c.write w, Flavor.isFree x = true := by
  have hall : ∀ v ∈ [w, Text.upper w], ∀ x ∈ v.toList, Flavor.isFree x = true := by
    simpa [Flavor.isBare] using h
  cases c with
  | lower => exact hall w (by simp)
  | upper => exact hall (Text.upper w) (by simp)

/-- Names of types have no statements in parentheses. -/
theorem typeNames_grouped (f : Flavor) (c : LetterCase) :
    (Kind.all.all fun k =>
      (before ((c.write (f.dialect.typeNames k)).map .char) nil).groups.all fun g =>
      !(f.grammar c).statements.contains g.lead) = true := by
  cases f <;> cases c <;> decide +kernel

theorem guarded_word {w : String} (hw : f.HasWord w) : Guarded f c S [.word w] := by
  have hlexed : lexed f c [.word w] = (c.write w).map .char := by
    rw [lexed, List.flatMap_singleton]
    exact lexemes_of_unquoted c (.word w) (word_isWord hw.isWord c).1
  refine ⟨(Woven.word hw.isWord).lies c, fun g hg hlead => ?_⟩
  rw [hlexed] at hg
  rcases hw.isBare with hbare | ⟨k, rfl⟩
  · rw [groups_chars (isFree_write hbare c)] at hg
    cases hg
  · have hnot := List.all_eq_true.mp
      (List.all_eq_true.mp (typeNames_grouped f c) k (Kind.mem_all k)) g hg
    rw [Bool.not_eq_true', List.contains_eq_mem, decide_eq_false_iff_not] at hnot
    exact absurd hlead hnot

/-- A word of one piece that is none of those that statements begin with. -/
theorem subordinate_word {w : String} (hw : f.HasWord w) (hpiece : isPiece (c.write w) = true)
    (hnot : c.write w ∉ (f.grammar c).statements) : Subordinate f c S [.word w] :=
  { guarded_word hw with
    lead := fun hn => by
      rw [(glued_word hw.isWord hpiece).before, glue_of_parted hn, chars_singleton]
      exact hnot }

/-! ## Parentheses -/

/-- Tokens in parentheses, where a statement is granted. -/
theorem Guarded.enclosed {ts : Tokens} (h : Guarded f c S ts)
    (hS : (before (lexed f c ts) nil).lead ∈ (f.grammar c).statements →
      S (before (lexed f c ts) nil)) :
    Subordinate f c S ts.enclosed where
  lies := by
    rw [lexed_enclosed]
    exact h.lies.enclosed
  granted := by
    rw [lexed_enclosed, before_enclosed h.lies, groups, groups, List.append_nil,
      List.forall_mem_cons]
    exact ⟨hS, h.granted⟩
  lead _ := by
    rw [lead_enclosed h.lies]
    exact nil_notMem_statements

theorem Subordinate.enclosed {ts : Tokens} (h : Subordinate f c S ts) :
    Subordinate f c S ts.enclosed :=
  h.toGuarded.enclosed fun hlead => absurd hlead (h.lead trivial)

theorem splits_enclosed {ts : Tokens} (h : Lies (lexed f c ts)) : Splits f c ts.enclosed :=
  fun n => by
  rw [lexed_enclosed, before_enclosed h]
  trivial

/-! ## Lists -/

theorem Guarded.separated {sep : Tokens} (hsep : Guarded f c S sep) {tss : List Tokens}
    (h : ∀ ts ∈ tss, Guarded f c S ts) : Guarded f c S (Tokens.separated sep tss) := by
  induction tss with
  | nil => exact guarded_nil
  | cons ts tss ih =>
    obtain ⟨hts, htss⟩ := List.forall_mem_cons.mp h
    cases tss with
    | nil =>
      rw [Tokens.separated, List.intercalate_singleton]
      exact hts
    | cons us tss =>
      rw [Tokens.separated, List.intercalate_cons_cons]
      exact (hts.append hsep).append (ih htss)

theorem Guarded.spaced {tss : List Tokens} (h : ∀ ts ∈ tss, Guarded f c S ts) :
    Guarded f c S (Tokens.spaced tss) := guarded_space.separated h

theorem Guarded.listed {tss : List Tokens} (h : ∀ ts ∈ tss, Guarded f c S ts) :
    Guarded f c S (Tokens.listed tss) := guarded_comma.separated h

/-- With something between each two, only the first one begins the whole. -/
theorem Subordinate.separated {sep : Tokens} (hsep : Guarded f c S sep) (hsplits : Splits f c sep)
    {tss : List Tokens} (h : ∀ ts ∈ tss, Subordinate f c S ts) :
    Subordinate f c S (Tokens.separated sep tss) := by
  rcases tss with - | ⟨ts, - | ⟨us, tss⟩⟩
  · refine { guarded_nil with lead := fun {n} hn => ?_ }
    cases n with
    | piece => exact hn.elim
    | _ => exact nil_notMem_statements
  · rw [Tokens.separated, List.intercalate_singleton]
    exact h ts List.mem_cons_self
  · obtain ⟨hts, htss⟩ := List.forall_mem_cons.mp h
    have hrest : Guarded f c S (Tokens.separated sep (us :: tss)) :=
      hsep.separated fun ts hts => (htss ts hts).toGuarded
    rw [Tokens.separated, List.intercalate_cons_cons, List.append_assoc]
    exact hts.append (hsep.append hrest) (hsplits.append hsep.lies hrest.lies)

theorem Subordinate.listed {tss : List Tokens} (h : ∀ ts ∈ tss, Subordinate f c S ts) :
    Subordinate f c S (Tokens.listed tss) := .separated guarded_comma (splits_mark (by decide)) h

end SqlDraft.Reading
