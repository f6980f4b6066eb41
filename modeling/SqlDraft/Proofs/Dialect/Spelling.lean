import SqlDraft.Decimal.Text
import SqlDraft.Proofs.Dialect.Flavor
import SqlDraft.Proofs.Reading.Nest
import SqlDraft.Sql.Token

/-! How the dialects at hand from the start spell what a statement consists of, as their own lexical
rules see it: names are plain or delimited (`quoting_write`), strings are delimited and escaped the
way the dialect reads them (`literals_string`), and neither a word nor a number
holds a delimiter (`keywords_isWord`, `isWord_of_rule?`, `decimal_isFree`). -/

namespace SqlDraft

open Reading Sql

/-- A name between single characters is written so that it is read to its end. -/
theorem Quoting.between_singleton (opener closer : Char) (n : List Char) :
    between [opener] [closer] n = opener :: closed closer none n := by
  have hunit : unit closer none = fun d => if d = closer then [closer] ++ [closer] else [d] := by
    funext d
    by_cases h : d = closer <;> simp [unit, h]
  rw [between, Text.replaceAll_singleton, closed, hunit]
  rfl

namespace Flavor

def lexis : Flavor → Lexis
  | generic => { opener := '"', closer := '"' }
  | postgres => { opener := '"', closer := '"', markedEscape := some '\\' }
  | mysql => { opener := '`', closer := '`', escape := some '\\' }
  | sqlserver => { opener := '[', closer := ']' }

theorem lexis_sound (f : Flavor) : f.lexis.Sound where
  opener_ne_quote := by cases f <;> decide
  opener_ne_mark := by cases f <;> decide

/-! ## Names -/

theorem quote_toList (f : Flavor) (n : String) :
    (f.dialect.quoting.quote n).toList = f.lexis.delimited n.toList := by
  cases f <;> exact (String.toList_ofList).trans (Quoting.between_singleton _ _ _)

/-- A name is written as it is if it is plain, and otherwise between delimiters. -/
theorem quoting_write (f : Flavor) (n : String) :
    (f.dialect.quoting.write n = n ∧ Quoting.isPlain n = true) ∨
      (f.dialect.quoting.write n).toList = f.lexis.delimited n.toList := by
  unfold Quoting.write
  split
  · exact .inr (quote_toList f n)
  · next h =>
    refine .inl ⟨rfl, ?_⟩
    simpa using fun hp => h (.inr (.inr hp))

/-! ## Strings -/

theorem doubleQuotes_eq_flatMap (v : List Char) :
    LiteralStyle.doubleQuotes v = v.flatMap (unit '\'' none) := by
  rw [LiteralStyle.doubleQuotes, Text.replaceAll_singleton]
  congr 1
  funext c
  by_cases h : c = '\'' <;> simp [unit, h]

theorem doubleQuotes_doubleBackslashes (v : List Char) :
    LiteralStyle.doubleQuotes (LiteralStyle.doubleBackslashes v) =
      v.flatMap (unit '\'' (some '\\')) := by
  rw [doubleQuotes_eq_flatMap, LiteralStyle.doubleBackslashes, Text.replaceAll_singleton,
    List.flatMap_assoc]
  congr 1
  funext c
  by_cases hb : c = '\\'
  · subst hb; rfl
  · by_cases hq : c = '\'' <;> simp [unit, hb, hq, Ne.symm hb]

theorem plain_toList (s : String) :
    (LiteralStyle.plain s).toList = '\'' :: closed '\'' none s.toList := by
  rw [LiteralStyle.plain, String.toList_ofList, LiteralStyle.quoted, doubleQuotes_eq_flatMap]
  rfl

theorem backslashed_toList (s : String) :
    (LiteralStyle.backslashed s).toList = '\'' :: closed '\'' (some '\\') s.toList := by
  rw [LiteralStyle.backslashed, String.toList_ofList, LiteralStyle.quoted,
    doubleQuotes_doubleBackslashes]
  rfl

theorem literals_string (f : Flavor) (s : String) :
    (f.dialect.literals.string s).toList = f.lexis.literal s.toList := by
  cases f with
  | generic => exact plain_toList s
  | sqlserver => exact plain_toList s
  | mysql => exact backslashed_toList s
  | postgres =>
    show (LiteralStyle.marked s).toList = _
    rw [LiteralStyle.marked, Lexis.literal]
    by_cases h : '\\' ∈ s.toList
    · rw [if_pos h, if_pos ⟨rfl, h⟩, String.toList_append, backslashed_toList]
      rfl
    · rw [if_neg h, if_neg fun hh => h hh.2, plain_toList]
      rfl

/-- Days and times are written like other strings. -/
theorem literals_temporal (f : Flavor) (t : Temporal) (s : String) :
    f.dialect.literals.temporal t s = f.dialect.literals.string s := by
  cases f <;> rfl

/-! ## Words -/

/-- Characters that delimit nothing in any of the dialects. -/
def isUnquoted (c : Char) : Bool := !(['\'', '"', '`', '[', ']'].contains c)

/-- What delimits or encloses something in one of the dialects. -/
def enclosures : List Char := ['\'', '"', '`', '[', ']', '(', ')']

/-- Characters that neither delimit anything nor enclose it. -/
def isFree (c : Char) : Bool := !enclosures.contains c

theorem isFree_of {p : Char → Bool} (hp : enclosures.any p = false) {c : Char}
    (h : p c = true) : isFree c = true := by
  simp only [isFree, Bool.not_eq_true', List.contains_eq_mem, decide_eq_false_iff_not]
  intro hc
  exact Bool.false_ne_true (hp.symm.trans (List.any_eq_true.mpr ⟨c, hc, h⟩))

theorem isFree_iff {c : Char} :
    isFree c = true ↔ isUnquoted c = true ∧ c ≠ '(' ∧ c ≠ ')' := by
  simp only [isFree, isUnquoted, enclosures, Bool.not_eq_true', List.contains_eq_mem,
    decide_eq_false_iff_not, List.mem_cons, List.not_mem_nil, or_false]
  tauto

/-- A word holds no delimiter and closes the parentheses it opens, in either case. -/
def isWord (w : String) : Bool :=
  [w, Text.upper w].all fun v => v.toList.all isUnquoted && unopened v.toList == some 0

/-- A word has neither delimiters nor parentheses, in either case. -/
def isBare (w : String) : Bool := [w, Text.upper w].all fun v => v.toList.all isFree

theorem isWord_of_isBare {w : String} (h : isBare w = true) : isWord w = true := by
  simp only [isBare, isWord, List.all_eq_true, Bool.and_eq_true, beq_iff_eq] at h ⊢
  exact fun v hv => ⟨fun c hc => (isFree_iff.mp (h v hv c hc)).1,
    unopened_of_forall fun c hc => (isFree_iff.mp (h v hv c hc)).2⟩

theorem isUnquoted_iff {c : Char} (h : isUnquoted c = true) (f : Flavor) :
    c ≠ f.lexis.opener ∧ c ≠ '\'' := by
  simp only [isUnquoted, List.contains_eq_mem, List.mem_cons, List.not_mem_nil, or_false,
    Bool.not_eq_true', decide_eq_false_iff_not, not_or] at h
  cases f <;> simp [lexis, h]

end Flavor

/-- The word that a rule puts among the arguments, unless it is a template. -/
def Rule.word? : Rule → Option String
  | between w _ _ | before w | after w | call w | membership w => some w
  | custom _ => none

namespace Flavor

/-- All that the dialects have words for, at once: the keywords, the names of types, and the
rules. -/
theorem words_checked (f : Flavor) :
    (Keyword.all.all (fun k => isBare (f.dialect.keywords k)) &&
      Kind.all.all (fun k => isWord (f.dialect.typeNames k)) &&
      Builtin.all.all fun b =>
        ((f.rule? b).all fun r => r.word?.any isBare) || b == .countAll) = true := by
  cases f <;> decide +kernel

theorem keywords_isBare (f : Flavor) (k : Keyword) : isBare (f.dialect.keywords k) = true := by
  have hall := f.words_checked
  rw [Bool.and_eq_true, Bool.and_eq_true] at hall
  exact List.all_eq_true.mp hall.1.1 k (Keyword.mem_all k)

theorem keywords_isWord (f : Flavor) (k : Keyword) : isWord (f.dialect.keywords k) = true :=
  isWord_of_isBare (f.keywords_isBare k)

theorem typeNames_isWord (f : Flavor) (k : Kind) : isWord (f.dialect.typeNames k) = true := by
  have hall := f.words_checked
  rw [Bool.and_eq_true, Bool.and_eq_true] at hall
  exact List.all_eq_true.mp hall.1.2 k (Kind.mem_all k)

theorem rule?_countAll (f : Flavor) :
    f.rule? .countAll = some (.template [.word "count", .text "(*)"]) := by
  cases f <;> rfl

/-- A rule of one of the dialects puts a word among the arguments, or else it is the template for
counting rows. -/
theorem isBare_of_rule? (f : Flavor) {n : String} {r : Rule} (h : f.dialect.rule? n = some r) :
    (∃ w, r.word? = some w ∧ isBare w = true) ∨
      r = .template [.word "count", .text "(*)"] := by
  have hall := f.words_checked
  rw [Bool.and_eq_true, Bool.and_eq_true] at hall
  obtain ⟨b, -, hb⟩ := f.exists_name_of_rule? h
  have hword := List.all_eq_true.mp hall.2 b (Builtin.mem_all b)
  rw [Bool.or_eq_true, hb] at hword
  rcases hword with hword | hword
  · exact .inl (by simpa [Option.any_eq_true] using hword)
  · rw [beq_iff_eq.mp hword, rule?_countAll] at hb
    exact .inr (Option.some.inj hb).symm

theorem isWord_of_rule? (f : Flavor) {n : String} {r : Rule} (h : f.dialect.rule? n = some r) :
    (∃ w, r.word? = some w ∧ isWord w = true) ∨
      r = .template [.word "count", .text "(*)"] :=
  (f.isBare_of_rule? h).imp_left fun ⟨w, hw, hbare⟩ => ⟨w, hw, isWord_of_isBare hbare⟩

/-- The words of a dialect: its keywords, its names of types, and what its rules put among
arguments. -/
inductive HasWord (f : Flavor) : String → Prop
  | keyword (k : Keyword) : HasWord f (f.dialect.keywords k)
  | typeName (k : Kind) : HasWord f (f.dialect.typeNames k)
  | rule {n w : String} {r : Rule} (h : f.dialect.rule? n = some r)
      (hw : r.word? = some w) : HasWord f w

/-- Only the names of types have parentheses in them. -/
theorem HasWord.isBare {f : Flavor} {w : String} (h : f.HasWord w) :
    Flavor.isBare w = true ∨ ∃ k, w = f.dialect.typeNames k := by
  cases h with
  | keyword k => exact .inl (f.keywords_isBare k)
  | typeName k => exact .inr ⟨k, rfl⟩
  | rule h hw =>
    rcases f.isBare_of_rule? h with ⟨v, hv, hbare⟩ | ht
    · exact .inl (Option.some.inj (hw.symm.trans hv) ▸ hbare)
    · rw [ht] at hw
      cases hw

theorem HasWord.isWord {f : Flavor} {w : String} (h : f.HasWord w) : Flavor.isWord w = true := by
  rcases h.isBare with hbare | ⟨k, rfl⟩
  · exact isWord_of_isBare hbare
  · exact f.typeNames_isWord k

theorem rule?_count (f : Flavor) :
    f.dialect.rule? (Builtin.aggregate .count).name = some (.call "count") := by
  rw [dialect_rule?_name]
  cases f <;> rfl

/-- The word of the template for counting rows is that for counting values. -/
theorem hasWord_count (f : Flavor) : f.HasWord "count" := .rule f.rule?_count rfl

/-! ## Numbers -/

/-- The characters of finite numbers. -/
def isNumeral (c : Char) : Bool := c.isDigit || ['-', '.', 'e', '+'].contains c

theorem toDigits_isNumeral (n : Nat) : ∀ c ∈ Nat.toDigits 10 n, isNumeral c = true := by
  intro c hc
  rw [isNumeral, Nat.isDigit_of_mem_toDigits (by decide) (by decide) hc, Bool.true_or]

theorem layout_isNumeral {ds : List Char} (hd : ∀ c ∈ ds, isNumeral c = true) (place : Int) :
    ∀ c ∈ Decimal.layout ds place, isNumeral c = true := by
  have hz (n : Nat) : ∀ c ∈ Decimal.zeros n, isNumeral c = true :=
    fun c hc => (List.eq_of_mem_replicate hc) ▸ by decide
  have he (e : Int) : ∀ c ∈ Decimal.exponentText e, isNumeral c = true := by
    intro c hc
    rcases List.mem_cons.mp hc with rfl | hc
    · decide
    rcases List.mem_cons.mp hc with rfl | hc
    · split <;> decide
    · exact toDigits_isNumeral _ c hc
  have ht (n : Nat) : ∀ c ∈ ds.take n, isNumeral c = true :=
    fun c hc => hd c (List.mem_of_mem_take hc)
  have hr (n : Nat) : ∀ c ∈ ds.drop n, isNumeral c = true :=
    fun c hc => hd c (List.mem_of_mem_drop hc)
  have hp : isNumeral '.' = true := by decide
  have h0 : isNumeral '0' = true := by decide
  unfold Decimal.layout
  dsimp only
  split
  · exact List.forall_mem_append.mpr ⟨hd, hz _⟩
  split
  · exact List.forall_mem_append.mpr ⟨ht _, List.forall_mem_cons.mpr ⟨hp, hr _⟩⟩
  split
  · exact List.forall_mem_cons.mpr ⟨h0, List.forall_mem_cons.mpr
      ⟨hp, List.forall_mem_append.mpr ⟨hz _, hd⟩⟩⟩
  split
  · exact List.forall_mem_cons.mpr ⟨hd _ (by simp), he _⟩
  · exact List.forall_mem_append.mpr
      ⟨List.forall_mem_append.mpr ⟨ht 1, List.forall_mem_cons.mpr ⟨hp, hr 1⟩⟩, he _⟩

theorem layout_ne_nil {ds : List Char} (hd : ds ≠ []) (place : Int) :
    Decimal.layout ds place ≠ [] := by
  unfold Decimal.layout
  dsimp only
  split
  · simp [hd]
  split
  · simp
  split
  · simp
  split <;> simp

/-- A finite number is written, and with nothing but digits, signs, a point and an exponent. -/
theorem decimal_isNumeral {x : Float} (h : Decimal.isFinite x = true) :
    (Decimal.text x).toList ≠ [] ∧ ∀ c ∈ (Decimal.text x).toList, isNumeral c = true := by
  rw [Decimal.text, String.toList_ofList]
  rw [Decimal.isFinite] at h
  cases hr : Decimal.read x with
  | nan => simp [hr] at h
  | infinite b => simp [hr] at h
  | finite b m =>
    have hm : m.text ≠ [] ∧ ∀ c ∈ m.text, isNumeral c = true := by
      unfold Decimal.Magnitude.text
      split
      · exact ⟨List.cons_ne_nil _ _, List.all_eq_true.mp (by decide)⟩
      · exact ⟨layout_ne_nil Nat.toDigits_ne_nil _, layout_isNumeral (toDigits_isNumeral _) _⟩
    refine ⟨by simp [Decimal.Reading.text, hm.1], List.forall_mem_append.mpr ⟨?_, hm.2⟩⟩
    split <;> exact List.all_eq_true.mp (by decide)

theorem isFree_of_isNumeral {c : Char} (h : isNumeral c = true) : isFree c = true :=
  isFree_of (by decide) h

/-- No number is written with a delimiter, whole or not, finite or not. -/
theorem decimal_isFree (x : Float) : ∀ c ∈ (Decimal.text x).toList, isFree c = true := by
  cases h : Decimal.isFinite x with
  | true => exact fun c hc => isFree_of_isNumeral ((decimal_isNumeral h).2 c hc)
  | false =>
    rw [Decimal.text, String.toList_ofList]
    rw [Decimal.isFinite] at h
    cases hr : Decimal.read x with
    | nan => exact List.all_eq_true.mp (by decide)
    | infinite b => cases b <;> exact List.all_eq_true.mp (by decide)
    | finite b m => simp [hr] at h

end Flavor

end SqlDraft
