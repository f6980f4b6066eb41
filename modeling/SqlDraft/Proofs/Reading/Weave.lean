import SqlDraft.Proofs.Dialect.Spelling

/-! How the tokens of a statement lie next to one another: marks keep words, names, numbers and
literals apart, and parentheses enclose what is woven in the same way (`Woven`). In such a text
every token is read as if it stood alone (`Woven.scan_write`). So its string literals give the
texts that they were made from (`Woven.values`), and all else in it is read without regard to what
the literals say (`Woven.blanked`). -/

namespace SqlDraft.Reading

open Sql

/-- The marks that stand between other tokens, besides parentheses. -/
def marks : List String := [" ", ", ", ".", ".*", "*", " = ", "(*)"]

/-- Tokens that are kept apart, with the texts of the string literals among them. -/
inductive Woven (f : Flavor) : Tokens → List String → Prop
  | nil : Woven f [] []
  | word {w : String} (h : Flavor.isWord w = true) : Woven f [.word w] []
  | name (n : String) : Woven f [.name (f.dialect.quoting.write n)] []
  | number (x : Float) : Woven f [.number (Decimal.text x)] []
  | literal (v : String) : Woven f [.literal (f.dialect.literals.string v)] [v]
  | apart {m : String} (hm : m ∈ marks) {xs ys : Tokens} {vs ws : List String}
      (hx : Woven f xs vs) (hy : Woven f ys ws) : Woven f (xs ++ .mark m :: ys) (vs ++ ws)
  | enclosed {xs ys : Tokens} {vs ws : List String} (hx : Woven f xs vs) (hy : Woven f ys ws) :
      Woven f (xs ++ Tokens.enclosed ys) (vs ++ ws)

theorem Woven.mark {f : Flavor} {m : String} (hm : m ∈ marks) : Woven f [.mark m] [] :=
  .apart hm .nil .nil

/-- The characters that a mark, or the end of a statement, begins with. -/
def separators : List Char := [' ', ',', '(', ')', '.', '*', ';']

/-- What a text is followed by where it may end: by nothing or a separator. -/
def Ends (rest : List Char) : Prop := ∀ c ∈ rest.head?, c ∈ separators

/-- The lexemes of a token that stands alone. -/
def lexemes (x : Lexis) (letterCase : LetterCase) (t : Token) : List Lexeme :=
  scan x (t.write letterCase).toList

/-! ## Texts that may end -/

theorem Ends.head?_ne {rest : List Char} (h : Ends rest) {c : Char} (hc : c ∉ separators) :
    rest.head? ≠ some c := fun he => hc (h c (by rw [he]; exact Option.mem_some_self c))

theorem Ends.nil : Ends [] := nofun

theorem Ends.cons {c : Char} (hc : c ∈ separators) (s : List Char) : Ends (c :: s) :=
  fun d hd => by simpa [eq_comm] using (Option.mem_some.mp hd) ▸ hc

variable {f : Flavor}

theorem closer_not_mem_separators (f : Flavor) : f.lexis.closer ∉ separators := by
  cases f <;> decide

/-- No separator belongs to a word. -/
theorem scanFrom_of_ends {rest : List Char} (h : Ends rest) (w : Bool) :
    scanFrom f.lexis 0 w rest = scanFrom f.lexis 0 false rest := by
  cases rest with
  | nil => rfl
  | cons c rest =>
    have hc : c ≠ 'E' := fun hc => h.head?_ne (c := 'E') (by decide) (congrArg some hc)
    have hq : quoted? f.lexis w (c :: rest) = quoted? f.lexis false (c :: rest) := by
      simp [quoted?, hc]
    rw [scanFrom, scanFrom, hq]

theorem scanFrom_unquoted {s rest : List Char} (hs : ∀ c ∈ s, Flavor.isUnquoted c = true)
    (h : Ends rest) (w : Bool) :
    scanFrom f.lexis 0 w (s ++ rest) = s.map .char ++ scanFrom f.lexis 0 false rest := by
  rw [scanFrom_plain s (fun c hc => Flavor.isUnquoted_iff (hs c hc) f)
    (.inl (h.head?_ne (by decide))), scanFrom_of_ends h]

theorem scan_unquoted {s : List Char} (hs : ∀ c ∈ s, Flavor.isUnquoted c = true) :
    scan f.lexis s = s.map .char := by
  simpa [scan, scanFrom] using scanFrom_unquoted (f := f) hs Ends.nil false

/-! ## Tokens -/

/-- A token is read as it is on its own wherever it stands, if it may end there. -/
def Readable (x : Lexis) (letterCase : LetterCase) (t : Token) : Prop :=
  ∀ rest, Ends rest → scanFrom x 0 false ((t.write letterCase).toList ++ rest) =
    lexemes x letterCase t ++ scanFrom x 0 false rest

theorem readable_of_unquoted {letterCase : LetterCase} {t : Token}
    (h : ∀ c ∈ (t.write letterCase).toList, Flavor.isUnquoted c = true) :
    Readable f.lexis letterCase t := fun rest hr => by
  rw [scanFrom_unquoted h hr, lexemes, scan_unquoted h]

theorem lexemes_of_unquoted (letterCase : LetterCase) (t : Token)
    (h : ∀ c ∈ (t.write letterCase).toList, Flavor.isUnquoted c = true) :
    lexemes f.lexis letterCase t = (t.write letterCase).toList.map .char := scan_unquoted h

theorem word_isWord {w : String} (h : Flavor.isWord w = true) (letterCase : LetterCase) :
    (∀ c ∈ ((Token.word w).write letterCase).toList, Flavor.isUnquoted c = true) ∧
      unopened ((Token.word w).write letterCase).toList = some 0 := by
  have hall : ∀ v ∈ [w, Text.upper w],
      (∀ c ∈ v.toList, Flavor.isUnquoted c = true) ∧ unopened v.toList = some 0 := by
    simpa [Flavor.isWord] using h
  cases letterCase with
  | lower => exact hall w (by simp)
  | upper => exact hall (Text.upper w) (by simp)

theorem isUnquoted_of_isFree {s : List Char} (h : ∀ c ∈ s, Flavor.isFree c = true) :
    ∀ c ∈ s, Flavor.isUnquoted c = true := fun c hc => (Flavor.isFree_iff.mp (h c hc)).1

theorem isFree_of_isInner {c : Char} (h : Quoting.isInner c = true) : Flavor.isFree c = true :=
  Flavor.isFree_of (by decide) h

theorem isPlain_isInner {n : String} (h : Quoting.isPlain n = true) :
    ∀ c ∈ n.toList, Quoting.isInner c = true := by
  unfold Quoting.isPlain at h
  split at h
  · cases h
  · next c rest hn =>
    obtain ⟨hc, hrest⟩ := Bool.and_eq_true_iff.mp h
    rw [hn]
    exact List.forall_mem_cons.mpr
      ⟨by rw [Quoting.isInner, hc, Bool.true_or], List.all_eq_true.mp hrest⟩

theorem decimal_isUnquoted (x : Float) :
    ∀ c ∈ (Decimal.text x).toList, Flavor.isUnquoted c = true :=
  isUnquoted_of_isFree (Flavor.decimal_isFree x)

theorem plain_isFree {f : Flavor} {n : String} (hn : f.dialect.quoting.write n = n)
    (hp : Quoting.isPlain n = true) :
    ∀ c ∈ (f.dialect.quoting.write n).toList, Flavor.isFree c = true := by
  rw [hn]
  exact fun c hc => isFree_of_isInner (isPlain_isInner hp c hc)

theorem delimited_injective (x : Lexis) : Function.Injective x.delimited := by
  intro v w h
  have hclosed := (List.cons.inj h).2
  have hread (s : List Char) :
      readQuoted x.closer none (closed x.closer none s) = some (s, []) := by
    have hs : readQuoted x.closer none (closed x.closer none s ++ []) = some (s, []) :=
      readQuoted_closed s nofun
    rwa [List.append_nil] at hs
  have hv := hread v
  rw [hclosed, hread w] at hv
  exact (congrArg Prod.fst (Option.some.inj hv)).symm

/-- Different names are written differently. -/
theorem quoting_write_injective (f : Flavor) : Function.Injective f.dialect.quoting.write := by
  have hmixed {m n : String} (hm : f.dialect.quoting.write m = m) (hp : Quoting.isPlain m = true)
      (hn : (f.dialect.quoting.write n).toList = f.lexis.delimited n.toList) :
      f.dialect.quoting.write m ≠ f.dialect.quoting.write n := by
    intro h
    have hopener : f.lexis.opener ∈ m.toList := by
      rw [← hm, h, hn]
      exact List.mem_cons_self
    have hinner := isPlain_isInner hp _ hopener
    cases f <;> exact absurd hinner (by decide)
  intro m n h
  rcases f.quoting_write m with ⟨hm, hp⟩ | hm <;> rcases f.quoting_write n with ⟨hn, hq⟩ | hn
  · rwa [hm, hn] at h
  · exact absurd h (hmixed hm hp hn)
  · exact absurd h.symm (hmixed hn hq hm)
  · rw [h, hn] at hm
    exact String.toList_inj.mp (delimited_injective _ hm.symm)

/-- A name is either plain or one lexeme. -/
theorem scan_name (f : Flavor) (n : String) :
    (f.dialect.quoting.write n = n ∧ Quoting.isPlain n = true) ∨
      ∀ rest, Ends rest → scanFrom f.lexis 0 false ((f.dialect.quoting.write n).toList ++ rest) =
        .name (f.dialect.quoting.write n).toList :: scanFrom f.lexis 0 false rest := by
  refine (f.quoting_write n).imp_right fun hn rest hr => ?_
  rw [hn]
  exact scanFrom_delimited _ (hr.head?_ne (closer_not_mem_separators f))

theorem lexemes_name (n : String) (letterCase : LetterCase) :
    (f.dialect.quoting.write n = n ∧ Quoting.isPlain n = true) ∨
      lexemes f.lexis letterCase (.name (f.dialect.quoting.write n)) =
        [.name (f.dialect.quoting.write n).toList] := by
  refine (scan_name f n).imp_right fun h => ?_
  have halone := h [] Ends.nil
  rwa [List.append_nil] at halone

theorem readable_name (n : String) (letterCase : LetterCase) :
    Readable f.lexis letterCase (.name (f.dialect.quoting.write n)) := by
  rcases scan_name f n with ⟨hn, hp⟩ | h
  · exact readable_of_unquoted (isUnquoted_of_isFree (plain_isFree hn hp))
  · intro rest hr
    have halone := h [] Ends.nil
    rw [List.append_nil] at halone
    rw [lexemes, scan, Token.write, halone, h rest hr]
    rfl

theorem scan_string (v : String) {rest : List Char} (h : Ends rest) :
    scanFrom f.lexis 0 false ((f.dialect.literals.string v).toList ++ rest) =
      .literal (f.lexis.literal v.toList) v.toList :: scanFrom f.lexis 0 false rest := by
  rw [f.literals_string]
  exact scanFrom_literal _ f.lexis_sound (h.head?_ne (by decide))

theorem lexemes_string (v : String) (letterCase : LetterCase) :
    lexemes f.lexis letterCase (.literal (f.dialect.literals.string v)) =
      [.literal (f.lexis.literal v.toList) v.toList] := by
  have h := scan_string (f := f) v Ends.nil
  rwa [List.append_nil] at h

theorem readable_string (v : String) (letterCase : LetterCase) :
    Readable f.lexis letterCase (.literal (f.dialect.literals.string v)) := fun rest hr => by
  rw [lexemes_string]
  exact scan_string v hr

/-! ## Marks -/

/-- What is between tokens holds no delimiter, begins with a separator, and does not end within a
word. -/
structure IsMark (m : String) : Prop where
  isUnquoted : ∀ c ∈ m.toList, Flavor.isUnquoted c = true
  starts : m.toList.head?.any (· ∈ separators) = true
  stops : m.toList.getLast?.any (fun c => !Quoting.isInner c) = true

theorem isMark_of_mem {m : String} (h : m ∈ marks) : IsMark m := by
  simp only [marks, List.mem_cons, List.not_mem_nil, or_false] at h
  rcases h with rfl | rfl | rfl | rfl | rfl | rfl | rfl <;>
    exact ⟨List.all_eq_true.mp (by decide), by decide, by decide⟩

theorem IsMark.opening : IsMark "(" :=
  ⟨List.all_eq_true.mp (by decide), by decide, by decide⟩

theorem IsMark.closing : IsMark ")" :=
  ⟨List.all_eq_true.mp (by decide), by decide, by decide⟩

theorem IsMark.ends {m : String} (hm : IsMark m) (rest : List Char) :
    Ends (m.toList ++ rest) := by
  have hs := hm.starts
  cases h : m.toList with
  | nil => simp [h] at hs
  | cons c s =>
    rw [h] at hs
    exact Ends.cons (by simpa using hs) _

theorem IsMark.scanFrom {m : String} (hm : IsMark m) (rest : List Char) (w : Bool) :
    scanFrom f.lexis 0 w (m.toList ++ rest) =
      m.toList.map .char ++ scanFrom f.lexis 0 false rest := by
  obtain ⟨c, hc, hi⟩ := (Option.any_eq_true ..).mp hm.stops
  obtain ⟨s, hs⟩ := List.getLast?_eq_some_iff.mp hc
  have hi : Quoting.isInner c = false := by simpa using hi
  have hE : m.toList.getLast? ≠ some 'E' := by
    rw [hc]
    rintro ⟨⟩
    exact absurd hi (by decide)
  rw [scanFrom_plain m.toList (fun c hc => Flavor.isUnquoted_iff (hm.isUnquoted c hc) f) (.inr hE),
    hs, endsInWord, List.foldl_append, List.foldl_cons, List.foldl_nil, hi]

theorem IsMark.lexemes {m : String} (hm : IsMark m) (letterCase : LetterCase) :
    lexemes f.lexis letterCase (.mark m) = m.toList.map .char :=
  scan_unquoted hm.isUnquoted

/-! ## Woven tokens -/

theorem write_toList (letterCase : LetterCase) (ts : Tokens) :
    (ts.write letterCase).toList = ts.flatMap fun t => (t.write letterCase).toList := by
  rw [Tokens.write, String.toList_join, List.flatMap_map]

/-- In woven tokens each token is read on its own. -/
theorem Woven.scanFrom_write {ts : Tokens} {vs : List String} (h : Woven f ts vs)
    (letterCase : LetterCase) {rest : List Char} (hr : Ends rest) :
    scanFrom f.lexis 0 false ((ts.write letterCase).toList ++ rest) =
      ts.flatMap (lexemes f.lexis letterCase) ++ scanFrom f.lexis 0 false rest := by
  have single (t : Token) (ht : Readable f.lexis letterCase t) {rest : List Char} (hr : Ends rest) :
      scanFrom f.lexis 0 false ((Tokens.write letterCase [t]).toList ++ rest) =
        [t].flatMap (Reading.lexemes f.lexis letterCase) ++ scanFrom f.lexis 0 false rest := by
    simpa [write_toList] using ht rest hr
  induction h generalizing rest with
  | nil => rfl
  | @word w h => exact single (.word w) (readable_of_unquoted (word_isWord h letterCase).1) hr
  | name n => exact single _ (readable_name n letterCase) hr
  | number x => exact single (.number _) (readable_of_unquoted (decimal_isUnquoted x)) hr
  | literal v => exact single _ (readable_string v letterCase) hr
  | @apart m hm xs ys vs ws hx hy ihx ihy =>
    have hm := isMark_of_mem hm
    have hw : (Tokens.write letterCase (xs ++ .mark m :: ys)).toList ++ rest =
        (xs.write letterCase).toList ++ (m.toList ++ ((ys.write letterCase).toList ++ rest)) := by
      simp [write_toList, Token.write]
    rw [hw, ihx (hm.ends _), hm.scanFrom, ihy hr]
    simp [hm.lexemes]
  | @enclosed xs ys vs ws hx hy ihx ihy =>
    have hw : (Tokens.write letterCase (xs ++ Tokens.enclosed ys)).toList ++ rest =
        (xs.write letterCase).toList ++
          ("(".toList ++ ((ys.write letterCase).toList ++ (")".toList ++ rest))) := by
      simp [write_toList, Token.write, Tokens.enclosed]
    rw [hw, ihx (IsMark.opening.ends _), IsMark.opening.scanFrom, ihy (IsMark.closing.ends _),
      IsMark.closing.scanFrom]
    simp [IsMark.opening.lexemes, IsMark.closing.lexemes, Tokens.enclosed]

theorem Woven.scan_write {ts : Tokens} {vs : List String} (h : Woven f ts vs)
    (letterCase : LetterCase) {rest : List Char} (hr : Ends rest) :
    scan f.lexis ((ts.write letterCase).toList ++ rest) =
      ts.flatMap (lexemes f.lexis letterCase) ++ scan f.lexis rest := h.scanFrom_write letterCase hr

/-! ## Literals -/

/-- The token holds no string literal. -/
def Silent (x : Lexis) (letterCase : LetterCase) (t : Token) : Prop :=
  ∀ l ∈ lexemes x letterCase t, l.value? = none

theorem silent_of_unquoted {letterCase : LetterCase} (t : Token)
    (h : ∀ c ∈ (t.write letterCase).toList, Flavor.isUnquoted c = true) :
    Silent f.lexis letterCase t := by
  intro l hl
  rw [lexemes, scan_unquoted h] at hl
  obtain ⟨c, -, rfl⟩ := List.mem_map.mp hl
  rfl

theorem silent_name (n : String) (letterCase : LetterCase) :
    Silent f.lexis letterCase (.name (f.dialect.quoting.write n)) := by
  rcases lexemes_name (f := f) n letterCase with ⟨hn, hp⟩ | h
  · exact silent_of_unquoted (.name _) (isUnquoted_of_isFree (plain_isFree hn hp))
  · intro l hl
    rw [h, List.mem_singleton] at hl
    rw [hl]
    rfl

theorem Silent.values {letterCase : LetterCase} {t : Token} (h : Silent f.lexis letterCase t) :
    (lexemes f.lexis letterCase t).filterMap Lexeme.value? = [] :=
  List.filterMap_eq_nil_iff.mpr h

/-- The string literals of woven tokens give the texts that they were made from, in order. -/
theorem Woven.values {ts : Tokens} {vs : List String} (h : Woven f ts vs)
    (letterCase : LetterCase) :
    (ts.flatMap (lexemes f.lexis letterCase)).filterMap Lexeme.value? = vs.map String.toList := by
  have single (t : Token) (ht : Silent f.lexis letterCase t) :
      ([t].flatMap (lexemes f.lexis letterCase)).filterMap Lexeme.value? =
        ([] : List String).map String.toList := by
    rw [List.flatMap_singleton]
    exact ht.values
  have mark {m : String} (hm : IsMark m) : Silent f.lexis letterCase (.mark m) :=
    silent_of_unquoted (.mark m) hm.isUnquoted
  induction h with
  | nil => rfl
  | @word w h => exact single (.word w) (silent_of_unquoted _ (word_isWord h letterCase).1)
  | name n => exact single (.name _) (silent_name n letterCase)
  | number x => exact single (.number _) (silent_of_unquoted (.number _) (decimal_isUnquoted x))
  | literal v => rw [List.flatMap_singleton, lexemes_string]; rfl
  | apart hm hx hy ihx ihy =>
    simp only [List.flatMap_append, List.flatMap_cons, List.filterMap_append, List.map_append,
      ihx, ihy, (mark (isMark_of_mem hm)).values, List.nil_append]
  | enclosed hx hy ihx ihy =>
    simp only [Tokens.enclosed, List.flatMap_append, List.flatMap_cons, List.flatMap_nil,
      List.cons_append, List.filterMap_append, List.map_append, ihx, ihy,
      (mark IsMark.opening).values, (mark IsMark.closing).values, List.nil_append, List.append_nil]

/-- The token with nothing of what a literal says. -/
def blankToken : Token → Token
  | .literal _ => .literal ""
  | t => t

/-- The lexemes of a blanked token. -/
def blankLexemes (x : Lexis) (letterCase : LetterCase) : Token → List Lexeme
  | .literal _ => [.literal [] []]
  | t => lexemes x letterCase t

theorem Lexeme.blanked_eq_self {l : Lexeme} (h : l.value? = none) : l.blanked = l := by
  cases l with
  | literal t v => cases h
  | _ => rfl

theorem Silent.blanked {letterCase : LetterCase} {t : Token} (h : Silent f.lexis letterCase t) :
    (lexemes f.lexis letterCase t).map Lexeme.blanked = lexemes f.lexis letterCase t :=
  (List.map_congr_left fun l hl => Lexeme.blanked_eq_self (h l hl)).trans (List.map_id _)

/-- All that is read of woven tokens, but for what their literals say, is read of the tokens without
what the literals say. -/
theorem Woven.blanked {ts : Tokens} {vs : List String} (h : Woven f ts vs)
    (letterCase : LetterCase) :
    (ts.flatMap (lexemes f.lexis letterCase)).map Lexeme.blanked =
      (ts.map blankToken).flatMap (blankLexemes f.lexis letterCase) := by
  have single (t : Token) (ht : Silent f.lexis letterCase t)
      (hb : blankLexemes f.lexis letterCase (blankToken t) = lexemes f.lexis letterCase t) :
      ([t].flatMap (lexemes f.lexis letterCase)).map Lexeme.blanked =
        ([t].map blankToken).flatMap (blankLexemes f.lexis letterCase) := by
    rw [List.flatMap_singleton, ht.blanked, List.map_singleton, List.flatMap_singleton, hb]
  have mark {m : String} (hm : IsMark m) :
      (lexemes f.lexis letterCase (.mark m)).map Lexeme.blanked =
        blankLexemes f.lexis letterCase (blankToken (.mark m)) :=
    (silent_of_unquoted (.mark m) hm.isUnquoted).blanked
  induction h with
  | nil => rfl
  | @word w h => exact single (.word w) (silent_of_unquoted _ (word_isWord h letterCase).1) rfl
  | name n => exact single (.name _) (silent_name n letterCase) rfl
  | number x =>
    exact single (.number _) (silent_of_unquoted (.number _) (decimal_isUnquoted x)) rfl
  | literal v => rw [List.flatMap_singleton, lexemes_string]; rfl
  | apart hm hx hy ihx ihy =>
    simp only [List.flatMap_append, List.flatMap_cons, List.map_append, List.map_cons, ihx, ihy,
      mark (isMark_of_mem hm)]
  | enclosed hx hy ihx ihy =>
    simp only [Tokens.enclosed, List.flatMap_append, List.flatMap_cons, List.flatMap_nil,
      List.cons_append, List.map_append, List.map_cons, List.map_nil, ihx, ihy,
      mark IsMark.opening, mark IsMark.closing]

/-! ## Parentheses -/

theorem lies_of_isFree {s : List Char} (h : ∀ c ∈ s, Flavor.isFree c = true) :
    Lies (s.map .char) :=
  lies_chars (unopened_of_forall fun c hc => (Flavor.isFree_iff.mp (h c hc)).2)

theorem nestOnto_lexeme {l : Lexeme} (h : ∀ c, l ≠ .char c) (n : Nest) (st : List Nest) :
    nestOnto [l] (n :: st) = Nest.glue l.text n :: st := by
  show onto l (n :: st) = _
  rw [onto_cons, if_neg (h _), if_neg (h _), if_neg (h _), if_neg (h _)]

theorem lies_lexeme {l : Lexeme} (h : ∀ c, l ≠ .char c) : Lies [l] :=
  (lies_of_eq (nestOnto_lexeme h)).1

theorem lies_mark {m : String} (hm : m ∈ marks) (letterCase : LetterCase) :
    Lies (lexemes f.lexis letterCase (.mark m)) := by
  rw [(isMark_of_mem hm).lexemes]
  refine lies_chars ?_
  simp only [marks, List.mem_cons, List.not_mem_nil, or_false] at hm
  rcases hm with rfl | rfl | rfl | rfl | rfl | rfl | rfl <;> decide

/-- Woven tokens close the parentheses that they open, and no others. -/
theorem Woven.lies {ts : Tokens} {vs : List String} (h : Woven f ts vs)
    (letterCase : LetterCase) : Lies (ts.flatMap (lexemes f.lexis letterCase)) := by
  induction h with
  | nil => exact lies_nil
  | @word w h =>
    obtain ⟨hu, hp⟩ := word_isWord h letterCase
    rw [List.flatMap_singleton, lexemes_of_unquoted letterCase (.word w) hu]
    exact lies_chars hp
  | name n =>
    rw [List.flatMap_singleton]
    rcases lexemes_name (f := f) n letterCase with ⟨hn, hp⟩ | h
    · have hfree := plain_isFree hn hp
      rw [lexemes_of_unquoted letterCase (.name (f.dialect.quoting.write n))
        (isUnquoted_of_isFree hfree)]
      exact lies_of_isFree hfree
    · rw [h]
      exact lies_lexeme nofun
  | number x =>
    rw [List.flatMap_singleton,
      lexemes_of_unquoted letterCase (.number (Decimal.text x)) (decimal_isUnquoted x)]
    exact lies_of_isFree (Flavor.decimal_isFree x)
  | literal v =>
    rw [List.flatMap_singleton, lexemes_string]
    exact lies_lexeme nofun
  | apart hm hx hy ihx ihy =>
    rw [List.flatMap_append, List.flatMap_cons]
    exact ihx.append ((lies_mark hm letterCase).append ihy)
  | enclosed hx hy ihx ihy =>
    have h := ihx.append ihy.enclosed
    simpa [Tokens.enclosed, IsMark.opening.lexemes, IsMark.closing.lexemes] using h

end SqlDraft.Reading
