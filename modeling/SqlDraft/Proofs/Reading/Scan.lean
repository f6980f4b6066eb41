import SqlDraft.Dialect.Quoting

/-! The text of a statement read as a database reads it: characters, names between delimiters, and
string literals, each literal with the text it stands for. A delimiter written twice within what it
delimits stands for itself; in some literals a backslash stands for the character behind it.

`flatMap_text_scan` says that nothing of the text is lost. What is between delimiters cannot be
mistaken for what is around it: `readQuoted_closed` reads a quoted text to its end and no further,
whatever follows, as long as that is not one more delimiter. -/

namespace SqlDraft.Reading

/-- The delimiters of names in a dialect, and which of its literals have escapes. -/
structure Lexis where
  opener : Char
  closer : Char
  /-- What escapes the character behind it in a literal. -/
  escape : Option Char := none
  /-- What does so in a literal with an `E` in front, if that marks one. -/
  markedEscape : Option Char := none

inductive Lexeme where
  | char (c : Char)
  | name (text : List Char)
  | literal (text value : List Char)
deriving DecidableEq

def Lexeme.text : Lexeme → List Char
  | char c => [c]
  | name text => text
  | literal text _ => text

/-- What a string literal stands for. -/
def Lexeme.value? : Lexeme → Option (List Char)
  | literal _ value => some value
  | _ => none

/-- The lexeme with nothing of what a literal says. -/
def Lexeme.blanked : Lexeme → Lexeme
  | literal _ _ => literal [] []
  | l => l

/-- Names and literals begin in different ways. -/
structure Lexis.Sound (x : Lexis) : Prop where
  opener_ne_quote : x.opener ≠ '\''
  opener_ne_mark : x.opener ≠ 'E'

/-- What stands before the closing delimiter, and what stands behind it. -/
def readQuoted (closer : Char) (escape : Option Char) : List Char → Option (List Char × List Char)
  | [] => none
  | c :: rest =>
    if c = closer then
      match rest with
      | [] => some ([], [])
      | d :: after =>
        if d = closer then (readQuoted closer escape after).map fun r => (d :: r.1, r.2)
        else some ([], d :: after)
    else if escape == some c then
      match rest with
      | [] => none
      | d :: after => (readQuoted closer escape after).map fun r => (d :: r.1, r.2)
    else (readQuoted closer escape rest).map fun r => (c :: r.1, r.2)

/-- The text up to a rest of it. -/
def upTo (rest s : List Char) : List Char := s.take (s.length - rest.length)

/-- The name or literal that a text begins with, if it does. An `E` within a word marks nothing. -/
def quoted? (x : Lexis) (inWord : Bool) : List Char → Option Lexeme
  | [] => none
  | c :: rest =>
    if c = x.opener then
      (readQuoted x.closer none rest).map fun r => .name (upTo r.2 (c :: rest))
    else if c = '\'' then
      (readQuoted '\'' x.escape rest).map fun r => .literal (upTo r.2 (c :: rest)) r.1
    else if c = 'E' ∧ x.markedEscape.isSome ∧ inWord = false ∧ rest.head? = some '\'' then
      (readQuoted '\'' x.markedEscape rest.tail).map fun r => .literal (upTo r.2 (c :: rest)) r.1
    else none

/-- Scans from here on, after passing over the next `skip` characters, which belong to a lexeme
already read. -/
def scanFrom (x : Lexis) : (skip : Nat) → (inWord : Bool) → List Char → List Lexeme
  | _, _, [] => []
  | skip + 1, w, _ :: rest => scanFrom x skip w rest
  | 0, w, c :: rest =>
    match quoted? x w (c :: rest) with
    | some l => l :: scanFrom x (l.text.length - 1) false rest
    | none => .char c :: scanFrom x 0 (Quoting.isInner c) rest

def scan (x : Lexis) (s : List Char) : List Lexeme := scanFrom x 0 false s

/-! ## Quoted texts -/

theorem readQuoted_cons_of_ne {closer : Char} {escape : Option Char} {c : Char}
    (hc : c ≠ closer) (he : (escape == some c) = false) (rest : List Char) :
    readQuoted closer escape (c :: rest) =
      (readQuoted closer escape rest).map fun r => (c :: r.1, r.2) := by
  rw [readQuoted.eq_def]
  simp [hc, he]

theorem readQuoted_suffix {closer : Char} {escape : Option Char} (s : List Char) :
    ∀ {v r : List Char}, readQuoted closer escape s = some (v, r) → r <:+ s := by
  induction s using readQuoted.induct closer escape with
  | case1 => intro v r h; simp [readQuoted] at h
  | case2 => intro v r h; simp [readQuoted] at h; simp [h]
  | case3 after ih =>
    intro v r h
    simp only [readQuoted, if_true, Option.map_eq_some_iff, Prod.mk.injEq] at h
    obtain ⟨⟨u, t⟩, hu, -, rfl⟩ := h
    exact (ih hu).trans ((List.suffix_cons _ _).trans (List.suffix_cons _ _))
  | case4 d after hd =>
    intro v r h
    simp only [readQuoted, if_true, if_neg hd, Option.some.injEq, Prod.mk.injEq] at h
    exact h.2 ▸ List.suffix_cons _ _
  | case5 c hc he => intro v r h; simp [readQuoted, hc, he] at h
  | case6 c hc he d after ih =>
    intro v r h
    simp only [readQuoted, if_neg hc, if_pos he, Option.map_eq_some_iff, Prod.mk.injEq] at h
    obtain ⟨⟨u, t⟩, hu, -, rfl⟩ := h
    exact (ih hu).trans ((List.suffix_cons _ _).trans (List.suffix_cons _ _))
  | case7 c rest hc he ih =>
    intro v r h
    rw [readQuoted_cons_of_ne hc (by simpa using he), Option.map_eq_some_iff] at h
    obtain ⟨⟨u, t⟩, hu, ht⟩ := h
    cases ht
    exact (ih hu).trans (List.suffix_cons _ _)

/-- A character as it is written within delimiters. -/
def unit (closer : Char) (escape : Option Char) (c : Char) : List Char :=
  if c = closer ∨ escape = some c then [c, c] else [c]

/-- A text as it is written from behind the opening delimiter to the closing one. -/
def closed (closer : Char) (escape : Option Char) (s : List Char) : List Char :=
  s.flatMap (unit closer escape) ++ [closer]

/-- A name between delimiters. -/
def Lexis.delimited (x : Lexis) (n : List Char) : List Char := x.opener :: closed x.closer none n

/-- A string literal, marked if it needs to be. -/
def Lexis.literal (x : Lexis) (v : List Char) : List Char :=
  if x.markedEscape.isSome ∧ '\\' ∈ v then 'E' :: '\'' :: closed '\'' x.markedEscape v
  else '\'' :: closed '\'' x.escape v

/-- Reading stops at the delimiter that was put behind a text, and gives that text. -/
theorem readQuoted_closed {closer : Char} {escape : Option Char} (s : List Char)
    {rest : List Char} (h : rest.head? ≠ some closer) :
    readQuoted closer escape (closed closer escape s ++ rest) = some (s, rest) := by
  induction s with
  | nil =>
    cases rest with
    | nil => simp [closed, readQuoted]
    | cons d after =>
      have hd : d ≠ closer := by simpa using h
      simp [closed, readQuoted, hd]
  | cons c s ih =>
    have hs : closed closer escape (c :: s) ++ rest =
        unit closer escape c ++ (closed closer escape s ++ rest) := by
      simp [closed]
    rw [hs]
    by_cases hc : c = closer
    · simp [unit, hc, readQuoted, ih]
    by_cases he : escape = some c
    · simp [unit, hc, he, readQuoted, he ▸ ih]
    · have he' : (escape == some c) = false := by simpa using he
      rw [unit, if_neg (by simp [hc, he]), List.singleton_append,
        readQuoted_cons_of_ne hc he', ih]
      rfl

/-! ## Lexemes -/

theorem upTo_append (s rest : List Char) : upTo rest (s ++ rest) = s := by
  simp [upTo]

theorem upTo_cons_append (c : Char) (s rest : List Char) : upTo rest (c :: (s ++ rest)) = c :: s :=
  upTo_append (c :: s) rest

/-- A lexeme is what the text begins with, and it is not empty. -/
theorem quoted?_text {x : Lexis} {w : Bool} {s : List Char} {l : Lexeme}
    (h : quoted? x w s = some l) : l.text ≠ [] ∧ l.text <+: s := by
  have taken (c : Char) {t r : List Char} (hr : r <:+ t) :
      upTo r (c :: t) ≠ [] ∧ upTo r (c :: t) <+: c :: t := by
    obtain ⟨p, rfl⟩ := hr
    rw [upTo_cons_append]
    exact ⟨List.cons_ne_nil _ _, ⟨r, rfl⟩⟩
  unfold quoted? at h
  split at h
  · cases h
  · next c rest =>
    split at h
    · obtain ⟨⟨v, r⟩, hr, rfl⟩ := Option.map_eq_some_iff.mp h
      exact taken c (readQuoted_suffix _ hr)
    split at h
    · obtain ⟨⟨v, r⟩, hr, rfl⟩ := Option.map_eq_some_iff.mp h
      exact taken c (readQuoted_suffix _ hr)
    split at h
    · obtain ⟨⟨v, r⟩, hr, rfl⟩ := Option.map_eq_some_iff.mp h
      exact taken c ((readQuoted_suffix _ hr).trans (List.tail_suffix _))
    · cases h

theorem scanFrom_append (x : Lexis) (w : Bool) (p rest : List Char) :
    scanFrom x p.length w (p ++ rest) = scanFrom x 0 w rest := by
  induction p with
  | nil => rfl
  | cons c p ih => rw [List.length_cons, List.cons_append, scanFrom, ih]

theorem scanFrom_quoted {x : Lexis} {w : Bool} {s rest : List Char} {l : Lexeme} (hs : s ≠ [])
    (h : quoted? x w (s ++ rest) = some l) (hl : l.text = s) :
    scanFrom x 0 w (s ++ rest) = l :: scanFrom x 0 false rest := by
  cases s with
  | nil => exact absurd rfl hs
  | cons c s =>
    rw [List.cons_append] at h ⊢
    rw [scanFrom, h]
    dsimp only
    rw [hl, List.length_cons, Nat.add_sub_cancel, scanFrom_append]

theorem scanFrom_char {x : Lexis} {w : Bool} {c : Char} {rest : List Char}
    (h : quoted? x w (c :: rest) = none) :
    scanFrom x 0 w (c :: rest) = .char c :: scanFrom x 0 (Quoting.isInner c) rest := by
  rw [scanFrom, h]

/-- Scanning keeps every character of the text. -/
theorem flatMap_text_scanFrom (x : Lexis) (w : Bool) (k : Nat) (s : List Char) :
    (scanFrom x k w s).flatMap Lexeme.text = s.drop k := by
  induction s generalizing k w with
  | nil => simp [scanFrom]
  | cons c s ih =>
    cases k with
    | succ k => rw [scanFrom, ih, List.drop_succ_cons]
    | zero =>
      cases h : quoted? x w (c :: s) with
      | none => rw [scanFrom_char h, List.flatMap_cons, ih]; rfl
      | some l =>
        obtain ⟨hne, r, hr⟩ := quoted?_text h
        rw [← hr] at h ⊢
        rw [scanFrom_quoted hne h rfl, List.flatMap_cons, List.drop_zero]
        congr 1
        cases ht : l.text with
        | nil => exact absurd ht hne
        | cons d t =>
          rw [ht, List.cons_append, List.cons.injEq] at hr
          have := ih false t.length
          rwa [← hr.2, scanFrom_append, List.drop_left] at this

theorem flatMap_text_scan (x : Lexis) (s : List Char) : (scan x s).flatMap Lexeme.text = s :=
  flatMap_text_scanFrom x false 0 s

/-! ## What a text begins with -/

variable {x : Lexis} {w : Bool}

theorem scanFrom_delimited (n : List Char) {rest : List Char} (h : rest.head? ≠ some x.closer) :
    scanFrom x 0 w (x.delimited n ++ rest) =
      .name (x.delimited n) :: scanFrom x 0 false rest := by
  refine scanFrom_quoted (List.cons_ne_nil _ _) ?_ rfl
  rw [Lexis.delimited, List.cons_append, quoted?, if_pos rfl, readQuoted_closed n h,
    Option.map_some]
  exact congrArg (some <| Lexeme.name ·) (upTo_cons_append ..)

theorem quoted?_literal (v : List Char) {rest : List Char} (ho : x.opener ≠ '\'')
    (h : rest.head? ≠ some '\'') :
    quoted? x w ('\'' :: closed '\'' x.escape v ++ rest) =
      some (.literal ('\'' :: closed '\'' x.escape v) v) := by
  rw [List.cons_append, quoted?, if_neg (Ne.symm ho), if_pos rfl, readQuoted_closed v h,
    Option.map_some]
  exact congrArg (some <| Lexeme.literal · v) (upTo_cons_append ..)

theorem quoted?_marked (v : List Char) {rest : List Char} (ho : x.opener ≠ 'E')
    (hm : x.markedEscape.isSome) (h : rest.head? ≠ some '\'') :
    quoted? x false ('E' :: '\'' :: closed '\'' x.markedEscape v ++ rest) =
      some (.literal ('E' :: '\'' :: closed '\'' x.markedEscape v) v) := by
  rw [List.cons_append, List.cons_append, quoted?, if_neg (Ne.symm ho), if_neg (by decide),
    if_pos ⟨rfl, hm, rfl, rfl⟩, List.tail_cons, readQuoted_closed v h, Option.map_some]
  exact congrArg (some <| Lexeme.literal · v) (upTo_append (_ :: _ :: _) rest)

/-- A string literal is read as a whole and gives its text, unless its mark would belong to a word
in front of it. -/
theorem scanFrom_literal (v : List Char) {rest : List Char} (hx : x.Sound)
    (h : rest.head? ≠ some '\'') :
    scanFrom x 0 false (x.literal v ++ rest) =
      .literal (x.literal v) v :: scanFrom x 0 false rest := by
  unfold Lexis.literal
  split
  · next hm =>
    exact scanFrom_quoted (List.cons_ne_nil _ _) (quoted?_marked v hx.opener_ne_mark hm.1 h) rfl
  · exact scanFrom_quoted (List.cons_ne_nil _ _) (quoted?_literal v hx.opener_ne_quote h) rfl

/-- Whether a word is still going on behind a text, given whether one was before it. -/
def endsInWord (w : Bool) (s : List Char) : Bool := s.foldl (fun _ c => Quoting.isInner c) w

/-- A text without delimiters is scanned character by character, unless its last one marks a
literal behind it. -/
theorem scanFrom_plain (s : List Char) {rest : List Char}
    (hs : ∀ c ∈ s, c ≠ x.opener ∧ c ≠ '\'') (h : rest.head? ≠ some '\'' ∨ s.getLast? ≠ some 'E') :
    scanFrom x 0 w (s ++ rest) = s.map .char ++ scanFrom x 0 (endsInWord w s) rest := by
  induction s generalizing w with
  | nil => rfl
  | cons c s ih =>
    obtain ⟨hc, hs'⟩ := List.forall_mem_cons.mp hs
    -- a quote behind an E belongs to the rest, as there is none in the text
    have hq : quoted? x w (c :: (s ++ rest)) = none := by
      rw [quoted?, if_neg hc.1, if_neg hc.2, if_neg]
      rintro ⟨rfl, -, -, hhead⟩
      cases s with
      | cons d s => exact (hs' d (by simp)).2 (by simpa using hhead)
      | nil => exact h.elim (absurd hhead) (absurd rfl)
    rw [List.cons_append, scanFrom_char hq, ih hs' ?_]
    · rfl
    · cases s with
      | nil => exact .inr (by simp)
      | cons d s => exact h

end SqlDraft.Reading
