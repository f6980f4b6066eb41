import SqlDraft.Proofs.Dialect.Spelling
import SqlDraft.Proofs.Reading.Phrase

/-! The words that a dialect writes expressions with, as its rules have them (`Flavor.grammar`), in
the case that a statement is written in. Each rule of a dialect puts words of this grammar where
they are read as what they are (`Flavor.speaks`). -/

namespace SqlDraft

open Reading Sql

/-- A word in the case that a statement is written in. -/
def LetterCase.write (c : LetterCase) (w : String) : Word := ((Token.word w).write c).toList

/-- The pieces of what counts as one word, as in `is null`. -/
def LetterCase.pieces (c : LetterCase) (w : String) : List Word := (c.write w).splitOn ' '

/-- The keyword that a statement begins with. -/
def Statement.opening : Statement → Keyword
  | select => .select
  | insert => .insertInto
  | update => .update
  | delete => .deleteFrom
  | create => .createTable
  | drop => .dropTable

namespace Flavor

/-- The keywords that statements begin with. -/
def openings : List Keyword :=
  [.select, .insertInto, .update, .deleteFrom, .createTable, .dropTable]

theorem map_opening_all : Statement.all.map Statement.opening = openings := rfl

/-- What a dialect's rules put between, in front of, and behind their arguments. -/
def grammar (f : Flavor) (c : LetterCase) : Grammar where
  infixes := Builtin.all.filterMap fun b =>
    match f.rule? b with
    | some (.between w p _) => some (c.write w, p)
    | _ => none
  prefixes := Builtin.all.filterMap fun b =>
    match f.rule? b with
    | some (.before w) => some (c.write w)
    | _ => none
  postfixes := Builtin.all.filterMap fun b =>
    match f.rule? b with
    | some (.after w) => some (c.pieces w)
    | _ => none
  memberships := Builtin.all.filterMap fun b =>
    match f.rule? b with
    | some (.membership w) => some (c.write w)
    | _ => none
  statements := openings.map fun k => (c.pieces (f.dialect.keywords k)).headD []

end Flavor

/-- A piece of its own. -/
def isPiece (w : Word) : Bool := !w.isEmpty && w.all isSolid

/-- The grammar has the word of a rule in its place, and in no other that it could be taken for. -/
def Reading.Grammar.speaks (g : Grammar) (c : LetterCase) : Rule → Bool
  | .between w p _ => isPiece (c.write w) && g.precedence? (c.write w) == some p
  | .before w =>
    isPiece (c.write w) && g.prefixes.contains (c.write w) && !g.statements.contains (c.write w)
  | .after w =>
    (c.pieces w).all isPiece && g.postfixes.contains (c.pieces w) &&
      (c.pieces w).head?.any (fun v => g.precedence? v == none && !g.memberships.contains v) &&
      (c.pieces w).inits.all fun ws => ws == c.pieces w || !g.postfixes.contains ws
  | .call w =>
    isPiece (c.write w) && !g.prefixes.contains (c.write w) && !g.statements.contains (c.write w)
  | .membership w =>
    isPiece (c.write w) && g.precedence? (c.write w) == none && g.memberships.contains (c.write w)
  | .custom _ => true

namespace Flavor

/-- What would be taken for a word if it stood at the beginning of an expression. -/
def leadWords (f : Flavor) (c : LetterCase) : List Word :=
  (f.grammar c).prefixes ++ (f.grammar c).statements

/-- All that the grammars of the dialects have words for, at once: the rules, what expressions may
begin with, the values that have a keyword, and the keywords that statements begin with. -/
theorem grammar_checked (f : Flavor) (c : LetterCase) :
    (Builtin.all.all (fun b => (f.rule? b).all ((f.grammar c).speaks c)) &&
      (f.leadWords c).all (fun w => !w.isEmpty && w.all Char.isAlpha &&
        w.any (fun x => !isNumeral x) && f.dialect.quoting.isReserved (String.ofList w)) &&
      ([.null, .truth true, .truth false] : List Keyword).all (fun k =>
        isPiece (c.write (f.dialect.keywords k)) &&
          !(f.leadWords c).contains (c.write (f.dialect.keywords k))) &&
      openings.all fun k => (c.pieces (f.dialect.keywords k)).all isPiece) = true := by
  cases f <;> cases c <;> decide +kernel

theorem speaks (f : Flavor) (c : LetterCase) {n : String} {r : Rule}
    (h : f.dialect.rule? n = some r) : (f.grammar c).speaks c r = true := by
  have hall := f.grammar_checked c
  rw [Bool.and_eq_true, Bool.and_eq_true, Bool.and_eq_true] at hall
  obtain ⟨b, -, hb⟩ := f.exists_name_of_rule? h
  have hr := List.all_eq_true.mp hall.1.1.1 b (Builtin.mem_all b)
  rwa [hb] at hr

/-- Words at the beginning of an expression have nothing but letters, some of which are in no
number, and would not be written as names. -/
theorem leadWords_reserved (f : Flavor) (c : LetterCase) {w : Word} (h : w ∈ f.leadWords c) :
    w ≠ [] ∧ (∀ x ∈ w, x.isAlpha = true) ∧ (∃ x ∈ w, isNumeral x = false) ∧
      f.dialect.quoting.isReserved (String.ofList w) = true := by
  have hall := f.grammar_checked c
  rw [Bool.and_eq_true, Bool.and_eq_true, Bool.and_eq_true] at hall
  have hw := List.all_eq_true.mp hall.1.1.2 w h
  simpa [and_assoc] using hw

/-- The values that have a keyword are not taken for words. -/
theorem write_keyword_notMem_leadWords (f : Flavor) (c : LetterCase) {k : Keyword}
    (h : k ∈ [.null, .truth true, .truth false]) :
    isPiece (c.write (f.dialect.keywords k)) = true ∧
      c.write (f.dialect.keywords k) ∉ f.leadWords c := by
  have hall := f.grammar_checked c
  rw [Bool.and_eq_true, Bool.and_eq_true, Bool.and_eq_true] at hall
  simpa using List.all_eq_true.mp hall.1.2 k h

theorem openings_pieces (f : Flavor) (c : LetterCase) {k : Keyword} (h : k ∈ openings) :
    ∀ v ∈ c.pieces (f.dialect.keywords k), isPiece v = true := by
  have hall := f.grammar_checked c
  rw [Bool.and_eq_true] at hall
  exact List.all_eq_true.mp (List.all_eq_true.mp hall.2 k h)

/-! ## What statements begin with -/

/-- The first piece of the keyword that a statement begins with. -/
def opening (f : Flavor) (c : LetterCase) (k : Statement) : Word :=
  (c.pieces (f.dialect.keywords k.opening)).headD []

theorem mem_statements_iff {f : Flavor} {c : LetterCase} {w : Word} :
    w ∈ (f.grammar c).statements ↔ ∃ k, f.opening c k = w := by
  rw [grammar, ← map_opening_all, List.map_map, List.mem_map]
  exact ⟨fun ⟨k, _, hk⟩ => ⟨k, hk⟩, fun ⟨k, hk⟩ => ⟨k, Statement.mem_all k, hk⟩⟩

/-- It tells which statement it is. -/
theorem opening_injective (f : Flavor) (c : LetterCase) : Function.Injective (f.opening c) := by
  have hnodup : (Statement.all.map (f.opening c)).Nodup := by
    cases f <;> cases c <;> decide +kernel
  exact fun j k => List.inj_on_of_nodup_map hnodup (Statement.mem_all j) (Statement.mem_all k)

end Flavor

end SqlDraft
