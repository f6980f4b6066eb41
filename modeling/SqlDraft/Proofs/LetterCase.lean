import SqlDraft.Proofs.Layout.Tree
import SqlDraft.Sql.Compile

/-! The case of letters is a matter of words. A statement in upper case differs from the same one in
lower case in nothing but the words of its dialect; the names, texts, days and times, and numbers of
its query are no words and stand as they are (`Query.compile_letterCase`). -/

namespace SqlDraft

open Sql Reading

namespace Sql

namespace Token

/-- The characters of a token as it stands. -/
def chars : Token → String
  | word s | name s | literal s | number s | mark s => s

/-- Whether the token is a word of the language. Any other one is written as it stands. -/
def isWord : Token → Bool
  | word _ => true
  | _ => false

/-- Whether the token is written for a datum of the query. -/
def isDatum : Token → Bool
  | name _ | literal _ | number _ => true
  | _ => false

theorem write_lower (t : Token) : t.write .lower = t.chars := by cases t <;> rfl

theorem write_upper (t : Token) :
    t.write .upper = if t.isWord then Text.upper t.chars else t.chars := by cases t <;> rfl

end Token

variable {f : Flavor} {ts : Tokens} {ds : List Datum}

theorem isDatum_token (d : Dialect) (x : Datum) : (x.token d).isDatum = true := by cases x <;> rfl

/-- The data that tokens carry are written in the tokens that are neither words nor marks. -/
theorem Carries.filter_isDatum (h : Carries f ts ds) :
    ts.filter Token.isDatum = ds.map (Datum.token f.dialect) := by
  induction h with
  | nil => rfl
  | word h => rfl
  | datum x => rw [List.filter_cons_of_pos (isDatum_token _ x)]; rfl
  | apart hm _ _ ihx ihy => simp [List.filter_append, Token.isDatum, ihx, ihy]
  | enclosed _ _ ihx ihy => simp [Tokens.enclosed, List.filter_append, Token.isDatum, ihx, ihy]

theorem Carries.hasWord (h : Carries f ts ds) : ∀ w, Token.word w ∈ ts → f.HasWord w := by
  induction h with
  | nil => exact fun _ hw => nomatch hw
  | word h =>
    intro v hv
    cases List.mem_singleton.mp hv
    exact h
  | datum x =>
    intro w hw
    have hdatum := isDatum_token f.dialect x
    rw [← List.mem_singleton.mp hw] at hdatum
    cases hdatum
  | apart hm _ _ ihx ihy =>
    intro w hw
    rcases List.mem_append.mp hw with hw | hw
    · exact ihx w hw
    · exact ihy w (by simpa using hw)
  | enclosed _ _ ihx ihy =>
    intro w hw
    rcases List.mem_append.mp hw with hw | hw
    · exact ihx w hw
    · exact ihy w (by simpa [Tokens.enclosed] using hw)

end Sql

/-- What ends a statement is written as one more mark, or not at all. -/
theorem Finish.exists_tail (terminator : Bool) : ∃ tail : Tokens,
    (∀ c, tail.write c = Finish.tail ⟨c, terminator⟩) ∧ ∀ t ∈ tail, t = .mark ";" := by
  cases terminator with
  | false => exact ⟨[], fun c => rfl, List.forall_mem_nil _⟩
  | true => exact ⟨[.mark ";"], fun c => rfl, fun t => List.mem_singleton.mp⟩

/-- A query is refused for the same cause in either case, or else there is one list of tokens that
both texts are written from: the one in lower case from the tokens as they stand, the other one with
the words among them in upper case. The words are those of the dialect. The names, literals and
numbers are the data of the query, in order. -/
theorem Query.compile_letterCase (f : Flavor) (q : Query) (terminator : Bool) :
    (∃ φ, ∀ c, q.compile f.dialect ⟨c, terminator⟩ = .error φ) ∨
    ∃ ts : Tokens,
      q.compile f.dialect ⟨.lower, terminator⟩ = .ok (String.join (ts.map Token.chars)) ∧
      q.compile f.dialect ⟨.upper, terminator⟩ =
        .ok (String.join (ts.map fun t => if t.isWord then Text.upper t.chars else t.chars)) ∧
      ts.filter Token.isDatum = (q.data f.dialect []).map (Datum.token f.dialect) ∧
      ∀ w, Token.word w ∈ ts → f.HasWord w := by
  cases h : q.write f.dialect [] with
  | error φ =>
    refine .inl ⟨φ, fun c => ?_⟩
    rw [compile, h]
    rfl
  | ok ts =>
    have hcarries := write_carries q [] ts h
    obtain ⟨tail, htail, hmarks⟩ := Finish.exists_tail terminator
    have hcompile (c : LetterCase) :
        q.compile f.dialect ⟨c, terminator⟩ =
          .ok (String.join ((ts ++ tail).map (Token.write c))) := by
      refine compile_eq_ok_iff.mpr ⟨ts, h, ?_⟩
      rw [← htail c, List.map_append, String.join_append]
      rfl
    have htailData : tail.filter Token.isDatum = [] := by
      rw [List.filter_eq_nil_iff]
      intro t ht
      rw [hmarks t ht]
      exact Bool.false_ne_true
    -- the tokens do not depend on the case, which is a matter of how each of them is written
    refine .inr ⟨ts ++ tail, ?_, ?_, ?_, fun w hw => ?_⟩
    · rw [hcompile, funext Token.write_lower]
    · rw [hcompile, funext Token.write_upper]
    · rw [List.filter_append, htailData, List.append_nil]
      exact hcarries.filter_isDatum
    · rcases List.mem_append.mp hw with hw | hw
      · exact hcarries.hasWord w hw
      · cases hmarks _ hw

end SqlDraft
