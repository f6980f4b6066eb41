import SqlDraft.Query.Payload
import SqlDraft.Query.Shape

/-! Queries that come of the entry points and the empty scopes by calls of their methods, with
drafts that themselves do no more than that (`Query.Drafted`). What the calls are given is a
parameter: any operands (`Query.Reached`), or such as are put together likewise. What holds at the
start and is kept by every call holds of all that is drafted (`Query.Drafted.induction`). -/

namespace SqlDraft

variable {A : Operand → Prop} {N : Listed → Prop} {P : Query → Prop}

/-- The criterion is an operand that is admitted, or a draft that hands back a query with the
property. -/
inductive Criterion.Within (A : Operand → Prop) (P : Query → Prop) : Criterion → Clause → Prop
  | operand {o : Operand} {K : Clause} (ho : A o) : Within A P (.operand o) K
  | draft {build : Query → Outcome Query} {K : Clause} {result : Query}
      (hbuild : build (.inScope (.condition K)) = .ok result) (hresult : P result) :
      Within A P (.draft build) K

theorem Criterion.Within.imp {B : Operand → Prop} {Q : Query → Prop} {a : Criterion} {K : Clause}
    (hA : ∀ o, A o → B o) (hP : ∀ q, P q → Q q) (h : a.Within A P K) : a.Within B Q K := by
  cases h with
  | operand ho => exact .operand (hA _ ho)
  | draft hbuild hresult => exact .draft hbuild (hP _ hresult)

/-- Names in a select are given to expressions only, and a list of values is none. -/
def Listed.Named : Listed → Prop
  | .labelled e _ => ∀ vs t, e ≠ .list vs t
  | _ => True

namespace Query

/-- Where drafts begin, those within other drafts too. -/
inductive Started (N : Listed → Prop) : Query → Prop
  | select {items : List Listed} {q : Query} (hitems : ∀ i ∈ items, N i)
      (h : Query.select items = .ok q) : Started N q
  | delete : Started N .delete
  | insertInto (t : Table) : Started N (.insertInto t)
  | update (t : Table) : Started N (.update t)
  | create (t : Table) : Started N (.create t)
  | drop (t : Table) : Started N (.drop t)
  | inScope (s : Scope) : Started N (.inScope s)
  | joining (kind : JoinKind) (t : Table) : Started N (.joining { kind, table := t })

/-- A call of the method, given what is admitted, makes the second query of the first, and drafts
called on the way hand back queries that have the property. -/
inductive Called (A : Operand → Prop) (P : Query → Prop) : Method → Query → Query → Prop
  | target {q r : Query} {t : Table} (h : q.target t = .ok r) : Called A P .target q r
  | restrict {q r : Query} {K : Clause} {link : Link} {a : Criterion} (ha : a.Within A P K)
      (h : q.restrict K link a = .ok r) : Called A P (.condition K link) q r
  | join {q r : Query} {kind : JoinKind} {t : Table} (h : q.join kind t = .ok r) :
      Called A P (.join kind) q r
  | joinDraft {q r result : Query} {kind : JoinKind} {t : Table} {build : Query → Outcome Query}
      (hbuild : build (.joining { kind, table := t }) = .ok result) (hresult : P result)
      (h : q.join kind t (some build) = .ok r) : Called A P (.join kind) q r
  | share {q r : Query} {columns : List String} (h : q.share columns = .ok r) :
      Called A P .shared q r
  | groupBy {q r : Query} {es : List Expr} (hes : ∀ e ∈ es, A (.expr e))
      (h : q.groupBy es = .ok r) :
      Called A P .groupBy q r
  | orderBy {q r : Query} {es : List Expr} (hes : ∀ e ∈ es, A (.expr e))
      (h : q.orderBy es = .ok r) :
      Called A P .orderBy q r
  | fetch {q r : Query} {n : Float} (h : q.fetch n = .ok r) : Called A P .fetch q r
  | skip {q r : Query} {n : Float} (h : q.skip n = .ok r) : Called A P .skip q r
  | distinct {q r : Query} (h : q.distinct = .ok r) : Called A P .distinct q r
  | values {q r : Query} {rows : List (Catalog Operand)}
      (hrows : ∀ row ∈ rows, ∀ e ∈ row.entries, A e.2)
      (h : q.insertRows rows = .ok r) : Called A P .values q r
  | assign {q r : Query} {record : Catalog Operand} (hrecord : ∀ e ∈ record.entries, A e.2)
      (h : q.assign record = .ok r) : Called A P .set q r
  | assignColumn {q r : Query} {c : Column} {o : Operand} (ho : A o)
      (h : q.assignColumn c o = .ok r) :
      Called A P .set q r
  | ifExists {q r : Query} (h : q.onlyIfExists = .ok r) : Called A P .ifExists q r
  | ifNotExists {q r : Query} (h : q.onlyIfMissing = .ok r) : Called A P .ifNotExists q r

/-- Begun with items that are admitted, and continued by calls that are given operands that are
admitted. -/
inductive Drafted (A : Operand → Prop) (N : Listed → Prop) : Query → Prop
  | started {q : Query} (h : q.Started N) : Drafted A N q
  | called {m : Method} {q r : Query} (hq : Drafted A N q)
      (h : Called A (Drafted A N) m q r) : Drafted A N r

/-- What holds where drafts begin, and of what a call gives if it holds of all that takes part,
holds of every query that is drafted. -/
theorem Drafted.induction (started : ∀ q : Query, q.Started N → P q)
    (called : ∀ m q r, P q → Called A P m q r → P r) {q : Query} (h : q.Drafted A N) : P q := by
  refine @Drafted.rec A N (fun q _ => P q) (fun m q r _ => Called A P m q r)
    (fun a K _ => a.Within A P K)
    ?_ ?_ ?_ ?_ ?_ ?_ ?_ ?_ ?_ ?_ ?_ ?_ ?_ ?_ ?_ ?_ ?_ ?_ ?_ _ h
  · exact fun h => started _ h
  · exact fun _ _ hq h => called _ _ _ hq h
  · exact fun h => .target h
  · exact fun _ h ha => .restrict ha h
  · exact fun h => .join h
  · exact fun hbuild _ h hresult => .joinDraft hbuild hresult h
  · exact fun h => .share h
  · exact fun hes h => .groupBy hes h
  · exact fun hes h => .orderBy hes h
  · exact fun h => .fetch h
  · exact fun h => .skip h
  · exact fun h => .distinct h
  · exact fun hrows h => .values hrows h
  · exact fun hrecord h => .assign hrecord h
  · exact fun ho h => .assignColumn ho h
  · exact fun h => .ifExists h
  · exact fun h => .ifNotExists h
  · exact .operand
  · exact fun hbuild _ hresult => .draft hbuild hresult

/-- Drafted with any operands at all. -/
abbrev Reached : Query → Prop := Drafted (fun _ => True) Listed.Named

end Query

end SqlDraft
