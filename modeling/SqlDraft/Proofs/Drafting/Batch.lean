import SqlDraft.Proofs.Drafting.Method

/-! Lists handed to a method in two calls. A method that takes a list asks first whether it may be
called, then checks the members one after the other and puts them after those that are there. What
it asked for holds of the draft it makes, so that a second call fails, or not, just as the rest of a
longer first call would. Main statement (`Query.append_calls`): rows, shared columns, groupings and
orders may be handed over in two calls or in one. -/

namespace SqlDraft

open Sql

variable {α β γ : Type}

theorem bind_congr_of_ok {o : Outcome α} {f g : α → Outcome β} (h : ∀ a, o = .ok a → f a = g a) :
    (o >>= f) = o >>= g := by
  cases o with
  | error e => rfl
  | ok a => exact h a rfl

/-- A list is checked and put away in two parts as it is in one, if putting the second part away
after the first asks for nothing new. -/
theorem bind_mapM_append {o : Outcome γ} {check : γ → α → Outcome β} (put : γ → List β → Query)
    {again : Query → Outcome Query} {as as' : List α}
    (h : ∀ c bs, o = .ok c → again (put c bs) =
      as'.mapM (check c) >>= fun bs' => pure (put c (bs ++ bs'))) :
    ((o >>= fun c => as.mapM (check c) >>= fun bs => pure (put c bs)) >>= again) =
      o >>= fun c => (as ++ as').mapM (check c) >>= fun bs => pure (put c bs) := by
  simp only [bind_assoc, pure_bind, List.mapM_append]
  exact bind_congr_of_ok fun c hc => bind_congr fun bs => h c bs hc

namespace Query

variable {q : Query}

/-! ## Rows -/

/-- The columns that rows are read against, all the method asks for before it reads them. -/
def readyColumns (q : Query) (first : Catalog Operand) : Outcome (List Column) := do
  q.command.require .values
  let t ← q.requireTable .values
  let columns ← q.columnsOf t first
  if columns.isEmpty then throw (.argument Method.values.name .noRowColumn)
  return columns

theorem insertRows_cons (first : Catalog Operand) (rest : List (Catalog Operand)) :
    q.insertRows (first :: rest) = q.readyColumns first >>= fun columns =>
      (first :: rest).mapM (rowValues columns) >>= fun built =>
        pure { q with insertColumns := columns, rows := q.rows ++ built } := by
  unfold insertRows readyColumns
  simp only [bind_assoc]
  refine bind_congr fun _ => bind_congr fun t => bind_congr fun columns => ?_
  split <;> rfl

/-- An insert with columns reads every further row against them. -/
theorem readyColumns_of_readyColumns {first : Catalog Operand} {columns : List Column}
    (h : q.readyColumns first = .ok columns) (built : List (List Expr)) (next : Catalog Operand) :
    { q with insertColumns := columns, rows := q.rows ++ built }.readyColumns next =
      .ok columns := by
  obtain ⟨u, hu, h⟩ := bind_eq_ok_iff.mp h
  obtain ⟨t, ht, h⟩ := bind_eq_ok_iff.mp h
  obtain ⟨columns', -, h⟩ := bind_eq_ok_iff.mp h
  dsimp only at h
  split at h
  · cases h
  · next hne =>
    cases h
    refine bind_eq_ok_iff.mpr ⟨u, hu, bind_eq_ok_iff.mpr ⟨t, ht, ?_⟩⟩
    simp [columnsOf, hne, pure, Except.pure, bind, Except.bind]

theorem insertRows_append {rows rows' : List (Catalog Operand)} (hrows : rows ≠ [])
    (hrows' : rows' ≠ []) :
    (q.insertRows rows >>= fun r => r.insertRows rows') = q.insertRows (rows ++ rows') := by
  obtain ⟨first, rest, rfl⟩ := List.exists_cons_of_ne_nil hrows
  obtain ⟨next, rest', rfl⟩ := List.exists_cons_of_ne_nil hrows'
  rw [List.cons_append, insertRows_cons, insertRows_cons, ← List.cons_append]
  -- one call takes the columns from its first row, the second of two finds them in the draft
  refine bind_mapM_append
    (fun columns built => { q with insertColumns := columns, rows := q.rows ++ built })
    fun columns built hcolumns => ?_
  rw [insertRows_cons, readyColumns_of_readyColumns hcolumns]
  simp only [List.append_assoc]
  rfl

/-! ## Shared columns -/

/-- Two changes of the last join are one, if the first leaves it a join of its kind. -/
theorem changeLastJoin_bind {m : Method} {change change' : Join → Outcome Join}
    (hkind : ∀ j j', change j = .ok j' → j'.kind = j.kind) :
    (q.changeLastJoin m change >>= fun r => r.changeLastJoin m change') =
      q.changeLastJoin m fun j => change j >>= change' := by
  rcases List.eq_nil_or_concat q.joins with hjoins | ⟨front, last, hjoins⟩
  · simp [changeLastJoin, hjoins, bind, Except.bind]
  · by_cases hcross : last.kind = .cross
    · simp [changeLastJoin, hjoins, hcross, bind, Except.bind]
    · cases hj : change last with
      | error e => simp [changeLastJoin, hjoins, hcross, hj, bind, Except.bind, Except.map]
      | ok j =>
        have hcross' : j.kind ≠ .cross := hkind last j hj ▸ hcross
        simp [changeLastJoin, hjoins, hcross, hcross', hj, bind, Except.bind, Except.map]

/-- What the method makes of the last join. -/
def sharing (k : Command) (columns : List String) (j : Join) : Outcome Join :=
  if j.condition.isSome then .error (.operation k.name Method.shared.name .onAndUsing)
  else .ok { j with shared := some (j.shared.getD [] ++ columns) }

theorem sharing_kind {k : Command} {columns : List String} {j j' : Join}
    (h : sharing k columns j = .ok j') :
    j'.kind = j.kind := by
  unfold sharing at h
  split at h
  · cases h
  · cases h; rfl

theorem sharing_append (k : Command) (columns columns' : List String) (j : Join) :
    (sharing k columns j >>= sharing k columns') = sharing k (columns ++ columns') j := by
  cases hcondition : j.condition <;> simp [sharing, hcondition, bind, Except.bind]

theorem share_of_ne_nil {columns : List String} (hcolumns : columns ≠ []) :
    q.share columns = q.command.require .shared >>= fun _ =>
      q.changeLastJoin .shared (sharing q.command columns) := by
  simp only [share, List.isEmpty_eq_false_iff.mpr hcolumns]
  rfl

theorem share_append {columns columns' : List String} (hcolumns : columns ≠ [])
    (hcolumns' : columns' ≠ []) :
    (q.share columns >>= fun r => r.share columns') = q.share (columns ++ columns') := by
  rw [share_of_ne_nil hcolumns,
    share_of_ne_nil (List.append_ne_nil_of_left_ne_nil hcolumns columns'), bind_assoc]
  refine bind_congr_of_ok fun u hu => ?_
  calc (q.changeLastJoin .shared (sharing q.command columns) >>= fun r => r.share columns')
      = q.changeLastJoin .shared (sharing q.command columns) >>= fun r =>
          r.changeLastJoin .shared (sharing q.command columns') := by
        -- the draft made has the same command, so the second call is admitted like the first
        refine bind_congr_of_ok fun r hr => ?_
        obtain ⟨front, last, j, -, -, -, rfl⟩ := changeLastJoin_eq_ok hr
        rw [share_of_ne_nil hcolumns']
        show (q.command.require .shared >>= _) = _
        rw [hu]
        rfl
    _ = q.changeLastJoin .shared fun j =>
          sharing q.command columns j >>= sharing q.command columns' :=
        changeLastJoin_bind fun _ _ => sharing_kind
    _ = q.changeLastJoin .shared (sharing q.command (columns ++ columns')) := by
        simp only [sharing_append]

/-! ## Grouping and order -/

theorem groupBy_append (es es' : List Expr) :
    (q.groupBy es >>= fun r => r.groupBy es') = q.groupBy (es ++ es') := by
  refine bind_mapM_append (fun _ nodes => { q with grouping := q.grouping ++ nodes })
    fun u nodes hu => ?_
  show (q.command.require .groupBy >>= _) = _
  rw [hu]
  simp only [List.append_assoc]
  rfl

theorem orderBy_append (es es' : List Expr) :
    (q.orderBy es >>= fun r => r.orderBy es') = q.orderBy (es ++ es') := by
  refine bind_mapM_append (fun _ nodes => { q with ordering := q.ordering ++ nodes })
    fun u nodes hu => ?_
  show (q.command.require .orderBy >>= _) = _
  rw [hu]
  simp only [List.append_assoc]
  rfl

/-- A list may be handed to a method in two parts, one call after the other: the draft made is the
one that a single call with the whole list makes, and where a call fails, so does that one, with the
same fault. -/
theorem append_calls (q : Query) :
    (∀ rows rows' : List (Catalog Operand), rows ≠ [] → rows' ≠ [] →
      (q.insertRows rows >>= fun r => r.insertRows rows') = q.insertRows (rows ++ rows')) ∧
    (∀ columns columns' : List String, columns ≠ [] → columns' ≠ [] →
      (q.share columns >>= fun r => r.share columns') = q.share (columns ++ columns')) ∧
    (∀ es es' : List Expr, (q.groupBy es >>= fun r => r.groupBy es') = q.groupBy (es ++ es')) ∧
    (∀ es es' : List Expr, (q.orderBy es >>= fun r => r.orderBy es') = q.orderBy (es ++ es')) :=
  ⟨fun _ _ hrows hrows' => insertRows_append hrows hrows', fun _ _ hcolumns hcolumns' =>
    share_append hcolumns hcolumns', groupBy_append, orderBy_append⟩

/-- The second record leaves a column out, which is found in a call of its own just as after the
first. -/
theorem append_calls_pets :
    let pets := Table.declare 0 "pets" none
      (some ⟨[("name", .concrete .string), ("tame", .collection (.concrete .boolean))], by decide⟩)
    let first : Catalog Operand :=
      ⟨[("tame", .value (.truth true)), ("name", .value (.text "Rex"))], by decide⟩
    let second : Catalog Operand := ⟨[("name", .value (.text "Tom"))], by decide⟩
    let q := ofStatement .insert (some pets)
    (q.insertRows [first] >>= fun r => r.insertRows [first]) = q.insertRows [first, first] ∧
      (q.insertRows [first, first]).map (fun r => r.rows.length) = .ok 2 ∧
      (q.insertRows [first] >>= fun r => r.insertRows [second]) = q.insertRows [first, second] ∧
      q.insertRows [first, second] =
        .error (.argument Method.values.name (.rowColumns ["tame", "name"])) := by
  intro pets first second q
  have htwice := (append_calls q).1 [first] [first] (List.cons_ne_nil _ _) (List.cons_ne_nil _ _)
  have hshort := (append_calls q).1 [first] [second] (List.cons_ne_nil _ _) (List.cons_ne_nil _ _)
  exact ⟨htwice, rfl, hshort, rfl⟩

end Query

end SqlDraft
