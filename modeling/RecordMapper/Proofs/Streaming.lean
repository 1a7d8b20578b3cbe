import Mathlib.Data.List.ReduceOption
import RecordMapper.Proofs.Queries
import RecordMapper.Proofs.Remembering
import RecordMapper.Proofs.TableSelects
import RecordMapper.Session.Stream

/-!
# Streaming

An iterator over a stream hands out what a list of the records would be made of. It starts with
the first row, however many rows were asked for before, while rows that were read ahead are
handed out once.

1. `handed`: what some rows become one by one, compared with the records that they are at once
   (`handed_of_collect_ok`, `handed_of_collect_error`).
2. `Session.calls`: the answers of an iterator. `Session.calls_running` is the induction over
   its calls.
3. `Session.Streams.found_or_fault`: a stream finds the rows that its query finds now.
4. `Session.visits`: iterators one after another, with changes of the session between them.
5. `Session.rows_streamed`: the rows of a query agree with its records.
-/

namespace RecordMapper

/-! ## Rows one by one -/

/-- What some rows become one by one: a record for each row up to one that is none, or up to the
fault that ended the rows. -/
def handed (decode : List Cell → Except Error Record) (fault : Option EngineFault) :
    List (List Cell) → List (Except Error Record)
  | [] => (fault.map fun fault => .error (.ofFault fault)).toList
  | cells :: rest =>
    match decode cells with
    | .ok r => .ok r :: handed decode fault rest
    | .error e => [.error e]

section Handed

variable {decode : List Cell → Except Error Record} {fault : Option EngineFault} {cells : List Cell}
  {rest items : List (List Cell)} {r : Record} {records : List Record} {e : Error}

theorem handed_cons_ok (h : decode cells = .ok r) :
    handed decode fault (cells :: rest) = .ok r :: handed decode fault rest := by
  rw [handed, h]

theorem handed_cons_error (h : decode cells = .error e) :
    handed decode fault (cells :: rest) = [.error e] := by
  rw [handed, h]

theorem collect_cons : Session.collect ⟨cells :: rest, fault⟩ decode =
    (do return (← decode cells) :: (← Session.collect ⟨rest, fault⟩ decode)) := by
  unfold Session.collect
  rw [List.mapM_cons]
  cases decode cells with
  | error e => rfl
  | ok r =>
    cases rest.mapM decode with
    | error e => rfl
    | ok rs => cases fault <;> rfl

/-- Rows that all are records are handed out as these. -/
theorem handed_of_collect_ok (h : Session.collect ⟨items, fault⟩ decode = .ok records) :
    handed decode fault items = records.map .ok := by
  induction items generalizing records with
  | nil =>
    cases fault with
    | none =>
      cases h
      rfl
    | some fault => cases h
  | cons cells rest ih =>
    rw [collect_cons] at h
    obtain ⟨r, hr, h⟩ := ok_of_bind h
    obtain ⟨rs, hrs, h⟩ := ok_of_bind h
    cases h
    rw [handed_cons_ok hr, ih hrs]
    rfl

/-- Otherwise the records before the first row that is none are handed out, and then its error; or
all of them and the fault. -/
theorem handed_of_collect_error (h : Session.collect ⟨items, fault⟩ decode = .error e) :
    ∃ before after records, items = before ++ after ∧ before.mapM decode = .ok records ∧
      (after.head?.map decode = some (.error e) ∨ after = [] ∧ fault.map .ofFault = some e) ∧
      handed decode fault items = records.map .ok ++ [.error e] := by
  induction items with
  | nil =>
    cases fault with
    | none => cases h
    | some fault =>
      cases h
      exact ⟨[], [], [], rfl, rfl, .inr ⟨rfl, rfl⟩, rfl⟩
  | cons cells rest ih =>
    cases hr : decode cells with
    | error e' =>
      rw [collect_cons, hr] at h
      cases h
      refine ⟨[], cells :: rest, [], rfl, rfl, .inl ?_, handed_cons_error hr⟩
      rw [List.head?_cons, Option.map_some, hr]
    | ok r =>
      rw [collect_cons, hr] at h
      rcases error_of_bind h with h | ⟨r', h', h⟩
      · cases h
      · rcases error_of_bind h with h | ⟨rs, -, h⟩
        · obtain ⟨before, after, records, rfl, hbefore, hafter, hitems⟩ := ih h
          refine ⟨cells :: before, after, r :: records, rfl, ?_, hafter, ?_⟩
          · rw [List.mapM_cons, hr, hbefore]
            rfl
          · rw [handed_cons_ok hr, hitems]
            rfl
        · cases h

end Handed

/-! ## Steps of an iterator -/

namespace Session

open RecordMapper.Action

section Steps

variable {stream : Stream} {cells : List Cell} {rest : List (List Cell)}
  {fault : Option EngineFault} {reading : Bool} {s u : Session}

theorem advance_end (stream : Stream) (fault : Option EngineFault) (reading : Bool) (s : Session) :
    stream.advance ⟨[], fault⟩ reading s = ((fault.map fun fault => .error (.ofFault fault), .done),
      (leaveCursor (.running ⟨[], fault⟩ reading) s).2) := (rfl)

theorem advance_row {r : Record}
    (hr : materialize stream.mapping stream.prepared.names cells = .ok r) :
    stream.advance ⟨cells :: rest, fault⟩ reading s =
      ((some (.ok r), .running ⟨rest, fault⟩ reading), s) := by
  unfold Stream.advance
  simp only [hr]
  rfl

theorem advance_error {e : Error}
    (hr : materialize stream.mapping stream.prepared.names cells = .error e) :
    stream.advance ⟨cells :: rest, fault⟩ reading s = ((some (.error e), .done),
      (leaveCursor (.running ⟨cells :: rest, fault⟩ reading) s).2) := by
  unfold Stream.advance
  simp only [hr]
  rfl

theorem advance_none {rows : Run (List Cell)} {cursor : Cursor}
    (h : stream.advance rows reading s = ((none, cursor), u)) : cursor = .done := by
  obtain ⟨items, fault⟩ := rows
  cases items with
  | nil =>
    rw [advance_end] at h
    exact (Prod.mk.inj (Prod.mk.inj h).1).2.symm
  | cons cells rest =>
    cases hr : materialize stream.mapping stream.prepared.names cells with
    | ok r =>
      rw [advance_row hr] at h
      cases h
    | error e =>
      rw [advance_error hr] at h
      cases h

theorem next_stream {cursor cursor' : Cursor} {x : Option (Except Error Record)}
    (h : stream.next cursor s = ((x, cursor'), u)) :
    QueryRows.next (.stream stream, cursor) s = ((x, .stream stream, cursor'), u) := by
  rw [QueryRows.next]
  simp only [bind, StateT.bind, h]
  rfl

end Steps

/-- An iterator that has had nothing more stays as it is. -/
def Fused {ι : Type} (next : ι → StateM Session (Option (Except Error Record) × ι)) : Prop :=
  ∀ i s j u, next i s = ((none, j), u) → next j u = ((none, j), u)

theorem fused_stream (stream : Stream) : Fused stream.next := by
  rintro cursor s cursor' u h
  cases cursor with
  | fresh =>
    unfold Stream.next at h
    simp only at h
    split at h
    · rename_i hl
      cases h
      unfold Stream.next
      simp only [hl]
    · obtain rfl := advance_none h
      rfl
  | running rows reading =>
    obtain rfl := advance_none h
    rfl
  | done =>
    cases h
    rfl

theorem fused_next : Fused QueryRows.next := by
  rintro ⟨rows, cursor⟩ s j u h
  cases rows with
  | ahead records =>
    cases records with
    | nil =>
      cases h
      rfl
    | cons r rest => cases h
  | stream stream =>
    rcases hx : stream.next cursor s with ⟨⟨x, mid⟩, v⟩
    cases (next_stream hx).symm.trans h
    exact next_stream (fused_stream stream cursor s _ _ hx)

/-! ## Calls of an iterator -/

/-- The answers of an iterator that is asked `n` times. -/
def calls {ι : Type} (next : ι → StateM Session (Option (Except Error Record) × ι)) :
    Nat → ι → StateM Session (List (Option (Except Error Record)) × ι)
  | 0, i => return ([], i)
  | n + 1, i => do
    let (x, i) ← next i
    let (xs, i) ← calls next n i
    return (x :: xs, i)

/-- Asks a new iterator over some rows `n` times and drops it. -/
def visit (rows : QueryRows) (n : Nat) :
    StateM Session (List (Option (Except Error Record)) × QueryRows) := do
  let (xs, rows, cursor) ← calls QueryRows.next n (rows, .fresh)
  leaveCursor cursor
  return (xs, rows)

/-- The answers of `n` calls where there are some items. -/
def answers (items : List (Except Error Record)) (n : Nat) : List (Option (Except Error Record)) :=
  (List.range n).map fun i => items[i]?

theorem answers_succ (items : List (Except Error Record)) (n : Nat) :
    answers items (n + 1) = items.head? :: answers items.tail n := by
  unfold answers
  rw [List.range_succ_eq_map, List.map_cons, List.map_map, List.head?_eq_getElem?]
  refine congrArg _ (List.map_congr_left fun i _ => ?_)
  exact List.getElem?_tail.symm

section Calls

variable {ι : Type} {next : ι → StateM Session (Option (Except Error Record) × ι)} {s u v : Session}
  {i j k : ι} {x : Option (Except Error Record)}
  {xs : List (Option (Except Error Record))} {n : Nat}

theorem calls_succ (h : next i s = ((x, j), u)) (hrest : calls next n j u = ((xs, k), v)) :
    calls next (n + 1) i s = ((x :: xs, k), v) := by
  rw [calls]
  simp only [bind, StateT.bind, h, hrest]
  rfl

theorem calls_done {stream : Stream} (n : Nat) (s : Session) :
    calls stream.next n .done s = ((answers [] n, .done), s) := by
  induction n with
  | zero => rfl
  | succ n ih =>
    rw [answers_succ]
    exact calls_succ rfl ih

end Calls

section Fused

variable {ι : Type} {next : ι → StateM Session (Option (Except Error Record) × ι)}

theorem Fused.ended {i j : ι} {s u : Session} (hf : Fused next)
    (h : next i s = ((none, j), u)) (n : Nat) :
    calls next n j u = ((List.replicate n none, j), u) := by
  have hnext := hf i s j u h
  induction n with
  | zero => rfl
  | succ n ih => exact calls_succ hnext ih

/-- The items up to the first call that gives none are those of all the calls. -/
theorem Fused.gather {n : Nat} {i j : ι} {s u : Session} {xs : List (Option (Except Error Record))}
    (hf : Fused next) (h : calls next n i s = ((xs, j), u)) :
    ∃ ended, Pass.gather next n i s = ((xs.reduceOption, ended, j), u) := by
  induction n generalizing i s xs with
  | zero =>
    cases h
    exact ⟨false, rfl⟩
  | succ n ih =>
    rcases hx : next i s with ⟨⟨x, mid⟩, v⟩
    cases x with
    | none =>
      rw [calls_succ hx (hf.ended hx n)] at h
      cases h
      refine ⟨true, ?_⟩
      rw [List.reduceOption_cons_of_none, List.reduceOption_replicate_none]
      unfold Pass.gather
      simp only [bind, StateT.bind, hx]
      rfl
    | some item =>
      rcases hrest : calls next n mid v with ⟨⟨ys, last⟩, w⟩
      rw [calls_succ hx hrest] at h
      cases h
      obtain ⟨ended, hgather⟩ := ih hrest
      refine ⟨ended, ?_⟩
      rw [List.reduceOption_cons_of_some]
      unfold Pass.gather
      simp only [bind, StateT.bind, hx, hgather]
      rfl

end Fused

/-- A running iterator hands out what the rows become, and however often it is asked, its statement
is ended once: at the end, at an error or when it is dropped. -/
theorem calls_running (stream : Stream) (n : Nat) (rows : Run (List Cell)) (reading : Bool)
    (s : Session) :
    ∃ cursor t, calls stream.next n (.running rows reading) s = ((answers
      (handed (materialize stream.mapping stream.prepared.names) rows.fault rows.items) n, cursor),
        t) ∧
        (leaveCursor cursor t).2 = (leaveCursor (.running rows reading) s).2 := by
  induction n generalizing rows with
  | zero => exact ⟨_, _, rfl, rfl⟩
  | succ n ih =>
    obtain ⟨items, fault⟩ := rows
    rw [answers_succ]
    cases items with
    | nil =>
      refine ⟨.done, (leaveCursor (.running ⟨[], fault⟩ reading) s).2, ?_, rfl⟩
      have hnext := advance_end stream fault reading s
      cases fault with
      | none => exact calls_succ hnext (calls_done n _)
      | some fault => exact calls_succ hnext (calls_done n _)
    | cons cells rest =>
      cases hr : materialize stream.mapping stream.prepared.names cells with
      | ok r =>
        obtain ⟨cursor, t, hrest, hleave⟩ := ih ⟨rest, fault⟩
        rw [handed_cons_ok hr]
        exact ⟨cursor, t, calls_succ (advance_row hr) hrest, hleave⟩
      | error e =>
        rw [handed_cons_error hr]
        exact ⟨.done, _, calls_succ (advance_error hr) (calls_done n _), rfl⟩

theorem calls_stream {stream : Stream} {n : Nat} {cursor cursor' : Cursor} {s t : Session}
    {xs : List (Option (Except Error Record))}
    (h : calls stream.next n cursor s = ((xs, cursor'), t)) :
    calls QueryRows.next n (.stream stream, cursor) s = ((xs, .stream stream, cursor'), t) := by
  induction n generalizing cursor s xs with
  | zero =>
    cases h
    rfl
  | succ n ih =>
    rcases hx : stream.next cursor s with ⟨⟨x, mid⟩, u⟩
    rcases hrest : calls stream.next n mid u with ⟨⟨ys, last⟩, v⟩
    rw [calls_succ hx hrest] at h
    cases h
    exact calls_succ (next_stream hx) (ih hrest)

theorem calls_ahead (records : List Record) (n : Nat) (cursor : Cursor) (s : Session) :
    calls QueryRows.next n (.ahead records, cursor) s =
      ((answers (records.map .ok) n, .ahead (records.drop n), cursor), s) := by
  induction n generalizing records with
  | zero => rfl
  | succ n ih =>
    rw [answers_succ]
    cases records with
    | nil =>
      have hrest := ih []
      rw [List.drop_nil] at hrest
      exact calls_succ rfl hrest
    | cons r rest => exact calls_succ rfl (ih rest)

theorem visit_eq {rows rows' : QueryRows} {cursor : Cursor} {n : Nat} {s u : Session}
    {xs : List (Option (Except Error Record))}
    (h : calls QueryRows.next n (rows, .fresh) s = ((xs, rows', cursor), u)) :
    visit rows n s = ((xs, rows'), (leaveCursor cursor u).2) := by
  unfold visit
  simp only [bind, StateT.bind, h]
  rfl

theorem iterate_visit (rows : QueryRows) (n : Nat) (s : Session) :
    (iterate rows n s).1.1.items = (visit rows n s).1.1.reduceOption ∧
      (iterate rows n s).1.2 = (visit rows n s).1.2 ∧
      (iterate rows n s).2 = (visit rows n s).2 := by
  rcases hcalls : calls QueryRows.next n (rows, .fresh) s with ⟨⟨xs, rows', cursor⟩, u⟩
  obtain ⟨ended, hgather⟩ := fused_next.gather hcalls
  rw [visit_eq hcalls]
  unfold iterate
  simp only [bind, StateT.bind, hgather]
  exact ⟨rfl, rfl, rfl⟩

/-! ## The rows of a query -/

/-- Rows as the engine finds them, with what makes records of them. -/
structure Found where
  decode : List Cell → Except Error Record
  rows : Run (List Cell)

/-- The rows that a query finds now. -/
def foundRows (q : Query) : SessionAction Found := do
  let c ← .ofExcept (q.command "*")
  let m ← mapping q.mapping.record
  let p ← ready c
  return ⟨materialize m p.names, ← step p⟩

theorem toList_eq (q : Query) (s : Session) :
    (toList q s).1 = (foundRows q s).1.bind fun f => collect f.rows f.decode := by
  have hparts : toList q = foundRows q >>= fun f => .ofExcept (collect f.rows f.decode) := by
    unfold toList records finishRecords foundRows
    simp only [bind_assoc, pure_bind]
  rw [hparts]
  rcases hfound : foundRows q s with ⟨e | f, t⟩
  · rw [Action.bind_error hfound]
    rfl
  · rw [Action.bind_ok hfound]
    rfl

/-- What an iterator hands out, compared with the records of the query: these in their order; or, if
the query fails, the records of the rows before the one that is no record (all of them, if the
engine failed behind them) and the error. -/
structure HandsOut (s : Session) (q : Query) (items : List (Except Error Record)) : Prop where
  whole : ∀ records, (toList q s).1 = .ok records → items = records.map .ok
  broken : ∀ e, (toList q s).1 = .error e → ∃ records, items = records.map .ok ++ [.error e] ∧
    ((foundRows q s).1 = .error e ∧ records = [] ∨
      ∃ f before after, (foundRows q s).1 = .ok f ∧ f.rows.items = before ++ after ∧
        before.mapM f.decode = .ok records ∧
        (after.head?.map f.decode = some (.error e) ∨ after = [] ∧ f.rows.fault.map .ofFault = some e))

theorem handsOut_of_found {q : Query} {s : Session} {f : Found} (h : (foundRows q s).1 = .ok f) :
    s.HandsOut q (handed f.decode f.rows.fault f.rows.items) := by
  have hlist : (toList q s).1 = collect f.rows f.decode := by
    rw [toList_eq, h]
    rfl
  refine ⟨fun records hrecords => handed_of_collect_ok (hlist.symm.trans hrecords), fun e he => ?_⟩
  obtain ⟨before, after, records, hitems, hbefore, hafter, hhanded⟩ :=
    handed_of_collect_error (hlist.symm.trans he)
  exact ⟨records, hhanded, .inr ⟨f, before, after, h, hitems, hbefore, hafter⟩⟩

theorem handsOut_of_error {q : Query} {s : Session} {e : Error} (h : (foundRows q s).1 = .error e) :
    s.HandsOut q [.error e] := by
  have hlist : (toList q s).1 = .error e := by
    rw [toList_eq, h]
    rfl
  refine ⟨fun records hrecords => ?_, fun e' he' => ?_⟩
  · rw [hlist] at hrecords
    cases hrecords
  · obtain rfl := Except.error.inj (hlist.symm.trans he')
    exact ⟨[], rfl, .inl ⟨h, rfl⟩⟩

/-! ## Sessions that find a table -/

/-- A session that is open, with given settings and a given mapping of the records of a query, whose
table is defined as given for the link. -/
structure Finds (s : Session) (q : Query) (m : Mapping) (ticks : Bool)
    (t : Option Table) : Prop where
  isOpen : ∃ link, s.connection.link = some link ∧
    Engine.definition? ⟨s.storage, link⟩ q.mapping.table = t
  ticks : s.connection.settings.ticks = ticks
  mapped : (mapping q.mapping.record s).1 = .ok m

/-- What the link knows of the table of a query, if anything, is what the content says of it. -/
def Knows (s : Session) (q : Query) : Prop :=
  ∀ link, s.connection.link = some link → Engine.KnowsTable ⟨s.storage, link⟩ q.mapping.table

/-- A session that finds the table as the content defines it. -/
structure FindsCurrent (s : Session) (q : Query) (m : Mapping) (ticks : Bool)
    (t : Option Table) : Prop
    extends s.Finds q m ticks t where
  knows : s.Knows q

variable {s s' u v : Session} {q : Query} {m : Mapping} {ticks : Bool}
  {t : Option Table} {link : Link}

theorem Finds.definition? (h : s.Finds q m ticks t) (hl : s.connection.link = some link) :
    Engine.definition? ⟨s.storage, link⟩ q.mapping.table = t := by
  obtain ⟨link', hl', ht⟩ := h.isOpen
  obtain rfl := Option.some.inj (hl'.symm.trans hl)
  exact ht

/-- What the engine does to neither the content nor the definitions of it does not matter. -/
theorem FindsCurrent.withEngine (h : s.FindsCurrent q m ticks t)
    (hl : s.connection.link = some link) {r : Engine}
    (hc : r.content = Engine.content ⟨s.storage, link⟩)
    (hk : r.link.known = link.known ∨ r.link.known = some (Engine.content ⟨s.storage, link⟩)) :
    (s.withEngine r).FindsCurrent q m ticks t where
  isOpen := ⟨r.link, rfl, (Engine.definition?_congr (h.knows link hl) hc hk).trans (h.definition? hl)⟩
  ticks := h.ticks
  mapped := h.mapped
  knows := by
    rintro link' ⟨⟩
    exact (h.knows link hl).congr hc hk

theorem FindsCurrent.withStorage (h : s.FindsCurrent q m ticks t)
    (hl : s.connection.link = some link) {storage : Storage}
    (hb : (Engine.content ⟨storage, link⟩).bare = (Engine.content ⟨s.storage, link⟩).bare) :
    FindsCurrent { s with storage } q m ticks t := by
  have hcontent : ((Engine.content ⟨storage, link⟩).readable? q.mapping.table).map Table.bare =
      ((Engine.content ⟨s.storage, link⟩).readable? q.mapping.table).map Table.bare := by
    rw [← Database.readable?_bare, hb, Database.readable?_bare]
  have hknows : Engine.KnowsTable ⟨storage, link⟩ q.mapping.table := fun k hk =>
    (h.knows link hl k hk).trans hcontent.symm
  refine ⟨⟨⟨link, hl, ?_⟩, h.ticks, h.mapped⟩, fun link' hl' => ?_⟩
  · rw [hknows.definition?, hcontent, ← (h.knows link hl).definition?, h.definition? hl]
  · obtain rfl := Option.some.inj (hl.symm.trans hl')
    exact hknows

theorem FindsCurrent.leaveCursor (h : s.FindsCurrent q m ticks t) (cursor : Cursor) :
    (leaveCursor cursor s).2.FindsCurrent q m ticks t := by
  obtain ⟨link, hl, -⟩ := h.isOpen
  unfold Session.leaveCursor
  cases hreading : cursor.isReading with
  | false => exact h
  | true =>
    simp only [hl]
    obtain ⟨hc, hk⟩ := Engine.finish_keeps (e := ⟨s.storage, link⟩)
    exact h.withEngine hl hc (.inl hk)

theorem mapping_again {d : Declaration} (h : (mapping d s).1 = .ok m) :
    (mapping d (mapping d s).2).1 = .ok m := by
  have hkept := (Catalog.request_ok_iff _ s.connection.settings.conventions d).mp h
  refine (Catalog.request_ok_iff _ s.connection.settings.conventions d).mpr ?_
  rw [Catalog.get?_request]
  exact Option.or_eq_some_iff.mpr (.inl hkept)

theorem Finds.mapping_apply (h : s.Finds q m ticks t) :
    ∃ u, mapping q.mapping.record s = (.ok m, u) ∧
    u.Finds q m ticks t ∧ u.storage = s.storage ∧ u.connection.link = s.connection.link :=
  ⟨_, Prod.ext h.mapped rfl, ⟨h.isOpen, h.ticks, mapping_again h.mapped⟩, rfl, rfl⟩

/-! ## Streams of a query -/

/-- The statement of a query is made ready as it was before, unless the definitions cannot
be read. -/
theorem Finds.ready_apply (hu : u.Finds q m ticks t)
    (hl : u.connection.link = some link) {c : Command} {select : Sql.Select} {ps : Sql.Parameters}
    {program : Program} {p : Prepared}
    (hread : Sql.readStatement c.text = .ok (some (.select select), ps))
    (hsource : select.source.map Sql.Source.table = some q.mapping.table)
    (hof : Program.of (Engine.definitions ⟨u.storage, link⟩) ps (.select select) = .ok program)
    (hbound : (bindEach ticks ⟨c.text, some (.select select), ps, program.names, []⟩ 1 c.bindings).1 = .ok p) :
    (Engine.informed ⟨u.storage, link⟩ (.select select) = .ok (Engine.knowing ⟨u.storage, link⟩) ∧
      ready c u = (.ok p, Session.withEngine { u with log := c.text :: u.log }
        (Engine.knowing ⟨u.storage, link⟩))) ∨
    ∃ fault, Engine.informed ⟨u.storage, link⟩ (.select select) = .error fault ∧
      (ready c u).1 = .error (.ofFault fault) := by
  rcases Engine.informed_cases (e := ⟨u.storage, link⟩) (Engine.readsDefinitions_select hsource) with
    hi | ⟨fault, hi, -⟩
  · refine .inl ⟨hi, ?_⟩
    have hprepare := prepare_apply hl (Engine.prepare_of_resolve hread hi hof)
    rw [Session.ready_apply hprepare]
    refine congrArg (·, _) ?_
    show (bindEach u.connection.settings.ticks _ 1 _).1 = _
    rw [hu.ticks]
    exact hbound
  · refine .inr ⟨fault, hi, ?_⟩
    have hfault : Engine.prepare ⟨u.storage, link⟩ c.text =
        (.error ⟨fault, none⟩, ⟨u.storage, link⟩) := by
      unfold Engine.prepare
      simp only [hread, hi]
    unfold ready
    rw [bind_error (prepare_apply hl hfault)]
    rfl

/-- A stream with the statement of a query: it means the same wherever the table is defined as
given. -/
structure Streams (q : Query) (m : Mapping) (ticks : Bool) (t : Option Table)
    (stream : Stream) (c : Command) (select : Sql.Select) (program : Program) : Prop where
  mapping : stream.mapping = m
  command : q.command "*" = .ok c
  read : Sql.readStatement c.text = .ok (some (.select select), stream.prepared.parameters)
  source : select.source.map Sql.Source.table = some q.mapping.table
  statement : stream.prepared.statement = some (.select select)
  names : stream.prepared.names = program.names
  bound : (bindEach ticks ⟨c.text, some (.select select), stream.prepared.parameters, program.names, []⟩ 1
    c.bindings).1 = .ok stream.prepared
  resolved : ∀ d : Database, (d.readable? q.mapping.table).map Table.bare = t →
    Program.of d stream.prepared.parameters (.select select) = .ok program

theorem engine_of_prepare {text : String} {p : Prepared} (h : prepare text s = (.ok p, u)) :
    ∃ link e, s.connection.link = some link ∧ Engine.prepare ⟨s.storage, link⟩ text = (.ok p, e) ∧
      u = withEngine { s with log := text :: s.log } e := by
  cases hl : s.connection.link with
  | none =>
    obtain ⟨e, he⟩ := prepare_closed hl text
    rw [he] at h
    cases h
  | some link =>
    rcases hx : Engine.prepare ⟨s.storage, link⟩ text with ⟨x, e⟩
    rw [prepare_apply hl hx] at h
    cases x with
    | error fault => cases h
    | ok p =>
      cases h
      exact ⟨link, e, rfl, hx, rfl⟩

theorem streams_of_queryRows (hq : q.state.deferred = true) {rows : QueryRows}
    (h : queryRows q s = (.ok rows, s')) : ∃ stream m t c select program, rows = .stream stream ∧
      Streams q m s.connection.settings.ticks t stream c select program ∧
        s'.Finds q m s.connection.settings.ticks t ∧ (s.Knows q → s'.Knows q) := by
  unfold queryRows at h
  obtain ⟨c, s₁, hchosen, h⟩ := of_bind_ok h
  obtain ⟨hcommand, rfl⟩ : q.command "*" = .ok c ∧ s = s₁ := Prod.mk.inj hchosen
  rw [if_pos hq] at h
  obtain ⟨stream, s₂, hopen, h⟩ := of_bind_ok h
  obtain ⟨hrows, rfl⟩ := Prod.mk.inj h
  obtain rfl := Except.ok.inj hrows
  unfold openStream at hopen
  obtain ⟨m, u, hmapping, hopen⟩ := of_bind_ok hopen
  obtain ⟨p, s₄, hready, hopen⟩ := of_bind_ok hopen
  obtain ⟨hstream, rfl⟩ := Prod.mk.inj hopen
  obtain rfl := Except.ok.inj hstream
  obtain rfl : (mapping q.mapping.record s).2 = u := congrArg Prod.snd hmapping
  have hm : (mapping q.mapping.record s).1 = .ok m := congrArg Prod.fst hmapping
  obtain ⟨p₀, s₅, hprepare, hready⟩ := of_bind_ok hready
  rw [get_bind, ofExcept_apply] at hready
  obtain ⟨hbound, rfl⟩ := Prod.mk.inj hready
  obtain ⟨link, e, hl, hprepared, rfl⟩ := engine_of_prepare hprepare
  -- what was prepared is resolved against the definitions that the link has then
  have hread := (Engine.of_prepare (congrArg Prod.fst hprepared)).1
  have hnone := (Engine.of_prepare (congrArg Prod.fst hprepared)).2.1
  obtain ⟨select, hselect, hsource⟩ := Query.select_of_command hcommand hread
  rw [hselect] at hread
  obtain ⟨program, hprogram, hp₀⟩ := Engine.of_prepare_select hsource hread hprepared
  have hresolved : ∀ d : Database, (d.readable? q.mapping.table).map Table.bare =
      e.definition? q.mapping.table → Program.of d p₀.parameters (.select select) = .ok program :=
    fun d hd => (Program.of_sameTable hsource hd).trans hprogram
  -- the values are bound to what was prepared
  obtain ⟨values, hc⟩ := Query.positional_of_command hcommand
  have hown : ∃ own, p = { p₀ with bindings := own } := by
    rw [hc] at hbound
    have hvalues : (bindEach s.connection.settings.ticks p₀ (p₀.bindings.length + 1)
        (values.map fun v => { value := v })).1 = .ok p := by
      rw [hnone]
      exact hbound
    obtain ⟨own, -, rfl⟩ := of_bindEach hvalues
    exact ⟨_, rfl⟩
  obtain ⟨own, rfl⟩ := hown
  rw [hp₀] at hbound hresolved ⊢
  refine ⟨_, m, e.definition? q.mapping.table, c, select, program, rfl,
    ⟨rfl, hcommand, hread, hsource, rfl, rfl, hbound, hresolved⟩,
    ⟨⟨_, rfl, rfl⟩, rfl, mapping_again hm⟩, ?_⟩
  rintro hknows link' ⟨⟩
  obtain ⟨d, hd, he⟩ := Engine.prepare_alike (e := ⟨_, link⟩) c.text
  obtain rfl : e = _ := (congrArg Prod.snd hprepared).symm.trans he
  exact (hknows link hl).congr rfl hd

/-- A stream finds in every session what the query finds there, if the table is defined as
it was. -/
theorem Streams.found_or_fault {stream : Stream} {c : Command} {select : Sql.Select}
    {program : Program} (h : Streams q m ticks t stream c select program) (hu : u.Finds q m ticks t)
    (hl : u.connection.link = some link) :
    ((foundRows q u).1 = .ok ⟨materialize stream.mapping stream.prepared.names,
        (Engine.start ⟨u.storage, link⟩ stream.prepared).1⟩ ∨
      ∃ fault, (foundRows q u).1 = .error (.ofFault fault) ∧
        (Engine.start ⟨u.storage, link⟩ stream.prepared).1 = ⟨[], some fault⟩) := by
  obtain ⟨u', hmapping, hu', hstorage, hlink⟩ := hu.mapping_apply
  have hl' : u'.connection.link = some link := hlink.trans hl
  have hof := h.resolved _ (hu'.definition? hl')
  rw [← hstorage]
  unfold foundRows
  rw [bind_ok (show Action.ofExcept (q.command "*") u = (.ok c, u) by rw [h.command]; rfl),
    bind_ok hmapping]
  rcases hu'.ready_apply hl' h.read h.source hof h.bound with ⟨hi, hready⟩ | ⟨fault, hi, hready⟩
  · rcases hrun : Engine.run (Engine.knowing ⟨u'.storage, link⟩) stream.prepared with ⟨rows, e⟩
    have hrows : (Engine.start ⟨u'.storage, link⟩ stream.prepared).1 = rows :=
      (Engine.start_rows h.statement h.source hi hof).trans (congrArg Prod.fst hrun)
    have hstep := step_apply (s := Session.withEngine { u' with log := c.text :: u'.log }
      (Engine.knowing ⟨u'.storage, link⟩)) rfl hrun
    refine .inl ?_
    rw [bind_ok hready, bind_ok hstep, hrows, h.mapping]
    rfl
  · refine .inr ⟨fault, ?_, Engine.start_unread h.statement hi⟩
    rw [bind_error (Prod.ext hready rfl)]

theorem Streams.handsOut {stream : Stream} {c : Command} {select : Sql.Select} {program : Program}
    (h : Streams q m ticks t stream c select program) (hu : u.Finds q m ticks t)
    (hl : u.connection.link = some link) {rows : Run (List Cell)}
    (hrows : (Engine.start ⟨u.storage, link⟩ stream.prepared).1 = rows) :
    u.HandsOut q (handed (materialize stream.mapping stream.prepared.names) rows.fault rows.items) := by
  rcases h.found_or_fault hu hl with hfound | ⟨fault, hfound, hstart⟩
  · exact handsOut_of_found (hrows ▸ hfound)
  · obtain rfl := hstart.symm.trans hrows
    exact handsOut_of_error hfound

theorem visit_stream (stream : Stream) (n : Nat) (u : Session) :
    (visit (.stream stream) n u).1.2 = .stream stream := by
  rcases hcalls : calls stream.next n .fresh u with ⟨⟨xs, cursor⟩, v⟩
  rw [visit_eq (calls_stream hcalls)]

theorem Streams.visit_apply {stream : Stream} {c : Command} {select : Sql.Select}
    {program : Program} (h : Streams q m ticks t stream c select program)
    (hu : u.Finds q m ticks t) (n : Nat) :
    ∃ items v, u.HandsOut q items ∧
    visit (.stream stream) n u = ((answers items n, .stream stream), v) ∧
      (u.FindsCurrent q m ticks t → v.FindsCurrent q m ticks t) := by
  obtain ⟨link, hl, -⟩ := hu.isOpen
  rcases hstart : Engine.start ⟨u.storage, link⟩ stream.prepared with ⟨rows, reading, e⟩
  have hitems := h.handsOut hu hl (congrArg Prod.fst hstart)
  cases n with
  | zero => exact ⟨_, u, hitems, visit_eq rfl, id⟩
  | succ n =>
    have hfresh : stream.next .fresh u = stream.next (.running rows reading) (u.withEngine e) := by
      unfold Stream.next
      simp only [hl, hstart]
    obtain ⟨cursor, v, hcalls, hleave⟩ := calls_running stream (n + 1) rows reading (u.withEngine e)
    have hcalls' : calls stream.next (n + 1) .fresh u =
      calls stream.next (n + 1) (.running rows reading)
        (u.withEngine e) := by
      unfold calls
      simp only [bind, StateT.bind, hfresh]
    refine ⟨_, _, hitems, visit_eq (calls_stream (hcalls'.trans hcalls)), fun hu => ?_⟩
    have hkeeps := Engine.start_keeps (e := ⟨u.storage, link⟩) h.statement h.source
    rw [hstart] at hkeeps
    rw [hleave]
    exact (hu.withEngine hl hkeeps.1 hkeeps.2).leaveCursor _

/-! ## Iterators one after another -/

/-- Iterators one after another: before each of them the session changes, then it is asked some
times and dropped. Each gives the session that it met and its answers. -/
def visits : QueryRows → List ((Session → Session) × Nat) → Session →
    List (Session × List (Option (Except Error Record)))
  | _, [], _ => []
  | rows, pass :: passes, s =>
    let asked := visit rows pass.2 (pass.1 s)
    (pass.1 s, asked.1.1) :: visits asked.1.2 passes asked.2

/-- Each iterator over a stream starts anew, whatever was consumed and changed before. -/
theorem Streams.visits_apply {stream : Stream} {c : Command} {select : Sql.Select}
    {program : Program} (h : Streams q m ticks t stream c select program)
    (passes : List ((Session → Session) × Nat))
    (u : Session) : List.Forall₂ (fun pass met => met.1.Finds q m ticks t →
      ∃ items, met.1.HandsOut q items ∧ met.2 = answers items pass.2) passes
        (visits (.stream stream) passes u) := by
  induction passes generalizing u with
  | nil => exact .nil
  | cons pass passes ih =>
    rw [visits, visit_stream]
    refine .cons (fun hmet => ?_) (ih _)
    obtain ⟨items, v, hitems, hvisit, -⟩ := h.visit_apply hmet pass.2
    rw [hvisit]
    exact ⟨items, hitems, rfl⟩

theorem answers_append (items : List (Except Error Record)) (n k : Nat) :
    answers items n ++ answers (items.drop n) k = answers items (n + k) := by
  unfold answers
  rw [List.range_add, List.map_append, List.map_map]
  refine congrArg _ (List.map_congr_left fun i _ => ?_)
  rw [List.getElem?_drop]
  rfl

theorem visits_ahead (records : List Record) (passes : List ((Session → Session) × Nat))
    (u : Session) :
    (visits (.ahead records) passes u).flatMap Prod.snd =
      answers (records.map .ok) (passes.map Prod.snd).sum := by
  induction passes generalizing records u with
  | nil => rfl
  | cons pass passes ih =>
    have hvisit := visit_eq (calls_ahead records pass.2 .fresh (pass.1 u))
    rw [visits, hvisit, List.flatMap_cons, ih, List.map_drop, answers_append]
    rfl

/-! ## Rows and records -/

theorem toList_of_queryRows_error {e : Error} (h : queryRows q s = (.error e, s')) :
    toList q s = (.error e, s') := by
  unfold queryRows at h
  unfold toList
  rcases of_bind_error h with h | ⟨c, u, hc, h⟩
  · exact bind_error h
  · rw [bind_ok hc]
    split at h
    · -- a stream is made ready as the statement of the records is
      rcases of_bind_error h with h | ⟨stream, v, -, h⟩
      · unfold records
        rcases of_bind_error h with h | ⟨m, v, hm, h⟩
        · exact bind_error h
        · rw [bind_ok hm]
          rcases of_bind_error h with h | ⟨p, w, -, h⟩
          · exact bind_error h
          · cases h
      · cases h
    · rcases of_bind_error h with h | ⟨records, v, -, h⟩
      · exact h
      · cases h

theorem records_of_queryRows (hq : q.state.deferred = false) {rows : QueryRows}
    (h : queryRows q s = (.ok rows, s')) :
    ∃ records, rows = .ahead records ∧ toList q s = (.ok records, s') := by
  unfold queryRows at h
  obtain ⟨c, u, hc, h⟩ := of_bind_ok h
  rw [if_neg (by rw [hq]; exact Bool.false_ne_true)] at h
  obtain ⟨records, v, hrecords, h⟩ := of_bind_ok h
  cases h
  refine ⟨records, rfl, ?_⟩
  unfold toList
  rw [bind_ok hc]
  exact hrecords

/-- **The rows of a query agree with its records.** If they cannot be had, neither can the records.
Rows that are read ahead are the records, each handed out once over all iterators together.
Otherwise each iterator starts anew: in any session where the table is defined as it was, it hands
out what the records of the query are there, up to the first row that is none. -/
theorem rows_streamed (q : Query) (s : Session) :
    (∀ e s', queryRows q s = (.error e, s') → toList q s = (.error e, s')) ∧
    (q.state.deferred = false → ∀ rows s', queryRows q s = (.ok rows, s') →
      ∃ records, toList q s = (.ok records, s') ∧ ∀ passes u,
        (visits rows passes u).flatMap Prod.snd = answers (records.map .ok)
        (passes.map Prod.snd).sum) ∧
    (q.state.deferred = true → ∀ rows s', queryRows q s = (.ok rows, s') →
      ∃ m ticks t, s'.Finds q m ticks t ∧ (s.Knows q → s'.Knows q) ∧
        (∀ u n, u.FindsCurrent q m ticks t → (visit rows n u).2.FindsCurrent q m ticks t) ∧
        ∀ passes u, List.Forall₂ (fun pass met => met.1.Finds q m ticks t →
          ∃ items, met.1.HandsOut q items ∧ met.2 = answers items pass.2) passes
            (visits rows passes u)) := by
  refine ⟨fun e s' => toList_of_queryRows_error, fun hq rows s' h => ?_, fun hq rows s' h => ?_⟩
  · obtain ⟨records, rfl, hrecords⟩ := records_of_queryRows hq h
    exact ⟨records, hrecords, visits_ahead records⟩
  · obtain ⟨stream, m, t, c, select, program, rfl, hstream, hs', hknows⟩ :=
      streams_of_queryRows hq h
    refine ⟨m, _, t, hs', hknows, fun u n hu => ?_, hstream.visits_apply⟩
    obtain ⟨items, v, -, hvisit, hv⟩ := hstream.visit_apply hu.toFinds n
    rw [hvisit]
    exact hv hu

/-- An iterator over two notes is dropped after the first. Then another one removes this note, and
the next iterator starts with the other. -/
theorem rows_streamed_notebook :
    let q : Query := { mapping := notes, state := { deferred := true } }
    let s := notebook [⟨1, [.null, .text "a"]⟩, ⟨2, [.null, .text "b"]⟩]
    let remove (u : Session) : Session := { u with
      storage.content.tables :=
        u.storage.content.tables.map fun t => { t with rows := t.rows.drop 1 } }
    ∃ rows s', queryRows q s = (.ok rows, s') ∧
    (visits rows [(id, 1), (remove, 2)] s').map Prod.snd =
      [[some (.ok ⟨"Note", [.int 1, .text "a"]⟩)], [some (.ok ⟨"Note", [.int 2, .text "b"]⟩), none]] := by
  intro q s remove
  let rows := (queryRows q s).1.toOption.get (by decide +kernel)
  let s' := (queryRows q s).2
  have hrows : queryRows q s = (.ok rows, s') := ends_of_toOption (Option.some_get _).symm
  have hfirst : (toList q s').1 =
      .ok [⟨"Note", [.int 1, .text "a"]⟩, ⟨"Note", [.int 2, .text "b"]⟩] :=
    ok_of_toOption (by decide +kernel)
  have hsecond : (toList q (remove (visit rows 1 s').2)).1 = .ok [⟨"Note", [.int 2, .text "b"]⟩] :=
    ok_of_toOption (by decide +kernel)
  clear_value rows s'
  obtain ⟨m, ticks, t, hs', hknows, hkeeps, hpasses⟩ := (rows_streamed q s).2.2 rfl rows s' hrows
  have hu := hkeeps s' 1 ⟨hs', hknows (by rintro link ⟨⟩; exact nofun)⟩
  have hremoved : (remove (visit rows 1 s').2).Finds q m ticks t := by
    obtain ⟨link, hl, -⟩ := hu.isOpen
    refine (hu.withStorage hl ?_).toFinds
    unfold Engine.content
    cases link.working with
    | some d => rfl
    | none =>
      simp only [Option.getD_none]
      unfold Database.bare
      rw [List.map_map]
      rfl
  have hmet := hpasses [(id, 1), (remove, 2)] s'
  rw [visits, visits, visits] at hmet
  obtain ⟨hmet, hrest⟩ := List.forall₂_cons.mp hmet
  obtain ⟨hmet', -⟩ := List.forall₂_cons.mp hrest
  obtain ⟨items, hitems, hanswers⟩ := hmet hs'
  obtain ⟨items', hitems', hanswers'⟩ := hmet' hremoved
  obtain rfl := hitems.whole _ hfirst
  obtain rfl := hitems'.whole _ hsecond
  refine ⟨rows, s', hrows, ?_⟩
  rw [visits, visits, visits, List.map_cons, List.map_cons, List.map_nil]
  exact congrArg₂ (fun x y => [x, y]) hanswers hanswers'

end Session

end RecordMapper
