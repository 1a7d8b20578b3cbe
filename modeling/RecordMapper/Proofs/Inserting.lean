import RecordMapper.Proofs.Changing

/-!
# Inserts that fail

An insert has steps before its statement is executed and one after it: the number that the engine
gave is written into the key.

1. `Session.storing` is an insert up to the execution of its statement, and `insertWith_eq` goes on
   from it.
2. `Session.storing_changes`: up to there a failure leaves the rows as they were.
-/

namespace RecordMapper

namespace Action

variable {σ τ α β : Type}

theorem first_apply (x : Action σ α) (s : σ) (t : τ) :
    x.first (s, t) = ((x s).1, (x s).2, t) := (rfl)

theorem mapError_apply (f : Error → Error) (x : Action σ α) (s : σ) :
    x.mapError f s = ((x s).1.mapError f, (x s).2) := (rfl)

theorem ok_bind (a : α) (f : α → Action σ β) (s : σ) :
    (Action.ofExcept (.ok a) >>= f) s = f a s := (rfl)

theorem error_bind (e : Error) (f : α → Action σ β) (s : σ) :
    (Action.ofExcept (.error e) >>= f) s = (.error e, s) := (rfl)

end Action

/-- What a kept command executes stores rows. -/
theorem InsertCommand.stores (c : InsertCommand) : Sql.Stores c.text := by
  obtain ⟨m, hm⟩ := c.made
  rw [hm]
  exact m.stores_insertStatement c.mode

namespace Session

open RecordMapper.Action

/-! ## The parts of an insert -/

/-- An insert up to the execution of its statement: the mapping and the number of changed rows. -/
def storing (d : Declaration) (mode : InsertMode) : StoringAction Record (Mapping × Int) := do
  let (m, command, values) ← prepareInsert d mode
  let (_, r) ← MonadState.get
  let changed ← ((executeText command.text values).mapError (m.attach r)).first
  return (m, changed)

theorem insertWith_eq (d : Declaration) (mode : InsertMode) : insertWith d mode = (do
    let (m, changed) ← storing d mode
    if 0 < changed then writeBackKey m
    return changed) := by
  unfold insertWith storing
  simp only [bind_assoc, pure_bind]

variable {alone : Bool} {s t : Session}

/-- Two sessions with the same link to the same storage. -/
structure Quiet (s t : Session) : Prop where
  storage : t.storage = s.storage
  link : t.connection.link = s.connection.link
  depth : t.depth = s.depth

theorem Quiet.nesting (h : Quiet s t) : t.nesting = s.nesting := by
  unfold Session.nesting
  rw [h.storage, h.link]

theorem Quiet.stays (h : Quiet s t) (hs : s.Usable alone) : Stays alone s t := by
  refine ⟨?_, h.depth, by rw [h.nesting], by rw [h.nesting]⟩
  obtain ⟨link, hl, hsane, ha⟩ := hs
  exact ⟨link, h.link.trans hl, by rwa [h.storage], by rwa [h.storage]⟩

theorem changes_bind {ρ α β : Type} {x : StoringAction ρ α} {f : α → StoringAction ρ β} {r : ρ}
    (hs : s.Usable alone) (hx : Quiet s (x (s, r)).2.1)
    (hf : ∀ a t r', x (s, r) = (.ok a, t, r') → t.Usable alone →
      Changes alone t (f a (t, r')).1 (f a (t, r')).2.1) :
    Changes alone s ((x >>= f) (s, r)).1 ((x >>= f) (s, r)).2.1 := by
  have hstays := hx.stays hs
  rcases h : x (s, r) with ⟨e | a, t, r'⟩
  · rw [bind_error h]
    rw [h] at hx hstays
    exact .failed hstays (congrArg Nesting.rows hx.nesting)
  · rw [bind_ok h]
    rw [h] at hx hstays
    exact (hf a t r' h hstays.usable).of_stays hstays hx.nesting

theorem Quiet.trans {u : Session} (h : Quiet s t) (h' : Quiet t u) : Quiet s u :=
  ⟨h'.storage.trans h.storage, h'.link.trans h.link, h'.depth.trans h.depth⟩

theorem quiet_bind {ρ α β : Type} {x : StoringAction ρ α} {f : α → StoringAction ρ β} {r : ρ}
    (hx : Quiet s (x (s, r)).2.1) (hf : ∀ a t r', Quiet t (f a (t, r')).2.1) :
    Quiet s ((x >>= f) (s, r)).2.1 := by
  rcases h : x (s, r) with ⟨e | a, t, r'⟩
  · rw [bind_error h]
    rw [h] at hx
    exact hx
  · rw [bind_ok h]
    rw [h] at hx
    exact hx.trans (hf a t r')

theorem quiet_mapping (d : Declaration) (s : Session) : Quiet s (mapping d s).2 := by
  show Quiet s (mappingWith s.connection.settings.conventions d s).2
  unfold mappingWith
  rcases s.connection.catalog.request s.connection.settings.conventions d with ⟨m, catalog⟩
  exact ⟨rfl, rfl, rfl⟩

theorem typeName_assign {m : Mapping} {c : Column} {r r' : Record} {v : Value}
    (h : m.assign c r v = .ok r') : r'.typeName = r.typeName := by
  unfold Mapping.assign at h
  split at h
  · split at h
    · cases h
      rfl
    · cases h
  · cases h

/-- An identifier only takes from the supply, and the record keeps its type. -/
theorem assignIdentifier_apply (m : Mapping) (s : Session) (r : Record) :
    (assignIdentifier m (s, r)).2.1 = { s with supply := (assignIdentifier m (s, r)).2.1.supply } ∧
      (assignIdentifier m (s, r)).2.2.typeName = r.typeName := by
  unfold assignIdentifier
  cases m.key?.filter Column.autoIdentifier with
  | none => exact ⟨rfl, rfl⟩
  | some key =>
    simp only
    rw [get_bind]
    cases m.valueOf key r with
    | error e =>
      rw [error_bind]
      exact ⟨rfl, rfl⟩
    | ok v =>
      rw [ok_bind]
      split
      · rw [bind_ok (first_apply freshIdentifier s r)]
        cases ha : m.assign key r (.uuid (Uuid.random (s.supply.seeds s.supply.identifiers))) with
        | error e =>
          rw [error_bind]
          exact ⟨rfl, rfl⟩
        | ok r' =>
          rw [ok_bind]
          exact ⟨rfl, typeName_assign ha⟩
      · exact ⟨rfl, rfl⟩

/-- What an insert executes has the mapping of the type, its columns' values, and a command that was
asked for last. -/
theorem of_prepareInsert {d : Declaration} {mode : InsertMode} {r r' : Record} {m : Mapping}
    {command : InsertCommand} {values : List Value}
    (h : prepareInsert d mode (s, r) = (.ok (m, command, values), t, r')) :
    (mapping d s).1 = .ok m ∧ r'.typeName = r.typeName ∧
      m.valuesOf (m.boundColumns mode) r' = .ok values ∧
      ∃ supply, insertCommand m mode { (mapping d s).2 with supply } = (.ok command, t) := by
  unfold prepareInsert at h
  obtain ⟨m', ⟨s₁, r₁⟩, hm, h⟩ := of_bind_ok h
  obtain ⟨u, ⟨s₂, r₂⟩, ha, h⟩ := of_bind_ok h
  rw [get_bind] at h
  obtain ⟨values', ⟨s₃, r₃⟩, hv, h⟩ := of_bind_ok h
  obtain ⟨command', ⟨s₄, r₄⟩, hc, h⟩ := of_bind_ok h
  cases h
  rw [first_apply] at hm hc
  obtain ⟨hmapping, hx⟩ := Prod.mk.inj hm
  obtain ⟨rfl, rfl⟩ := Prod.mk.inj hx
  obtain ⟨hvalues, hx⟩ := Prod.mk.inj hv
  obtain ⟨rfl, rfl⟩ := Prod.mk.inj hx
  obtain ⟨hcommand, hx⟩ := Prod.mk.inj hc
  obtain ⟨rfl, rfl⟩ := Prod.mk.inj hx
  obtain ⟨hs₂, htype⟩ := assignIdentifier_apply m (mapping d s).2 r
  rw [ha] at hs₂ htype
  dsimp only at hs₂
  refine ⟨hmapping, htype, hvalues, s₂.supply, ?_⟩
  rw [← hs₂]
  exact Prod.ext hcommand rfl

/-- Nothing that an insert does before its statement is executed comes to the engine. -/
theorem quiet_prepareInsert (d : Declaration) (mode : InsertMode) (s : Session) (r : Record) :
    Quiet s (prepareInsert d mode (s, r)).2.1 := by
  unfold prepareInsert
  refine quiet_bind (quiet_mapping d s) fun m s₁ r₁ => ?_
  refine quiet_bind ?_ fun _ s₂ r₂ => ?_
  · rw [(assignIdentifier_apply m s₁ r₁).1]
    exact ⟨rfl, rfl, rfl⟩
  · rw [get_bind]
    refine quiet_bind ⟨rfl, rfl, rfl⟩ fun values s₃ r₃ => ?_
    exact quiet_bind ⟨rfl, rfl, rfl⟩ fun _ _ _ => ⟨rfl, rfl, rfl⟩

/-- Up to the execution of its statement an insert that fails changes nothing; where a table is
full, the engine may have ended the transaction. -/
theorem storing_changes (hs : s.Usable alone) (d : Declaration) (mode : InsertMode) (r : Record) :
    Changes alone s (storing d mode (s, r)).1 (storing d mode (s, r)).2.1 := by
  unfold storing
  refine changes_bind hs (quiet_prepareInsert d mode s r) fun x s₁ r₁ _ hs₁ => ?_
  dsimp only
  rw [get_bind]
  have hc := executeText_changes x.2.1.stores hs₁ x.2.2
  have hx := first_apply ((executeText x.2.1.text x.2.2).mapError (x.1.attach r₁)) s₁ r₁
  rw [mapError_apply] at hx
  generalize executeText x.2.1.text x.2.2 s₁ = executed at hc hx
  obtain ⟨e | n, t⟩ := executed
  · rw [bind_error hx]
    cases hc with
    | failed ht hr => exact .failed ht hr
    | ended ht hd hf => exact .ended ht hd hf
  · rw [bind_ok hx]
    cases hc with
    | done ht => exact .done ht

/-! ## Writing back -/

/-- What is written into the key is the number of the last row; the session stays as it is. -/
theorem writeBackKey_apply (m : Mapping) (s : Session) (r : Record) :
    (writeBackKey m (s, r) = (.ok (), s, (writeBackKey m (s, r)).2.2)) ∨
      ∃ key e, m.key? = some key ∧ key.autoIncrement = true ∧
        m.assign key r (.int (Int64.ofInt s.lastRowid)) = .error e ∧
        writeBackKey m (s, r) = (.error e, s, r) := by
  unfold writeBackKey
  cases hauto : m.hasAutoIncrementKey with
  | false => exact .inl rfl
  | true =>
    rw [if_pos rfl]
    unfold Mapping.hasAutoIncrementKey at hauto
    cases hkey : m.key? with
    | none =>
      rw [hkey] at hauto
      cases hauto
    | some key =>
      rw [hkey] at hauto
      simp only
      rw [get_bind]
      cases ha : m.assign key r (.int (Int64.ofInt s.lastRowid)) with
      | error e =>
        exact .inr ⟨key, e, rfl, hauto, ha, error_bind e _ _⟩
      | ok r' =>
        rw [ok_bind]
        exact .inl rfl

/-- An insert whose statement was executed fails only where the number of its row cannot be written
into the key; the row stays stored then. -/
theorem insertWith_of_stored {d : Declaration} {mode : InsertMode} {r r₁ : Record} {m : Mapping}
    {n : Int} (h : storing d mode (s, r) = (.ok (m, n), t, r₁)) :
    (insertWith d mode (s, r)).2.1 = t ∧ ((insertWith d mode (s, r)).1 = .ok n ∨
      ∃ key e, 0 < n ∧ m.key? = some key ∧ key.autoIncrement = true ∧
        m.assign key r₁ (.int (Int64.ofInt t.lastRowid)) = .error e ∧
        (insertWith d mode (s, r)).1 = .error e) := by
  rw [insertWith_eq, bind_ok h]
  simp only
  by_cases hn : 0 < n
  · rw [if_pos hn]
    rcases writeBackKey_apply m t r₁ with hw | ⟨key, e, hk, hauto, ha, hw⟩
    · rw [bind_ok hw]
      exact ⟨rfl, .inl rfl⟩
    · rw [bind_error hw]
      exact ⟨rfl, .inr ⟨key, e, hn, hk, hauto, ha, rfl⟩⟩
  · rw [if_neg hn]
    exact ⟨rfl, .inl rfl⟩

theorem storing_ok {d : Declaration} {mode : InsertMode} {r r₁ : Record} {m : Mapping} {n : Int}
    (h : storing d mode (s, r) = (.ok (m, n), t, r₁)) :
    (mapping d s).1 = .ok m ∧ r₁.typeName = r.typeName := by
  unfold storing at h
  obtain ⟨⟨m', command, values⟩, ⟨s₁, r'⟩, hx, h⟩ := of_bind_ok h
  dsimp only at h
  rw [get_bind] at h
  obtain ⟨n', ⟨s₂, r₂⟩, he, h⟩ := of_bind_ok h
  cases h
  obtain ⟨hm, htype, -⟩ := of_prepareInsert hx
  rw [first_apply] at he
  obtain ⟨-, he⟩ := Prod.mk.inj he
  exact ⟨hm, (Prod.mk.inj he).2 ▸ htype⟩

/-- A number that a field refuses is too great for it: fields of 64 bits take all. -/
theorem narrow_of_take_error {t : FieldType} {i : Int64} {fault : TypeFault}
    (h : t.take (.int i) = .error fault) : t.dataType ≠ .int64 := by
  obtain ⟨content, optional⟩ := t
  intro hwide
  have htake : FieldType.take ⟨content, optional⟩ (.int i) = content.take (.int i) := by
    cases optional <;> rfl
  cases content with
  | enumeration e => cases hwide
  | plain type =>
    obtain rfl : type = .int64 := hwide
    have hrange : DataType.int64.range.1 ≤ i.toInt ∧ i.toInt ≤ DataType.int64.range.2 :=
      ⟨i.le_toInt, i.toInt_le⟩
    rw [htake, show Content.take (.plain .int64) (.int i) = Value.inRange i .int64 from rfl,
      Value.inRange, if_pos hrange] at h
    cases h

theorem take_of_assign_error {m : Mapping} {c : Column} {r : Record} {v : Value} {e : Error}
    (hr : r.typeName = m.typeName) (h : m.assign c r v = .error e) :
    ∃ fault, c.type.take v = .error fault ∧ e = .type fault := by
  unfold Mapping.assign at h
  rw [if_pos hr] at h
  split at h
  · cases h
  · rename_i fault hf
    cases h
    exact ⟨fault, hf, rfl⟩

/-- **What an insert that fails leaves.** The rows are as they were, unless the table was full and
the engine has ended the transaction, or the statement was executed: then the number that the engine
gave to the row is none that the key can hold, and the row stays stored. -/
theorem rows_of_insertWith_error (hs : s.Usable alone) {d : Declaration} {mode : InsertMode}
    {r r' : Record} {e : Error} (hr : ∀ m, (mapping d s).1 = .ok m → r.typeName = m.typeName)
    (h : insertWith d mode (s, r) = (.error e, t, r')) :
    (Stays alone s t ∧ t.nesting.rows = s.nesting.rows) ∨
      (e = .ofFault .full ∧ s.nesting.follow .rollback = some t.nesting) ∨
      ∃ m n r₁ key fault, storing d mode (s, r) = (.ok (m, n), t, r₁) ∧ 0 < n ∧ m.key? = some key ∧
        key.autoIncrement = true ∧ key.dataType ≠ .int64 ∧
        key.type.take (.int (Int64.ofInt t.lastRowid)) = .error fault ∧ e = .type fault := by
  have hc := storing_changes hs d mode r
  rcases hx : storing d mode (s, r) with ⟨e' | ⟨m, n⟩, u, r₁⟩
  · rw [insertWith_eq, bind_error hx] at h
    cases h
    rw [hx] at hc
    cases hc with
    | failed ht hrows => exact .inl ⟨ht, hrows⟩
    | ended _ _ hf => exact .inr (.inl ⟨rfl, hf⟩)
  · obtain ⟨hu, hok | ⟨key, e', hn, hk, hauto, ha, he⟩⟩ := insertWith_of_stored hx
    · rw [h] at hok
      cases hok
    · rw [h] at hu he
      obtain rfl : t = u := hu
      cases he
      obtain ⟨hm, htype⟩ := storing_ok hx
      obtain ⟨fault, hf, rfl⟩ := take_of_assign_error (htype.trans (hr m hm)) ha
      exact .inr (.inr ⟨m, n, r₁, key, fault, rfl, hn, hk, hauto, narrow_of_take_error hf, hf, rfl⟩)

/-- A record type of nothing but a small number that counts up. -/
def counter : Declaration :=
  ⟨"Counter", "Counter", false,
    [⟨"Id", none, ⟨.plain .int8, false⟩, [.primaryKey, .autoIncrement], .int 0⟩], []⟩

/-- A session alone on a storage with the greatest counter that its field can hold. -/
def counted : Session :=
  { connection := { settings := {}, link := some { id := 0 } }
    supply := default
    storage.content := {
      tables := [⟨"Counter", [⟨"Id", "integer", .integer, true, .binary, none⟩], some 0, true, false, [0],
        [], [⟨127, [.integer 127]⟩]⟩]
      sequences := [("Counter", 127)] } }

theorem usable_counted : counted.Usable true := ⟨_, rfl, sane_new _, fun _ => rfl⟩

def counters (s : Session) : Option Nat :=
  (s.nesting.rows.table? "Counter").map fun t => t.rows.length

def oneMore : Except Error Int × Session × Record :=
  insertWith counter .plain (counted, ⟨"Counter", [.int 0]⟩)

theorem counters_oneMore : counters oneMore.2.1 = some 2 := by decide +kernel

theorem oneMore_fails : ∃ e, oneMore.1 = .error e := by
  have hfails : oneMore.1.toOption = none := by decide +kernel
  cases hx : oneMore.1 with
  | error e => exact ⟨e, rfl⟩
  | ok n =>
    rw [hx] at hfails
    cases hfails

theorem mapping_counter : ∃ m, (mapping counter counted).1 = .ok m ∧ "Counter" = m.typeName := by
  have hname : (mapping counter counted).1.toOption.map Mapping.typeName = some "Counter" := by
    decide +kernel
  cases hm : (mapping counter counted).1 with
  | error e =>
    rw [hm] at hname
    cases hname
  | ok m =>
    rw [hm] at hname
    exact ⟨m, rfl, (Option.some.inj hname).symm⟩

/-- The counter after the greatest is stored, although the insert fails. -/
theorem rows_of_insertWith_error_counted :
    counted.Usable true ∧ counters counted = some 1 ∧ counters oneMore.2.1 = some 2 ∧
      ∃ m n r₁ key fault, storing counter .plain (counted, ⟨"Counter", [.int 0]⟩) =
        (.ok (m, n), oneMore.2.1, r₁) ∧ 0 < n ∧ m.key? = some key ∧
        key.type.take (.int (Int64.ofInt oneMore.2.1.lastRowid)) = .error fault ∧
        oneMore.1 = .error (.type fault) := by
  obtain ⟨m', hm', htype⟩ := mapping_counter
  obtain ⟨e, he⟩ := oneMore_fails
  refine ⟨usable_counted, rfl, counters_oneMore, ?_⟩
  have hfails : insertWith counter .plain (counted, ⟨"Counter", [.int 0]⟩) =
    (.error e, oneMore.2.1, oneMore.2.2) := Prod.ext he rfl
  rcases rows_of_insertWith_error usable_counted
      (fun m hm => Except.ok.inj (hm'.symm.trans hm) ▸ htype) hfails with
    ⟨-, hrows⟩ | ⟨-, hf⟩ | ⟨m, n, r₁, key, fault, hs, hn, hk, -, -, ht, hef⟩
  · have hone : counters oneMore.2.1 = counters counted := by
      unfold counters
      rw [← hrows]
    rw [counters_oneMore] at hone
    cases hone
  · cases hf
  · exact ⟨m, n, r₁, key, fault, hs, hn, hk, ht, he.trans (congrArg _ hef)⟩

/-- An insert that fails does not always leave the rows as they were. -/
theorem not_always_rows_of_insertWith_error : ¬ ∀ {s t : Session} {d : Declaration}
    {mode : InsertMode} {m : Mapping} {r r' : Record} {e : Error}, s.Usable true →
    (mapping d s).1 = .ok m → r.typeName = m.typeName →
    insertWith d mode (s, r) = (.error e, t, r') →
    t.nesting.rows = s.nesting.rows := by
  intro hall
  obtain ⟨m, hm, htype⟩ := mapping_counter
  obtain ⟨e, he⟩ := oneMore_fails
  have hfails : insertWith counter .plain (counted, ⟨"Counter", [.int 0]⟩) =
    (.error e, oneMore.2.1, oneMore.2.2) := Prod.ext he rfl
  have hrows := hall usable_counted hm htype hfails
  have hone : counters oneMore.2.1 = counters counted := by
    unfold counters
    rw [← hrows]
  rw [counters_oneMore] at hone
  cases hone

end Session

end RecordMapper
