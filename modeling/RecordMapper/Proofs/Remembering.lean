import RecordMapper.Proofs.InsertTexts
import RecordMapper.Proofs.Inserting
import RecordMapper.Proofs.Mappings
import RecordMapper.Session.World

/-!
# What a connection remembers

A connection keeps the mappings that it has built, and for each record type the command of its last
insert. What it keeps is what would be made anew.

1. `RecordTypes.Decides`: the mapping of a type is that of the first request that succeeded.
2. `Call.agrees_after`: after any calls the catalog holds what the requests decide, and the kept
   inserts have the text of their mapping and mode.
3. `Executes`: an insert executes the text of its mapping and mode, and each of its marks gets the
   value of the column at its place.
-/

namespace RecordMapper

/-! ## Steps that leave something as it is -/

namespace Action

variable {σ τ α β : Type}

/-- A step after which a part of the state is as it was, whether it fails or not. -/
def Conserves (part : σ → τ) (x : Action σ α) : Prop := ∀ s, part (x s).2 = part s

variable {part : σ → τ}

theorem part_bind (part : σ → τ) {x : Action σ α} {f : α → Action σ β}
    (hf : ∀ a, Conserves part (f a)) (s : σ) :
    part ((x >>= f) s).2 = part (x s).2 := by
  rcases hx : x s with ⟨e | a, t⟩
  · rw [bind_error hx]
  · rw [bind_ok hx, hf a t]

theorem Conserves.bind {x : Action σ α} {f : α → Action σ β} (hx : Conserves part x)
    (hf : ∀ a, Conserves part (f a)) : Conserves part (x >>= f) :=
  fun s => (part_bind part hf s).trans (hx s)

theorem conserves_ofExcept (x : Except Error α) : Conserves part (.ofExcept x : Action σ α) :=
  fun _ => rfl

theorem conserves_pure (a : α) : Conserves part (pure a : Action σ α) := fun _ => rfl

theorem conserves_get : Conserves part (get : Action σ σ) := fun _ => rfl

theorem conserves_forIn {γ : Type} {f : γ → β → Action σ (ForInStep β)}
    (hf : ∀ c b, Conserves part (f c b)) (cs : List γ) (b : β) : Conserves part (forIn cs b f) := by
  induction cs generalizing b with
  | nil => exact conserves_pure b
  | cons c rest ih =>
    rw [List.forIn_cons]
    refine (hf c b).bind fun step => ?_
    cases step with
    | done b => exact conserves_pure b
    | yield b => exact ih b

end Action

/-! ## The memory of a connection -/

/-- What a connection keeps in order not to make it again. -/
structure Memory where
  catalog : Catalog
  insertCommands : InsertCommands

namespace Session

open RecordMapper.Action

def memory (s : Session) : Memory := ⟨s.connection.catalog, s.connection.insertCommands⟩

theorem conserves_engine : Conserves memory engine := by
  intro s
  unfold engine
  split
  · rfl
  · rfl

theorem conserves_withEngine (e : Engine) :
    Conserves memory (modify fun s => s.withEngine e : SessionAction Unit) := fun _ => rfl

theorem conserves_prepare (text : String) : Conserves memory (prepare text) := by
  have hlog : Conserves memory
      (modify fun s => { s with log := text :: s.log } : SessionAction Unit) := fun _ => rfl
  refine hlog.bind fun _ => conserves_engine.bind fun e => ?_
  rcases e.prepare text with ⟨prepared, e⟩
  exact (conserves_withEngine e).bind fun _ => conserves_ofExcept _

theorem conserves_ready (c : Command) : Conserves memory (ready c) :=
  (conserves_prepare c.text).bind fun _ => conserves_get.bind fun _ => conserves_ofExcept _

theorem conserves_step (p : Prepared) : Conserves memory (step p) := by
  refine conserves_engine.bind fun e => ?_
  rcases e.run p with ⟨rows, e⟩
  exact (conserves_withEngine e).bind fun _ => conserves_pure _

theorem conserves_executeText (text : String) (values : List Value) :
    Conserves memory (executeText text values) :=
  (conserves_ready _).bind fun _ => (conserves_step _).bind fun _ =>
    (conserves_ofExcept _).bind fun _ => conserves_get.bind fun _ => conserves_pure _

theorem conserves_tableInfo (table : String) : Conserves memory (tableInfo table) := by
  have hrows : ∀ c, Conserves memory (rows c) := fun c => (conserves_ready c).bind fun _ =>
    (conserves_step _).bind fun _ => conserves_ofExcept _
  exact (hrows _).bind fun _ => conserves_ofExcept _

theorem conserves_migrate (m : Mapping) (present : List ColumnDescription) :
    Conserves memory (migrate m present) := by
  refine conserves_get.bind fun s => (conserves_forIn (fun c _ => ?_) _ _).bind fun _ =>
    conserves_pure _
  exact (conserves_ofExcept _).bind fun text => (conserves_executeText text []).bind fun _ =>
    conserves_pure _

theorem memory_createTableWith (conventions : Conventions) (d : Declaration) (s : Session) :
    (createTableWith conventions d s).2.memory = (mappingWith conventions d s).2.memory := by
  refine part_bind memory (fun m => ?_) s
  refine (conserves_ofExcept _).bind fun plans => conserves_get.bind fun s => ?_
  refine (conserves_tableInfo m.table).bind fun present => ?_
  extract_lets indices
  have hindices : ∀ creation, Conserves memory (indices creation) := by
    have hcreated : Conserves memory (modify fun s =>
        { s with connection := { s.connection with created := d.typeName :: s.connection.created } } :
        SessionAction Unit) := fun _ => rfl
    intro creation
    refine (conserves_forIn (fun plan _ => ?_) plans _).bind fun _ => hcreated.bind fun _ =>
      conserves_pure creation
    exact (conserves_executeText _ []).bind fun _ => conserves_pure _
  split
  · exact (conserves_ofExcept _).bind fun text => (conserves_executeText text []).bind fun _ =>
      (conserves_pure _).bind hindices
  · exact (conserves_migrate m present).bind fun _ => (conserves_pure _).bind hindices

theorem memory_dropTable (d : Declaration) (s : Session) :
    (dropTable d s).2.memory = (mapping d s).2.memory ∨
      (dropTable d s).2.memory = { (mapping d s).2.memory with
        insertCommands := (mapping d s).2.memory.insertCommands.forget d.typeName } := by
  unfold dropTable
  rcases hm : mapping d s with ⟨e | m, t⟩
  · rw [bind_error hm]
    exact .inl rfl
  · rw [bind_ok hm]
    have hmemory := conserves_executeText ("drop table if exists " ++ quoteIdentifier m.table) [] t
    rcases hx : executeText ("drop table if exists " ++ quoteIdentifier m.table)
      [] t with ⟨e | n, u⟩
    · rw [bind_error hx]
      rw [hx] at hmemory
      exact .inl hmemory
    · rw [bind_ok hx, modify_bind]
      rw [hx] at hmemory
      dsimp only at hmemory ⊢
      rw [← hmemory]
      exact .inr rfl

/-- What an insert does before its statement is executed: after the request for the mapping it takes
an identifier, and asks for its command if it comes so far. -/
theorem prepareInsert_memory (d : Declaration) (mode : InsertMode) (s : Session) (r : Record) :
    (prepareInsert d mode (s, r)).2.1.log = s.log ∧
      ((prepareInsert d mode (s, r)).2.1.memory = (mapping d s).2.memory ∨
        ∃ m, (mapping d s).1 = .ok m ∧ (prepareInsert d mode (s, r)).2.1.memory =
          { (mapping d s).2.memory with
            insertCommands := ((mapping d s).2.memory.insertCommands.request m mode).2 }) := by
  have hlog : (mapping d s).2.log = s.log := rfl
  unfold prepareInsert
  have hm := first_apply (mapping d) s r
  rcases hx : (mapping d s).1 with e | m
  · rw [hx] at hm
    rw [bind_error hm]
    exact ⟨hlog, .inl rfl⟩
  · rw [hx] at hm
    rw [bind_ok hm]
    obtain ⟨hassign, -⟩ := assignIdentifier_apply m (mapping d s).2 r
    rcases ha : assignIdentifier m ((mapping d s).2, r) with ⟨e | u, t, r'⟩
    · rw [ha] at hassign
      rw [bind_error ha, hassign]
      exact ⟨hlog, .inl rfl⟩
    · rw [ha] at hassign
      rw [bind_ok ha, get_bind]
      dsimp only at hassign ⊢
      rw [hassign]
      cases m.valuesOf (m.boundColumns mode) r' with
      | error e =>
        rw [error_bind]
        exact ⟨hlog, .inl rfl⟩
      | ok values =>
        rw [ok_bind]
        exact ⟨hlog, .inr ⟨m, rfl, rfl⟩⟩

/-- An insert fails before its statement is executed, or the session is left by the statement. -/
theorem insertWith_cases (d : Declaration) (mode : InsertMode) (s : Session) (r : Record) :
    (∃ e t r', prepareInsert d mode (s, r) = (.error e, t, r') ∧
      insertWith d mode (s, r) = (.error e, t, r')) ∨
    ∃ m command values t r', prepareInsert d mode (s, r) = (.ok (m, command, values), t, r') ∧
      (insertWith d mode (s, r)).2.1 = (executeText command.text values t).2 := by
  rcases hx : prepareInsert d mode (s, r) with ⟨e | ⟨m, command, values⟩, t, r'⟩
  · exact .inl ⟨e, t, r', rfl, bind_error hx⟩
  · refine .inr ⟨m, command, values, t, r', rfl, ?_⟩
    have hkey : Conserves Prod.fst (writeBackKey m) := by
      rintro ⟨t, r⟩
      rcases writeBackKey_apply m t r with h | ⟨_, _, -, -, -, h⟩
      · rw [h]
      · rw [h]
    unfold insertWith
    rw [bind_ok hx]
    dsimp only
    rw [get_bind]
    refine part_bind Prod.fst (fun changed => ?_) (t, r')
    split
    · exact hkey.bind fun _ => conserves_pure _
    · exact conserves_pure _

/-- What is remembered at the end of an insert was remembered when its statement was executed. -/
theorem memory_insertWith (d : Declaration) (mode : InsertMode) (s : Session) (r : Record) :
    (insertWith d mode (s, r)).2.1.memory = (prepareInsert d mode (s, r)).2.1.memory := by
  rcases insertWith_cases d mode s r with ⟨e, t, r', hp, h⟩ | ⟨m, command, values, t, r', hp, h⟩
  · rw [h, hp]
  · rw [h, hp, conserves_executeText]

end Session

/-! ## Requests for mappings -/

/-- The record types of a program: a name stands for one declaration. -/
structure RecordTypes where
  describe : String → Declaration
  named : ∀ name, (describe name).typeName = name

/-- A request for the mapping of a record type. -/
structure Request where
  conventions : Conventions
  name : String

namespace RecordTypes

variable (types : RecordTypes)

/-- What a request builds if it has to. -/
def build (q : Request) : Except SchemaFault Mapping :=
  Mapping.build q.conventions (types.describe q.name)

/-- A mapping is decided for a type: it is what the first of the requests for the type built that
did not fail. -/
def Decides (requests : List Request) (name : String) (m : Mapping) : Prop :=
  ∃ before q after, requests = before ++ q :: after ∧ q.name = name ∧ types.build q = .ok m ∧
    ∀ p ∈ before, p.name = name → ∃ fault, types.build p = .error fault

def decided? (requests : List Request) (name : String) : Option Mapping :=
  requests.findSome? fun q => if q.name = name then (types.build q).toOption else none

variable {types} {requests : List Request} {q : Request} {name : String} {m : Mapping}

theorem decides_iff : types.Decides requests name m ↔ types.decided? requests name = some m := by
  unfold decided? Decides
  rw [List.findSome?_eq_some_iff]
  constructor
  · rintro ⟨before, q, after, rfl, hq, hm, hbefore⟩
    refine ⟨before, q, after, rfl, by rw [if_pos hq, hm]; rfl, fun p hp => ?_⟩
    by_cases hname : p.name = name
    · obtain ⟨fault, hfault⟩ := hbefore p hp hname
      rw [if_pos hname, hfault]
      rfl
    · rw [if_neg hname]
  · rintro ⟨before, q, after, rfl, hq, hbefore⟩
    by_cases hname : q.name = name
    · rw [if_pos hname] at hq
      refine ⟨before, q, after, rfl, hname, ok_of_toOption hq, fun p hp hp' => ?_⟩
      have hnone := hbefore p hp
      rw [if_pos hp'] at hnone
      cases hb : types.build p with
      | error fault => exact ⟨fault, rfl⟩
      | ok m' =>
        rw [hb] at hnone
        cases hnone
    · rw [if_neg hname] at hq
      cases hq

theorem decided?_concat (requests : List Request) (q : Request) (name : String) :
    types.decided? (requests ++ [q]) name = (types.decided? requests name).or
      (if q.name = name then (types.build q).toOption else none) := by
  unfold decided?
  rw [List.findSome?_append, List.findSome?_singleton]

end RecordTypes

theorem Mapping.record_of_build {conventions : Conventions} {d : Declaration} {m : Mapping}
    (h : build conventions d = .ok m) : m.record = d := (of_build h).1

namespace Catalog

variable (c : Catalog) (conventions : Conventions) (d : Declaration)

/-- A request adds the mapping that it builds, where there is none yet. -/
theorem get?_request (name : String) : (c.request conventions d).2.get? name =
    (c.get? name).or (if d.typeName = name then (Mapping.build conventions d).toOption else none) := by
  unfold request
  cases hget : c.get? d.typeName with
  | some m =>
    by_cases hname : d.typeName = name
    · rw [if_pos hname, ← hname, hget]
      rfl
    · rw [if_neg hname, Option.or_none]
  | none =>
    cases hbuild : Mapping.build conventions d with
    | error fault =>
      have hnone : (if d.typeName = name then (Except.error fault : Except SchemaFault Mapping).toOption
          else none) = none := ite_self _
      rw [hnone, Option.or_none]
    | ok m =>
      unfold get?
      rw [List.find?_append, Option.map_or]
      by_cases hname : d.typeName = name
      · rw [if_pos hname, List.find?_singleton, if_pos (beq_iff_eq.mpr hname)]
        rfl
      · rw [if_neg hname, List.find?_singleton, if_neg (by simpa using hname)]
        rfl

/-- What a request gives is what is kept. -/
theorem request_ok_iff {m : Mapping} : (c.request conventions d).1 = .ok m ↔
    (c.request conventions d).2.get? d.typeName = some m := by
  rw [get?_request, if_pos rfl]
  unfold request
  cases c.get? d.typeName with
  | some m' => exact ⟨fun h => congrArg some (Except.ok.inj h), fun h => congrArg Except.ok (Option.some.inj h)⟩
  | none =>
    cases Mapping.build conventions d with
    | error fault => exact ⟨fun h => (by cases h), fun h => (by cases h)⟩
    | ok m' => exact ⟨fun h => congrArg some (Except.ok.inj h), fun h => congrArg Except.ok (Option.some.inj h)⟩

end Catalog

namespace InsertCommands

variable {c : InsertCommands} {m : Mapping} {mode : InsertMode} {name : String}
  {command : InsertCommand}

theorem get?_forget {other : String} (h : (c.forget other).get? name = some command) :
    c.get? name = some command := by
  unfold get? forget at h
  obtain ⟨x, hx, hcommand⟩ := Option.map_eq_some_iff.mp h
  rw [List.find?_filter] at hx
  have hother : name ≠ other := by
    have hfound := List.find?_some hx
    simp only [bne_iff_ne, beq_iff_eq, decide_eq_true_eq] at hfound
    exact hfound.2 ▸ hfound.1
  unfold get?
  rw [Option.map_eq_some_iff]
  refine ⟨x, ?_, hcommand⟩
  rw [← hx]
  congr 1
  funext y
  by_cases hy : y.1 = name
  · simp [hy, hother]
  · simp [hy]

/-- The command that is given has the mode that is asked for; it is the kept one, or made anew. -/
theorem request_cases (c : InsertCommands) (m : Mapping) (mode : InsertMode) :
    (c.get? m.typeName = some (c.request m mode).1 ∧ (c.request m mode).1.mode = mode ∧
      (c.request m mode).2 = c) ∨
    (c.request m mode).1 = m.insertCommand mode ∧ ∀ name command,
      (c.request m mode).2.get? name = some command →
        (name = m.typeName ∧ command = m.insertCommand mode) ∨ c.get? name = some command := by
  unfold request
  cases hkept : (c.get? m.typeName).filter fun command => command.mode == mode with
  | some command =>
    obtain ⟨hget, hmode⟩ := Option.filter_eq_some_iff.mp hkept
    exact .inl ⟨hget, beq_iff_eq.mp hmode, rfl⟩
  | none =>
    refine .inr ⟨rfl, fun name command h => ?_⟩
    unfold get? at h
    rw [List.find?_cons] at h
    split at h
    · rename_i hname
      exact .inl ⟨(beq_iff_eq.mp hname).symm, (Option.some.inj h).symm⟩
    · exact .inr (get?_forget h)

end InsertCommands

/-! ## What is remembered -/

/-- A memory agrees with the requests made so far: the mappings are those that the requests decide,
and the inserts have the texts that their mappings have in their modes. -/
structure Memory.Agrees (types : RecordTypes) (requests : List Request) (k : Memory) : Prop where
  mapped : ∀ name, k.catalog.get? name = types.decided? requests name
  texts : ∀ name command, k.insertCommands.get? name = some command →
    ∃ m, types.decided? requests name = some m ∧ command.text = m.insertStatement command.mode

namespace Memory.Agrees

variable {types : RecordTypes} {requests : List Request} {k : Memory}

theorem blank (types : RecordTypes) : Memory.Agrees types [] ⟨{}, {}⟩ :=
  ⟨fun _ => rfl, fun _ _ h => (by cases h)⟩

/-- A request is remembered. -/
theorem request (h : k.Agrees types requests) (q : Request) :
    Memory.Agrees types (requests ++ [q])
      { k with catalog := (k.catalog.request q.conventions (types.describe q.name)).2 } where
  mapped name := by
    show (k.catalog.request q.conventions (types.describe q.name)).2.get? name = _
    rw [Catalog.get?_request, h.mapped, RecordTypes.decided?_concat, types.named]
    rfl
  texts name command hc := by
    obtain ⟨m, hm, htext⟩ := h.texts name command hc
    refine ⟨m, ?_, htext⟩
    rw [RecordTypes.decided?_concat, hm]
    rfl

/-- The command of an insert has the text of its mapping and mode. -/
theorem insertText (h : k.Agrees types requests) {name : String} {m : Mapping}
    (hm : types.decided? requests name = some m) (hname : m.typeName = name) (mode : InsertMode) :
    (k.insertCommands.request m mode).1.text = m.insertStatement mode := by
  rcases InsertCommands.request_cases k.insertCommands m mode with ⟨hget, hmode, -⟩ | ⟨hnew, -⟩
  · rw [hname] at hget
    obtain ⟨m', hm', htext⟩ := h.texts name _ hget
    rw [hm] at hm'
    rw [htext, hmode, Option.some.inj hm']
  · rw [hnew]
    rfl

/-- An insert is remembered. -/
theorem insert (h : k.Agrees types requests) {name : String} {m : Mapping}
    (hm : types.decided? requests name = some m) (hname : m.typeName = name) (mode : InsertMode) :
    Memory.Agrees types requests
      { k with insertCommands := (k.insertCommands.request m mode).2 } where
  mapped := h.mapped
  texts other command hc := by
    rcases InsertCommands.request_cases k.insertCommands m mode with ⟨-, -, hsame⟩ | ⟨-, hall⟩
    · exact h.texts other command (hsame ▸ hc)
    · rcases hall other command hc with ⟨rfl, rfl⟩ | hc
      · exact ⟨m, hname ▸ hm, rfl⟩
      · exact h.texts other command hc

theorem forget (h : k.Agrees types requests) (name : String) :
    Memory.Agrees types requests { k with insertCommands := k.insertCommands.forget name } :=
  ⟨h.mapped, fun other command hc => h.texts other command (InsertCommands.get?_forget hc)⟩

end Memory.Agrees

/-- A mapping that is decided was built for its type. -/
theorem RecordTypes.of_decided? {types : RecordTypes} {requests : List Request} {name : String}
    {m : Mapping} (h : types.decided? requests name = some m) : m.typeName = name ∧ m.Sound := by
  obtain ⟨q, -, hq⟩ := List.exists_of_findSome?_eq_some h
  by_cases hname : q.name = name
  · rw [if_pos hname] at hq
    have hbuild := ok_of_toOption hq
    refine ⟨?_, Mapping.sound_of_build hbuild⟩
    show m.record.typeName = name
    rw [Mapping.record_of_build hbuild, types.named, hname]
  · rw [if_neg hname] at hq
    cases hq

/-! ## Calls -/

/-- What a program does on a connection with the record types that it names. -/
inductive Call
  | mapping (name : String)
  | mappingWith (conventions : Conventions) (name : String)
  | createTableWith (conventions : Conventions) (name : String)
  | insertWith (name : String) (mode : InsertMode) (r : Record)
  | dropTable (name : String)
  | close

namespace Call

open Session

/-- The request for a mapping that a call begins with. -/
def request? (standard : Conventions) : Call → Option Request
  | mapping name => some ⟨standard, name⟩
  | mappingWith conventions name => some ⟨conventions, name⟩
  | createTableWith conventions name => some ⟨conventions, name⟩
  | insertWith name _ _ => some ⟨standard, name⟩
  | dropTable name => some ⟨standard, name⟩
  | close => none

variable (types : RecordTypes)

def run : Call → Session → Session
  | mapping name, s => (Session.mapping (types.describe name) s).2
  | mappingWith conventions name, s => (Session.mappingWith conventions (types.describe name) s).2
  | createTableWith conventions name, s => (Session.createTableWith conventions (types.describe name) s).2
  | insertWith name mode r, s => (Session.insertWith (types.describe name) mode (s, r)).2.1
  | dropTable name, s => (Session.dropTable (types.describe name) s).2
  | close, s => (Session.close s).2

/-- The requests since the connection was opened or closed; closing it again is nothing. -/
def requested (c : Call) (s : Session) (requests : List Request) : List Request :=
  match c.request? s.connection.settings.conventions with
  | some q => requests ++ [q]
  | none => if s.connection.link.isSome then [] else requests

/-- A session after some calls, with the requests since the connection was opened or closed. -/
def after : List Call → Session × List Request → Session × List Request
  | [], x => x
  | c :: rest, (s, requests) => after rest (c.run types s, c.requested s requests)

variable {types} {s : Session} {requests : List Request}

/-- The mapping that a request gets is the one that is decided then. -/
theorem requested_iff (h : s.memory.Agrees types requests) (conventions : Conventions)
    (name : String) (m : Mapping) :
    (Session.mappingWith conventions (types.describe name) s).1 = .ok m ↔
      types.decided? (requests ++ [⟨conventions, name⟩]) name = some m := by
  rw [← (h.request ⟨conventions, name⟩).mapped]
  refine (Catalog.request_ok_iff s.connection.catalog conventions (types.describe name)).trans ?_
  rw [types.named]
  rfl

theorem agrees_run (h : s.memory.Agrees types requests) (c : Call) :
    (c.run types s).memory.Agrees types (c.requested s requests) := by
  cases c with
  | mapping name => exact h.request ⟨s.connection.settings.conventions, name⟩
  | mappingWith conventions name => exact h.request ⟨conventions, name⟩
  | createTableWith conventions name =>
    show (Session.createTableWith conventions (types.describe name) s).2.memory.Agrees types _
    rw [memory_createTableWith]
    exact h.request ⟨conventions, name⟩
  | insertWith name mode r =>
    have hrequest := h.request ⟨s.connection.settings.conventions, name⟩
    show (Session.insertWith (types.describe name) mode (s, r)).2.1.memory.Agrees types _
    rw [memory_insertWith]
    obtain ⟨-, hsame | ⟨m, hm, hmemory⟩⟩ := prepareInsert_memory (types.describe name) mode s r
    · rw [hsame]
      exact hrequest
    · rw [hmemory]
      have hdecided := (requested_iff h s.connection.settings.conventions name m).mp hm
      exact hrequest.insert hdecided (RecordTypes.of_decided? hdecided).1 mode
  | dropTable name =>
    have hrequest := h.request ⟨s.connection.settings.conventions, name⟩
    rcases memory_dropTable (types.describe name) s with hsame | hforget
    · exact hsame ▸ hrequest
    · exact hforget ▸ hrequest.forget _
  | close =>
    show (Session.close s).2.memory.Agrees types (if s.connection.link.isSome then [] else requests)
    unfold Session.close
    cases hl : s.connection.link with
    | none => exact h
    | some link => exact .blank types

theorem agrees_after (h : s.memory.Agrees types requests) (calls : List Call) :
    (after types calls (s, requests)).1.memory.Agrees types (after types calls (s, requests)).2 := by
  induction calls generalizing s requests with
  | nil => exact h
  | cons c rest ih => exact ih (agrees_run h c)

end Call

/-! ## What an insert executes -/

/-- What an insert into the table of a mapping executes for a record. The text is that of the
mapping and the mode; the values are the contents of the columns that it binds, with one mark for
each; and where the statement is made ready, the parameter at the k-th mark, which is the value for
the k-th column that is named, is bound to the k-th value. Without `or replace` no column is named
like the key that counts up, and with it all columns are. -/
structure Executes (m : Mapping) (mode : InsertMode) (r : Record) (text : String)
    (values : List Value) : Prop where
  text_eq : text = m.insertStatement mode
  marks : Marks.count false text.toList = values.length
  contents : List.Forall₂ (fun c v => m.valueOf c r = .ok v) (m.boundColumns mode) values
  receives : m.boundColumns mode ≠ [] → ∀ {s u : Session} {p : Prepared},
    Session.ready (.positional text (values.map .scalar)) s = (.ok p, u) → ∃ places cells,
      p.statement = some (.insert mode.conflict m.table
        (some ((m.boundColumns mode).map Column.name)) (.values [places.map .parameter])) ∧
      Sql.readStatement text = .ok (p.statement, p.parameters) ∧
      Stored u.connection.settings.ticks (values.map .scalar) cells ∧
      Sql.Bound p.parameters p.bindings places cells
  keyless : mode = .plain → ∀ key ∈ m.columns, key.autoIncrement = true →
    ∀ c ∈ m.boundColumns mode, sameFolded c.name key.name = false
  whole : mode = .replace → m.boundColumns mode = m.columns

namespace Session

open RecordMapper.Action

theorem log_executeText (text : String) (values : List Value) (s : Session) :
    (executeText text values s).2.log = text :: s.log := by
  have hengine : Conserves Session.log engine := by
    intro s
    unfold engine
    split
    · rfl
    · rfl
  have hstep : ∀ p, Conserves Session.log (step p) := by
    intro p
    refine hengine.bind fun e => ?_
    rcases e.run p with ⟨rows, e⟩
    have hwith : Conserves Session.log (modify fun s => s.withEngine e : SessionAction Unit) :=
      fun _ => rfl
    exact hwith.bind fun _ => conserves_pure _
  have hready : (ready (.positional text (values.map .scalar)) s).2.log = (prepare text s).2.log :=
    part_bind Session.log (fun _ => conserves_get.bind fun _ => conserves_ofExcept _) s
  refine (part_bind Session.log (fun p => ?_) s).trans (hready.trans (prepare_cases text s).1)
  exact (hstep p).bind fun _ => (conserves_ofExcept _).bind fun _ => conserves_get.bind fun _ =>
    conserves_pure _

end Session

theorem valuesOf_forall₂ {m : Mapping} {columns : List Column} {r : Record} {values : List Value}
    (h : m.valuesOf columns r = .ok values) :
    List.Forall₂ (fun c v => m.valueOf c r = .ok v) columns values := by
  unfold Mapping.valuesOf at h
  induction columns generalizing values with
  | nil =>
    cases h
    exact .nil
  | cons c rest ih =>
    rw [List.mapM_cons] at h
    obtain ⟨v, hv, h⟩ := ok_of_bind h
    obtain ⟨more, hmore, h⟩ := ok_of_bind h
    cases h
    exact .cons hv (ih hmore)

theorem executes_insertStatement {m : Mapping} (hm : m.Sound) {mode : InsertMode} {r : Record}
    {values : List Value} (h : m.valuesOf (m.boundColumns mode) r = .ok values) :
    Executes m mode r (m.insertStatement mode) values where
  text_eq := rfl
  marks := by rw [m.count_insertStatement, (valuesOf_forall₂ h).length_eq]
  contents := valuesOf_forall₂ h
  receives hne {s u p} hready := by
    obtain ⟨places, parameters, hread, hlen, -, hbound⟩ := m.readsAs_insertStatement hne
    obtain ⟨hread', hstored⟩ := Session.of_ready hready
    obtain ⟨hstatement, hparameters⟩ := Prod.mk.inj (hread.of_ok hread').2
    refine ⟨places, p.bindings, hstatement, hread', hstored, hparameters ▸ hbound _ ?_⟩
    rw [← hstored.length_eq, List.length_map, ← (valuesOf_forall₂ h).length_eq, hlen]
  keyless hmode key hkey hauto c hc := by
    rw [hmode] at hc
    obtain ⟨hc, hnot⟩ := List.mem_filter.mp hc
    by_contra hsame
    rw [hm.eq_of_sameFolded hc hkey (Bool.eq_true_of_not_eq_false hsame), hauto] at hnot
    cases hnot
  whole hmode := by
    rw [hmode]
    rfl

namespace Session

open RecordMapper.Action

/-- **What a connection remembers agrees with what would be made anew.** After any calls on a
connection that was opened, whatever request for a mapping comes next gets what the first request
for its type built that has succeeded since the connection was opened or closed. An insert that
comes next fails before it executes anything, or executes one statement: the one of this mapping and
its mode, where the values of the columns get to the marks at their places. -/
theorem remembers {types : RecordTypes} {settings : Settings} {link : Link} {storage : Storage}
    {supply : Supply} {log : List String} {calls : List Call} {s : Session}
    {requests : List Request} (h : Call.after types calls
      ({ connection := { settings, link := some link }, storage, supply, log }, []) =
        (s, requests)) :
    (∀ conventions name m, (mappingWith conventions (types.describe name) s).1 = .ok m ↔
      types.Decides (requests ++ [⟨conventions, name⟩]) name m) ∧
    ∀ name mode r,
      (∃ e t r', insertWith (types.describe name) mode (s, r) = (.error e, t, r') ∧ t.log = s.log) ∨
      ∃ m command values t r',
        prepareInsert (types.describe name) mode (s, r) = (.ok (m, command, values), t, r') ∧
        types.Decides (requests ++ [⟨s.connection.settings.conventions, name⟩]) name m ∧
        Executes m mode r' command.text values ∧
        (insertWith (types.describe name) mode (s, r)).2.1 = (executeText command.text values t).2 ∧
        (insertWith (types.describe name) mode (s, r)).2.1.log = command.text :: s.log := by
  have hagrees : s.memory.Agrees types requests := by
    have hafter := Call.agrees_after (.blank types) calls (s := ⟨{ settings, link := some link }, storage, supply, log⟩)
    rw [h] at hafter
    exact hafter
  refine ⟨fun conventions name m => ?_, fun name mode r => ?_⟩
  · rw [Call.requested_iff hagrees, RecordTypes.decides_iff]
  · obtain ⟨hlog, -⟩ := prepareInsert_memory (types.describe name) mode s r
    rcases insertWith_cases (types.describe name) mode s r with
      ⟨e, t, r', hp, hi⟩ | ⟨m, command, values, t, r', hp, hi⟩
    · rw [hp] at hlog
      exact .inl ⟨e, t, r', hi, hlog⟩
    · rw [hp] at hlog
      obtain ⟨hm, -, hvalues, supply', hcommand⟩ := of_prepareInsert hp
      have hdecided := (Call.requested_iff hagrees s.connection.settings.conventions name m).mp hm
      obtain ⟨hname, hsound⟩ := RecordTypes.of_decided? hdecided
      have htext : command.text = m.insertStatement mode := by
        have hasked := (hagrees.request ⟨s.connection.settings.conventions, name⟩).insertText
          hdecided hname mode
        rw [← Except.ok.inj (congrArg Prod.fst hcommand)]
        exact hasked
      refine .inr ⟨m, command, values, t, r', hp, RecordTypes.decides_iff.mpr hdecided, ?_, hi, ?_⟩
      · rw [htext]
        exact executes_insertStatement hsound hvalues
      · rw [hi, log_executeText]
        exact congrArg (command.text :: ·) hlog

/-- Notes, whose key is one by convention only. -/
def noteTypes : RecordTypes where
  describe name := ⟨name, name, false,
    [⟨"Id", none, ⟨.plain .int64, false⟩, [], .int 0⟩,
      ⟨"Body", none, ⟨.plain .text, false⟩, [], .text ""⟩], []⟩
  named _ := rfl

def aNote : Record := ⟨"Note", [.int 7, .text "a"]⟩

/-- A connection without conventions, where the table was created under all of them and a note was
replaced. -/
def replaced : Session × List Request :=
  Call.after noteTypes [.createTableWith .all "Note", .insertWith "Note" .replace aNote]
    ({ connection := { settings := {}, link := some { id := 0 } }, supply := default }, [])

def oneMoreNote : List String :=
  (insertWith (noteTypes.describe "Note") .plain (replaced.1, aNote)).2.1.log

theorem oneMoreNote_eq :
    oneMoreNote = "insert into \"Note\"(\"Body\") values (?)" :: replaced.1.log := by
  decide +kernel

/-- The conventions of the first request stay, and the next insert leaves out the key that
counts up. -/
theorem remembers_replaced :
    Call.after noteTypes [.createTableWith .all "Note", .insertWith "Note" .replace aNote]
      (⟨{ settings := {}, link := some { id := 0 } }, {}, default, []⟩, []) =
        (replaced.1, replaced.2) ∧
    (∃ m, Mapping.build .all (noteTypes.describe "Note") = .ok m ∧
      (mappingWith .silent (noteTypes.describe "Note") replaced.1).1 = .ok m) ∧
    ∃ m values r', Executes m .plain r' "insert into \"Note\"(\"Body\") values (?)" values ∧
      values.length = 1 := by
  have hafter : replaced = (replaced.1, replaced.2) := Prod.mk.eta.symm
  obtain ⟨hmapping, hinsert⟩ := remembers hafter
  refine ⟨hafter, ?_, ?_⟩
  · have hbuild : (Mapping.build .all (noteTypes.describe "Note")).toOption.isSome = true := by
      decide +kernel
    obtain ⟨m, hm⟩ := Option.isSome_iff_exists.mp hbuild
    have hfirst : ∃ rest, replaced.2 = ⟨.all, "Note"⟩ :: rest := ⟨_, rfl⟩
    obtain ⟨rest, hrest⟩ := hfirst
    refine ⟨m, ok_of_toOption hm, (hmapping .silent "Note" m).mpr
      ⟨[], ⟨.all, "Note"⟩, rest ++ [⟨.silent, "Note"⟩], by rw [hrest]; rfl, rfl, ok_of_toOption hm, ?_⟩⟩
    exact fun p hp => absurd hp List.not_mem_nil
  · rcases hinsert "Note" .plain aNote with ⟨e, t, r', hi, hlog⟩ | ⟨m, command, values, t, r', -,
      -, hx, -, hlog⟩
    · have heq : oneMoreNote = t.log := congrArg (fun x => x.2.1.log) hi
      rw [oneMoreNote_eq, hlog] at heq
      exact absurd heq (List.cons_ne_self _ _)
    · have htext := (List.cons.inj (oneMoreNote_eq.symm.trans hlog)).1
      rw [← htext] at hx
      refine ⟨m, values, r', hx, ?_⟩
      rw [← hx.marks]
      decide +kernel

end Session

end RecordMapper
