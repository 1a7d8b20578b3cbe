import RecordMapper.Proofs.Nesting
import RecordMapper.Proofs.SessionSteps

/-!
# The engine keeps transactions

The storage engine of a session follows the statements of transactions, and refuses only to commit
what was changed while another link is reading.

1. `Engine.nesting` is what a link sees of its transaction, `Engine.Sane` what holds between the
   parts of a link that keep it.
2. `Engine.controls_control`: the engine follows each statement or leaves all as it was.
3. `Engine.run_error`, `Engine.run_reads` and `Engine.run_writes`: what a prepared
   statement runs as.
4. `Session.lawful`: an open session is a lawful host, and a steady one as long as it is alone.
-/

namespace RecordMapper

namespace Engine

variable (e : Engine)

/-- The transaction of a link. A savepoint without content stands for the content of the storage. -/
def nesting : Nesting Database :=
  { rows := e.content
    opening := e.link.opening.map fun o => (o, e.storage.content)
    savepoints := e.link.savepoints.map fun s => (s.name, s.content.getD e.storage.content) }

/-- What holds of a link between statements: nothing is changed outside a transaction, and a
savepoint keeps content only if there was a change. -/
structure Sane : Prop where
  clean : e.link.opening = none → e.link.working = none ∧ e.link.savepoints = []
  bare : e.link.working = none → ∀ s ∈ e.link.savepoints, s.content = none

/-- No other link holds a lock. -/
def Alone : Prop := e.storage.othersBelow e.link.id .shared = true

variable {e}

theorem opening_eq_none (h : e.inTransaction = false) : e.link.opening = none :=
  Option.not_isSome_iff_eq_none.mp (Bool.eq_false_iff.mp h)

/-- With nothing open, the content is what is stored. -/
theorem Sane.content_eq (hs : e.Sane) (h : e.link.opening = none) :
    e.content = e.storage.content := by
  rw [content, (hs.clean h).1]
  rfl

/-! ## Parts that do not matter -/

theorem link_settled : e.settled.link = e.link := by
  unfold settled
  split
  · rfl
  · rfl

theorem stored_settled : e.settled.storage.content = e.storage.content := by
  unfold settled
  split
  · rfl
  · rfl

theorem content_settled : e.settled.content = e.content := by
  unfold content
  rw [link_settled, stored_settled]

theorem nesting_settled : e.settled.nesting = e.nesting := by
  unfold settled
  split
  · rfl
  · rfl

theorem sane_settled (h : e.Sane) : e.settled.Sane := by
  unfold settled
  split
  · exact h
  · exact ⟨h.clean, h.bare⟩

theorem othersBelow_setLock (s : Storage) (id : Nat) (own lock : Lock) :
    (s.setLock id own).othersBelow id lock = s.othersBelow id lock := by
  have hfilter : ∀ l : List (Nat × Lock),
      (l.filter fun x => x.1 != id).all (fun x => x.1 == id || decide (x.2.level < lock.level)) =
        l.all fun x => x.1 == id || decide (x.2.level < lock.level) := by
    intro l
    induction l with
    | nil => rfl
    | cons x r ih =>
      rw [List.filter_cons]
      by_cases hx : x.1 = id
      · simp [hx, ih]
      · simp [hx, ih]
  unfold Storage.setLock Storage.othersBelow
  split
  · exact hfilter s.locks
  · rw [List.all_cons]
    simp only [beq_self_eq_true, Bool.true_or, Bool.true_and]
    exact hfilter s.locks

theorem alone_withLock {lock : Lock} : (e.withLock lock).Alone ↔ e.Alone := by
  unfold Alone withLock
  rw [othersBelow_setLock]

theorem alone_settled (h : e.Alone) : e.settled.Alone := by
  unfold settled
  split
  · exact h
  · exact alone_withLock.mpr h

/-! ## Ends of a transaction -/

theorem nesting_rolledBack : e.rolledBack.nesting = { rows := e.storage.content } := by
  unfold rolledBack
  rw [nesting_settled]
  rfl

theorem sane_rolledBack : e.rolledBack.Sane :=
  sane_settled ⟨fun _ => ⟨rfl, rfl⟩, fun _ _ hs => absurd hs List.not_mem_nil⟩

theorem alone_rolledBack (h : e.Alone) : e.rolledBack.Alone := alone_settled h

/-- How a statement of transactions may end: it is followed, or there is nothing that it could be
about, or others read what it would commit. -/
inductive Controls (e : Engine) (c : Control) : Option EngineFault × Engine → Prop
  | followed {r : Engine} : e.nesting.follow c = some r.nesting → r.Sane → (e.Alone → r.Alone) →
      Controls e c (none, r)
  | pointless {fault : EngineFault} : e.nesting.follow c = none →
      (Error.ofFault fault).isTransient = false → Controls e c (some fault, e)
  | refused : ¬ e.Alone → (e.nesting.follow c).isSome → c ≠ .rollback →
      Controls e c (some .busy, e.withLock .pending)

theorem controls_committed {c : Control} (hf : e.nesting.follow c = some e.nesting.closed)
    (hc : c ≠ .rollback) : Controls e c e.committed := by
  unfold committed
  by_cases hb : (e.link.dirty && !e.storage.othersBelow e.link.id .shared) = true
  · rw [if_pos hb]
    refine .refused (fun ha => ?_) (by rw [hf]; rfl) hc
    unfold Alone at ha
    rw [ha, Bool.not_true, Bool.and_false] at hb
    cases hb
  · rw [if_neg hb]
    refine .followed ?_ ?_ ?_
    · rw [hf, nesting_settled]
      rfl
    · exact sane_settled ⟨fun _ => ⟨rfl, rfl⟩, fun _ _ hs => absurd hs List.not_mem_nil⟩
    · intro ha
      exact alone_settled ha

/-! ## Statements -/

theorem not_isTransient_of_code {fault : EngineFault} (h : fault.code = 1) :
    (Error.ofFault fault).isTransient = false := by
  unfold Error.ofFault
  rw [h, if_neg (by decide)]
  rfl

theorem savepointsFrom_nesting (name : String) : e.nesting.savepointsFrom name =
    (e.savepointsFrom name).map fun s => (s.name, s.content.getD e.storage.content) := by
  unfold Nesting.savepointsFrom savepointsFrom nesting
  rw [List.dropWhile_map]
  rfl

theorem savepointsFrom_subset (name : String) :
    ∀ s ∈ e.savepointsFrom name, s ∈ e.link.savepoints :=
  fun _ h => (List.dropWhile_suffix _).mem h

theorem isOpen_nesting : e.nesting.isOpen = e.inTransaction := by
  unfold Nesting.isOpen nesting inTransaction
  rw [Option.isSome_map]

theorem controls_release (hs : e.Sane) (name : String) :
    Controls e (.release name) (e.control (.release name)) := by
  have hfrom := savepointsFrom_nesting (e := e) name
  have hsub := savepointsFrom_subset (e := e) name
  cases h : e.savepointsFrom name with
  | nil =>
    simp only [control, h]
    refine .pointless ?_ (not_isTransient_of_code rfl)
    rw [Nesting.follow, hfrom, h]
    rfl
  | cons s older =>
    rw [h] at hfrom hsub
    have hsome : e.link.opening ≠ none := fun ho => by
      have := hsub s List.mem_cons_self
      rw [(hs.clean ho).2] at this
      cases this
    have hkeep : ∀ l : List Savepoint, (∀ x ∈ l, x ∈ e.link.savepoints) →
        Sane { e with link := { e.link with savepoints := l } } := fun l hl =>
      ⟨fun ho => absurd ho hsome, fun hw x hx => hs.bare hw x (hl x hx)⟩
    have hfollow : e.nesting.follow (.release name) = some (e.nesting.keepSavepoints
        (older.map fun s => (s.name, s.content.getD e.storage.content))) := by
      rw [Nesting.follow, hfrom]
      rfl
    cases older with
    | nil =>
      simp only [control, h]
      by_cases ho : e.link.opening = some .savepoint
      · rw [if_pos ho]
        refine controls_committed ?_ (fun hc => by cases hc)
        rw [hfollow]
        simp only [Nesting.keepSavepoints, nesting, ho, Option.map_some, List.map_nil]
      · rw [if_neg ho]
        refine .followed ?_ (hkeep [] (fun x hx => absurd hx List.not_mem_nil)) ?_
        · rw [hfollow]
          cases hop : e.link.opening with
          | none => exact absurd hop hsome
          | some o =>
            cases o with
            | statement =>
              simp only [Nesting.keepSavepoints, nesting, hop, Option.map_some, List.map_nil]
              rfl
            | savepoint => exact absurd hop ho
        · exact id
    | cons s' older =>
      simp only [control, h]
      refine .followed ?_ (hkeep _ fun x hx => hsub x (List.mem_cons_of_mem _ hx)) ?_
      · rw [hfollow]
        rfl
      · exact id

theorem controls_rollbackTo (hs : e.Sane) (name : String) :
    Controls e (.rollbackTo name) (e.control (.rollbackTo name)) := by
  have hfrom := savepointsFrom_nesting (e := e) name
  have hsub := savepointsFrom_subset (e := e) name
  cases h : e.savepointsFrom name with
  | nil =>
    simp only [control, h]
    refine .pointless ?_ (not_isTransient_of_code rfl)
    rw [Nesting.follow, hfrom, h]
    rfl
  | cons s older =>
    rw [h] at hfrom hsub
    have hmem := hsub s List.mem_cons_self
    simp only [control, h]
    refine .followed ?_ ⟨fun ho => ?_, fun hw x hx => ?_⟩ ?_
    · rw [Nesting.follow, hfrom]
      unfold nesting content
      cases hw : e.link.working with
      | none =>
        simp only [List.map_cons, hs.bare hw s hmem, Option.getD_none, Option.map_none]
      | some d => rfl
    · rw [(hs.clean ho).2] at hmem
      cases hmem
    · exact hs.bare (Option.map_eq_none_iff.mp hw) x (hsub x hx)
    · exact id

/-- The engine follows a statement of transactions, or leaves the transaction as it is. -/
theorem controls_control {c : Control} (hc : c.Formed) (hs : e.Sane) :
    Controls e c (e.control c) := by
  have hopen := isOpen_nesting (e := e)
  cases c with
  | begin mode =>
    cases hc
    unfold control
    by_cases hi : e.inTransaction = true
    · simp only [hi, if_true]
      exact .pointless (by rw [Nesting.follow, hopen, hi]; rfl) (not_isTransient_of_code rfl)
    · simp only [hi]
      have hnone := opening_eq_none (Bool.eq_false_iff.mpr hi)
      refine .followed ?_ ⟨fun ho => ?_, hs.bare⟩ ?_
      · rw [Nesting.follow, hopen, if_neg hi]
        simp [nesting, content, (hs.clean hnone).1]
      · cases ho
      · exact id
  | commit =>
    simp only [control]
    by_cases hi : e.inTransaction = true
    · rw [if_pos hi]
      exact controls_committed (by rw [Nesting.follow, hopen, if_pos hi]) (fun hc => by cases hc)
    · rw [if_neg hi]
      exact .pointless (by rw [Nesting.follow, hopen, if_neg hi]) (not_isTransient_of_code rfl)
  | rollback =>
    simp only [control]
    by_cases hi : e.inTransaction = true
    · rw [if_pos hi]
      refine .followed ?_ sane_rolledBack alone_rolledBack
      rw [nesting_rolledBack, Nesting.follow]
      obtain ⟨o, ho⟩ := Option.isSome_iff_exists.mp hi
      rw [nesting, ho]
      rfl
    · rw [if_neg hi]
      refine .pointless ?_ (not_isTransient_of_code rfl)
      have hnone := opening_eq_none (Bool.eq_false_iff.mpr hi)
      rw [Nesting.follow, nesting, hnone]
      rfl
  | savepoint name =>
    refine .followed ?_ ⟨fun ho => ?_, fun hw x hx => ?_⟩ ?_
    · rw [Nesting.follow]
      unfold nesting content
      cases ho : e.link.opening with
      | none => simp [(hs.clean ho).1]
      | some o => rfl
    · cases h : e.link.opening <;> simp [h] at ho
    · rcases List.mem_cons.mp hx with rfl | hx
      · exact hw
      · exact hs.bare hw x hx
    · exact id
  | release name => exact controls_release hs name
  | rollbackTo name => exact controls_rollbackTo hs name

/-! ## Changes of rows -/

/-- Two engines in the same transaction: they differ in rows, locks and counters at most. -/
structure SameTransaction (e r : Engine) : Prop where
  opening : r.link.opening = e.link.opening
  savepoints : r.link.savepoints = e.link.savepoints
  content : r.link.opening ≠ none → r.storage.content = e.storage.content

namespace SameTransaction

theorem refl (e : Engine) : SameTransaction e e := ⟨rfl, rfl, fun _ => rfl⟩

theorem nesting_opening {r : Engine} (h : SameTransaction e r) :
    r.nesting.opening = e.nesting.opening := by
  unfold nesting
  cases ho : r.link.opening with
  | none => simp [← h.opening, ho]
  | some o => simp [← h.opening, ho, h.content (by rw [ho]; nofun)]

theorem nesting_savepoints {r : Engine} (h : SameTransaction e r) (hs : e.Sane) :
    r.nesting.savepoints = e.nesting.savepoints := by
  unfold nesting
  cases ho : r.link.opening with
  | none => simp [h.savepoints, (hs.clean (h.opening ▸ ho)).2]
  | some o => simp [h.savepoints, h.content (by rw [ho]; nofun)]

end SameTransaction

theorem acquireRead_spec {r : Engine} (h : e.acquireRead = .ok r) :
    r = e ∨ r = e.withLock .shared := by
  unfold acquireRead at h
  split at h
  · exact Or.inl (Except.ok.inj h).symm
  · split at h
    · exact Or.inr (Except.ok.inj h).symm
    · cases h

/-- A link that may write stays in its transaction. -/
theorem acquireWrite_spec {r : Engine} (h : e.acquireWrite = .ok r) :
    SameTransaction e r ∧ (e.Alone → r.Alone) := by
  unfold acquireWrite at h
  split at h
  · cases h
  · split at h
    · rw [← Except.ok.inj h]
      exact ⟨.refl e, id⟩
    · split at h
      · cases h
      · rename_i q hq
        split at h
        · rw [← Except.ok.inj h]
          rcases acquireRead_spec hq with rfl | rfl
          · exact ⟨⟨rfl, rfl, fun _ => rfl⟩, fun ha => alone_withLock.mpr ha⟩
          · exact ⟨⟨rfl, rfl, fun _ => rfl⟩, fun ha => alone_withLock.mpr (alone_withLock.mpr ha)⟩
        · cases h

theorem alone_committed (h : e.Alone) : e.committed.2.Alone := by
  unfold committed
  split
  · exact alone_withLock.mpr h
  · exact alone_settled (e := { e with storage := { e.storage with content := e.content }, link := _ }) h

/-- An engine after a change: in the same transaction, and between statements again. -/
structure Keeps (e r : Engine) : Prop where
  same : SameTransaction e r
  sane : r.Sane
  alone : e.Alone → r.Alone

variable {r : Engine}

theorem keeps_rolledBack (hs : e.Sane) (ho : e.link.opening = none) (ha : e.Alone → r.Alone) :
    Keeps e r.rolledBack :=
  ⟨⟨ho.symm, (hs.clean ho).2.symm, fun h => absurd rfl h⟩, sane_rolledBack,
    fun h => alone_rolledBack (ha h)⟩

theorem keeps_committed {q : Engine} (hs : e.Sane) (ho : e.link.opening = none)
    (ha : e.Alone → q.Alone) (h : q.committed = (none, r)) : Keeps e r := by
  unfold committed at h
  split at h
  · cases h
  · cases h
    refine ⟨⟨ho.symm, (hs.clean ho).2.symm, fun h => absurd rfl h⟩, ?_, ?_⟩
    · exact sane_settled ⟨fun _ => ⟨rfl, rfl⟩, fun _ _ hs => absurd hs List.not_mem_nil⟩
    · intro he
      exact alone_settled (ha he)

theorem keeps_open (ho : e.link.opening ≠ none) (hr : SameTransaction e r)
    (hw : r.link.working ≠ none) (ha : e.Alone → r.Alone) : Keeps e r :=
  ⟨hr, ⟨fun h => absurd (hr.opening ▸ h) ho, fun h => absurd h hw⟩, ha⟩

/-- A change that does not end the transaction stays in it; outside a transaction it is one of its
own, which ends with it. -/
theorem keeps_changed (hs : e.Sane) (hr : SameTransaction e r) (ha : e.Alone → r.Alone)
    (program : Program) {o : Outcome} (ho : o.endsTransaction = false) :
    Keeps e (r.changed program o).2 := by
  unfold changed
  extract_lets dirty known l q q' l' q''
  have hq : SameTransaction e q' ∧ q'.link.working ≠ none ∧ (e.Alone → q'.Alone) := by
    show SameTransaction e (if program.counts then q.counted o else q) ∧ _
    unfold q'
    split
    · exact ⟨⟨hr.opening, hr.savepoints, hr.content⟩, nofun, ha⟩
    · exact ⟨⟨hr.opening, hr.savepoints, hr.content⟩, nofun, ha⟩
  obtain ⟨hsame, hw, ha'⟩ := hq
  have hsame' : SameTransaction e q'' := ⟨hsame.opening, hsame.savepoints, hsame.content⟩
  have hin : r.inTransaction = true ↔ e.link.opening ≠ none := by
    unfold inTransaction
    rw [hr.opening, Option.isSome_iff_ne_none]
  rw [ho]
  by_cases hopen : e.link.opening = none
  · have hnot : r.inTransaction = false := by
      rw [← Bool.not_eq_true, hin, not_not]
      exact hopen
    have hc := alone_committed (e := q')
    rw [hnot]
    cases o.fault with
    | some fault =>
      show Keeps e (if o.stands then q''.committed.2.rolledBack else q''.rolledBack)
      split
      · exact keeps_rolledBack hs hopen fun h => alone_committed (e := q'') (ha' h)
      · exact keeps_rolledBack hs hopen ha'
    | none =>
      rcases hx : q'.committed with ⟨fault, w⟩
      rw [hx] at hc
      simp only [Bool.false_eq_true, if_false]
      cases fault with
      | none => exact keeps_committed hs hopen ha' hx
      | some fault =>
        refine keeps_rolledBack hs hopen fun h => ?_
        split
        · exact hc (ha' h)
        · exact hc (ha' h)
  · rw [hin.mpr hopen]
    cases o.fault with
    | some fault => exact keeps_open hopen hsame' hw ha'
    | none => exact keeps_open hopen hsame hw ha'

/-! ## Running them -/

section Runs

variable {p : Prepared} {s : Sql.Statement} {program : Program} {fault : EngineFault}

theorem run_none (hp : p.statement = none) : e.run p = (⟨[], some .noStatement⟩, e) := by
  unfold run
  simp only [hp]

theorem run_error (hp : p.statement = some s) (hx : e.enter p s = .error fault) :
    e.run p = (⟨[], some fault⟩, e.refused s) := by
  unfold run
  simp only [hp, hx]

/-- A statement that reads runs for its rows. -/
theorem run_reads (hp : p.statement = some s) (hx : e.enter p s = .ok (program, r))
    (hn : program.need = .reading) :
    e.run p = (program.rows r.content (r.scope p), r.settled) := by
  -- the match on controls is passed over
  have hcontrol : ∀ c, program ≠ .control c := by
    rintro c rfl
    cases hn
  unfold run
  simp only [hp, hx, hn]
  rfl

/-- A statement that writes runs as a change and gives no rows, unless it drops a table. -/
theorem run_writes (hp : p.statement = some s) (hx : e.enter p s = .ok (program, r))
    (hn : program.need = .writing) (hd : ∀ name, program ≠ .define (.dropTable name)) :
    e.run p = (⟨[], (r.changed program (program.change r.content (r.scope p))).1⟩,
      (r.changed program (program.change r.content (r.scope p))).2) := by
  unfold run
  cases program with
  | control c => cases hn
  | define definition =>
    cases definition with
    | dropTable name => exact absurd rfl (hd name)
    | _ => simp only [hp, hx, hn, if_true]
  | _ => simp only [hp, hx, hn, if_true]

end Runs

theorem prepare_control {c : Control} (hc : c.Formed) : ∃ s,
    e.prepare c.text = (.ok { text := c.text, statement := some s, parameters := {}, names := [] }, e)
      ∧ readsDefinitions s = false ∧ ∀ d p, Program.of d p s = .ok (.control c) := by
  obtain ⟨s, hs, hd, hp⟩ := Control.readStatement_text hc
  refine ⟨s, ?_, hd, hp⟩
  unfold prepare informed resolve
  simp only [hs, hd, Bool.false_and, Bool.false_eq_true, if_false, hp]
  rfl

theorem run_control {c : Control} {p : Prepared} {s : Sql.Statement} (hs : p.statement = some s)
    (hd : readsDefinitions s = false) (hp : ∀ d p, Program.of d p s = .ok (.control c)) :
    e.run p = (⟨[], (e.control c).1⟩, (e.control c).2) := by
  have henter : e.enter p s = .ok (.control c, e) := by
    unfold enter renewed informed engage resolve
    simp only [hd, Bool.false_and, Bool.false_eq_true, if_false, hp, bind, Except.bind]
    rfl
  unfold run
  simp only [hs, henter]

end Engine

/-! ## Sessions -/

namespace Session

open TransactionHost

theorem execute_control {c : Control} (hc : c.Formed) {s : Session} {link : Link}
    (hl : s.connection.link = some link) : host.execute c.text s =
      (match (Engine.control ⟨s.storage, link⟩ c).1 with
        | none => .ok ()
        | some fault => .error (.ofFault fault),
      withEngine { s with log := c.text :: s.log } (Engine.control ⟨s.storage, link⟩ c).2) := by
  obtain ⟨st, hp, hd, hprog⟩ := Engine.prepare_control (e := ⟨s.storage, link⟩) hc
  have hready := ready_apply (c := .positional c.text []) (prepare_apply hl hp)
  have hrun := Engine.run_control (e := ⟨s.storage, link⟩) (p := ⟨c.text, some st, {}, [], []⟩) rfl hd hprog
  have hexec : executeText c.text [] s =
    ((firstRow ⟨[], (Engine.control ⟨s.storage, link⟩ c).1⟩).map
      fun _ => (Engine.control ⟨s.storage, link⟩ c).2.link.changes,
        withEngine { s with log := c.text :: s.log } (Engine.control ⟨s.storage, link⟩ c).2) :=
    (execute_apply hready).trans (finishExecute_apply rfl hrun)
  show (executeText c.text [] >>= fun _ => pure ()) s = _
  cases hf : (Engine.control ⟨s.storage, link⟩ c).1 with
  | none =>
    rw [hf] at hexec
    exact Action.bind_ok hexec
  | some fault =>
    rw [hf] at hexec
    exact Action.bind_error hexec

/-- What an open session sees of its transaction. -/
def nesting (s : Session) : Nesting Database :=
  match s.connection.link with
  | some link => Engine.nesting ⟨s.storage, link⟩
  | none => { rows := s.storage.content }

theorem nesting_of_link {s : Session} {link : Link} (hl : s.connection.link = some link) :
    s.nesting = Engine.nesting ⟨s.storage, link⟩ := by
  unfold nesting
  rw [hl]

theorem content_of_link {s : Session} {link : Link} (hl : s.connection.link = some link) :
    Engine.content ⟨s.storage, link⟩ = s.nesting.rows := by
  rw [nesting_of_link hl]
  rfl

/-- An open session between statements; with `alone`, no other connection holds a lock. -/
def Usable (alone : Bool) (s : Session) : Prop :=
  ∃ link, s.connection.link = some link ∧ Engine.Sane ⟨s.storage, link⟩ ∧
    (alone = true → Engine.Alone ⟨s.storage, link⟩)

theorem execute_cases {alone : Bool} {c : Control} {s : Session} (hc : c.Formed)
    (hs : s.Usable alone) : (host.execute c.text s).2.Usable alone ∧
      (host.execute c.text s).2.depth = s.depth ∧
      Answers c s.nesting (host.execute c.text s).2.nesting (host.execute c.text s).1 ∧
      (alone = true → (s.nesting.follow c).isSome → (host.execute c.text s).1 = .ok ()) := by
  obtain ⟨link, hl, hsane, halone⟩ := hs
  rw [execute_control hc hl, nesting_of_link hl]
  have hctl := Engine.controls_control hc hsane
  rcases hx : Engine.control ⟨s.storage, link⟩ c with ⟨fault, r⟩
  rw [hx] at hctl
  cases hctl with
  | followed hf hrs hra =>
    exact ⟨⟨_, rfl, hrs, fun ha => hra (halone ha)⟩, rfl, hf, fun _ _ => rfl⟩
  | pointless hf htr =>
    refine ⟨⟨_, rfl, hsane, halone⟩, rfl, ⟨rfl, by rw [hf]; exact htr, fun _ => hf⟩, fun _ hsome => ?_⟩
    rw [hf] at hsome
    cases hsome
  | refused hna hf hne =>
    refine ⟨⟨_, rfl, ⟨hsane.clean, hsane.bare⟩, fun ha => absurd (halone ha) hna⟩, rfl,
      ⟨rfl, by rw [hf]; rfl, fun he => absurd he hne⟩, fun ha => absurd (halone ha) hna⟩

/-- A session is a host whose engine keeps transactions. -/
def lawful (alone : Bool) : host.Lawful Database where
  view := nesting
  ready := Usable alone
  depth_setDepth _ _ := rfl
  view_setDepth _ _ := rfl
  ready_setDepth h := h
  depth_nonce _ := rfl
  view_nonce _ := rfl
  ready_nonce h := h
  depth_execute hc hr := (execute_cases hc hr).2.1
  ready_execute hc hr := (execute_cases hc hr).1
  answers hc hr := (execute_cases hc hr).2.2.1

/-- Nothing is refused to a session that is alone. -/
theorem steady_lawful : (lawful true).Steady :=
  fun _ _ hc hr hf => (execute_cases hc hr).2.2.2 rfl hf

/-- A statement on rows: once the engine may write, `change` says what it makes of the content. -/
def write (program : Program) (change : Engine → Outcome) (s : Session) : Session :=
  match s.connection.link with
  | none => s
  | some link =>
    match Engine.acquireWrite ⟨s.storage, link⟩ with
    | .error _ => s
    | .ok r => s.withEngine (r.changed program (change r)).2

theorem write_cases (program : Program) (change : Engine → Outcome) {s : Session} {link : Link}
    (hl : s.connection.link = some link) : write program change s = s ∨
      ∃ r, Engine.acquireWrite ⟨s.storage, link⟩ = .ok r ∧
        write program change s = s.withEngine (r.changed program (change r)).2 := by
  unfold write
  simp only [hl]
  cases Engine.acquireWrite ⟨s.storage, link⟩ with
  | error fault => exact Or.inl rfl
  | ok r => exact Or.inr ⟨r, rfl, rfl⟩

section Write

variable {alone : Bool} {program : Program} {change : Engine → Outcome}
  (h : ∀ r, (change r).endsTransaction = false)

include h

theorem write_keeps {s : Session} (hs : s.Usable alone) :
    (write program change s).depth = s.depth ∧ (write program change s).Usable alone ∧
      (write program change s).nesting.opening = s.nesting.opening ∧
      (write program change s).nesting.savepoints = s.nesting.savepoints := by
  obtain ⟨link, hl, hsane, halone⟩ := id hs
  rcases write_cases program change hl with he | ⟨r, hw, he⟩
  · rw [he]
    exact ⟨rfl, hs, rfl, rfl⟩
  · obtain ⟨hsame, ha⟩ := Engine.acquireWrite_spec hw
    have hk := Engine.keeps_changed hsane hsame ha program (h r)
    rw [he, nesting_of_link hl]
    exact ⟨rfl, ⟨_, rfl, hk.sane, fun hal => hk.alone (halone hal)⟩, hk.same.nesting_opening,
      hk.same.nesting_savepoints hsane⟩

end Write

/-- Statements on rows stay in the transaction that is open, unless they end it by a fault. -/
def writeWork (alone : Bool) (program : Program) (change : Engine → Outcome)
    (h : ∀ r, (change r).endsTransaction = false) : (lawful alone).Work where
  act := write program change
  depth_act hs := (write_keeps h hs).1
  ready_act hs := (write_keeps h hs).2.1
  opening_act hs := (write_keeps h hs).2.2.1
  savepoints_act hs := (write_keeps h hs).2.2.2

/-! ## Sessions that have just been opened -/

/-- A session alone on its storage. -/
def fresh : Session :=
  { connection := { settings := {}, link := some { id := 0 } }, supply := { nonces := id, seeds := id } }

/-- A session on a storage that another connection is reading. -/
def watched : Session := { fresh with storage := { locks := [(1, .shared)] } }

/-- A statement that changes the content: it sets the number of the user's version. -/
def stamp (alone : Bool) (n : Int) : (lawful alone).Work :=
  writeWork alone (.setVersion n)
    (fun r => { database := { r.content with userVersion := n } }) fun _ => rfl

theorem sane_new (storage : Storage) : Engine.Sane ⟨storage, { id := 0 }⟩ :=
  ⟨fun _ => ⟨rfl, rfl⟩, fun _ _ hs => absurd hs List.not_mem_nil⟩

theorem usable_fresh : fresh.Usable true := ⟨_, rfl, sane_new _, fun _ => rfl⟩

theorem usable_watched : watched.Usable false := ⟨_, rfl, sane_new _, nofun⟩

end Session

end RecordMapper
