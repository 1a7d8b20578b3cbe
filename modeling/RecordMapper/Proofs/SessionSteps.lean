import Mathlib.Data.List.Forall2
import RecordMapper.Session.Basic

/-!
# Steps of a session

How steps that may fail follow one another, and what the parts of a command do to a session whose
connection is open: one equation for each.
-/

namespace RecordMapper

/-! ## Steps that may fail -/

/-- A step that comes to its end has come to the end of its first part. -/
theorem ok_of_bind {ε α β : Type} {x : Except ε α} {f : α → Except ε β} {b : β}
    (h : (x >>= f) = .ok b) : ∃ a, x = .ok a ∧ f a = .ok b := by
  cases x with
  | error e => cases h
  | ok a => exact ⟨a, rfl, h⟩

/-- A step that fails has failed in its first part, or behind it. -/
theorem error_of_bind {ε α β : Type} {x : Except ε α} {f : α → Except ε β} {e : ε}
    (h : (x >>= f) = .error e) : x = .error e ∨ ∃ a, x = .ok a ∧ f a = .error e := by
  cases x with
  | error e' =>
    cases h
    exact .inl rfl
  | ok a => exact .inr ⟨a, rfl, h⟩

/-- A list of steps comes to its end where each of them does. -/
theorem mapM_eq_ok_iff {α β ε : Type} {f : α → Except ε β} {as : List α} {bs : List β} :
    as.mapM f = .ok bs ↔ List.Forall₂ (fun a b => f a = .ok b) as bs := by
  induction as generalizing bs with
  | nil =>
    rw [List.mapM_nil, List.forall₂_nil_left_iff]
    exact ⟨fun h => (Except.ok.inj h).symm, fun h => congrArg Except.ok h.symm⟩
  | cons a rest ih =>
    rw [List.mapM_cons]
    constructor
    · intro h
      obtain ⟨b, hb, h⟩ := ok_of_bind h
      obtain ⟨more, hmore, h⟩ := ok_of_bind h
      cases h
      exact .cons hb (ih.mp hmore)
    · intro h
      obtain _ | ⟨hb, hmore⟩ := h
      rw [hb, ih.mpr hmore]
      rfl

/-- The results of a list of steps that all come to their ends, one for each. -/
theorem of_mapM {α β ε : Type} [Inhabited β] {f : α → Except ε β} {as : List α} {bs : List β}
    (h : as.mapM f = .ok bs) :
    (∀ a ∈ as, f a = .ok ((f a).toOption.getD default)) ∧
      bs = as.map fun a => (f a).toOption.getD default := by
  induction as generalizing bs with
  | nil =>
    cases h
    exact ⟨fun _ ha => absurd ha List.not_mem_nil, rfl⟩
  | cons a rest ih =>
    rw [List.mapM_cons] at h
    obtain ⟨b, hb, h⟩ := ok_of_bind h
    obtain ⟨more, hmore, h⟩ := ok_of_bind h
    cases h
    obtain ⟨hall, rfl⟩ := ih hmore
    refine ⟨fun x hx => ?_, ?_⟩
    · rcases List.mem_cons.mp hx with rfl | hx
      · rw [hb]
        rfl
      · exact hall x hx
    · rw [List.map_cons, hb]
      rfl

theorem error_of_mapM {α β ε : Type} {f : α → Except ε β} {as : List α} {e : ε}
    (h : as.mapM f = .error e) :
    ∃ a ∈ as, f a = .error e := by
  induction as with
  | nil => cases h
  | cons a rest ih =>
    rw [List.mapM_cons] at h
    rcases error_of_bind h with ha | ⟨b, -, h⟩
    · exact ⟨a, List.mem_cons_self, ha⟩
    · rcases error_of_bind h with hrest | ⟨bs, -, h⟩
      · obtain ⟨a', ha', he⟩ := ih hrest
        exact ⟨a', List.mem_cons_of_mem a ha', he⟩
      · cases h

theorem ok_of_toOption {ε α : Type} {x : Except ε α} {a : α} (h : x.toOption = some a) :
    x = .ok a := by
  cases x with
  | error e => cases h
  | ok b => exact congrArg Except.ok (Option.some.inj h)

/-- A run that comes to its end, by its result. -/
theorem ends_of_toOption {ε α σ : Type} {x : Except ε α × σ} {a : α} (h : x.1.toOption = some a) :
    x = (.ok a, x.2) := Prod.ext (ok_of_toOption h) rfl

namespace Action

variable {σ α β : Type}

theorem bind_ok {x : Action σ α} {f : α → Action σ β} {s t : σ} {a : α} (h : x s = (.ok a, t)) :
    (x >>= f) s = f a t := by
  simp only [bind, ExceptT.bind, ExceptT.mk, StateT.bind, h, ExceptT.bindCont]

theorem bind_error {x : Action σ α} {f : α → Action σ β} {s t : σ} {e : Error}
    (h : x s = (.error e, t)) : (x >>= f) s = (.error e, t) := by
  simp only [bind, ExceptT.bind, ExceptT.mk, StateT.bind, h, ExceptT.bindCont]
  rfl

/-- Steps that come to their end have come to the end of the first of them. -/
theorem of_bind_ok {x : Action σ α} {f : α → Action σ β} {s u : σ} {b : β}
    (h : (x >>= f) s = (.ok b, u)) : ∃ a t, x s = (.ok a, t) ∧ f a t = (.ok b, u) := by
  rcases hx : x s with ⟨e | a, t⟩
  · rw [bind_error hx] at h
    cases h
  · exact ⟨a, t, rfl, (bind_ok hx).symm.trans h⟩

/-- A step that fails has failed in its first part, or behind it. -/
theorem of_bind_error {x : Action σ α} {f : α → Action σ β} {s u : σ} {e : Error}
    (h : (x >>= f) s = (.error e, u)) : x s = (.error e, u) ∨ ∃ a t, x s = (.ok a, t) ∧
    f a t = (.error e, u) := by
  rcases hx : x s with ⟨e' | a, t⟩
  · rw [bind_error hx] at h
    cases h
    exact .inl rfl
  · rw [bind_ok hx] at h
    exact .inr ⟨a, t, rfl, h⟩

theorem attempt_apply (x : Action σ α) (s : σ) : x.attempt s = (.ok (x s).1, (x s).2) := (rfl)

theorem get_bind (f : σ → Action σ β) (s : σ) : ((get : Action σ σ) >>= f) s = f s s := (rfl)

theorem modifyGet_bind (g : σ → α × σ) (f : α → Action σ β) (s : σ) :
    ((modifyGet g : Action σ α) >>= f) s = f (g s).1 (g s).2 := (rfl)

theorem pure_apply (a : α) (s : σ) : (pure a : Action σ α) s = (.ok a, s) := (rfl)

theorem throw_apply (e : Error) (s : σ) : (throw e : Action σ α) s = (.error e, s) := (rfl)

end Action

/-! ## Parts of a command -/

namespace Session

open RecordMapper.Action

variable {s : Session} {link : Link}

theorem engine_apply (hl : s.connection.link = some link) :
    engine s = (.ok ⟨s.storage, link⟩, s) := by
  unfold engine
  simp only [hl]

theorem modify_bind {β : Type} (f : Session → Session) (g : Unit → SessionAction β) (s : Session) :
    ((modify f : SessionAction Unit) >>= g) s = g () (f s) := (rfl)

theorem ofExcept_apply {α : Type} (x : Except Error α) (s : Session) :
    (Action.ofExcept x : SessionAction α) s = (x, s) := (rfl)

theorem prepare_apply {text : String} {p : Except LocatedFault Prepared} {e : Engine}
    (hl : s.connection.link = some link) (h : Engine.prepare ⟨s.storage, link⟩ text = (p, e)) :
    prepare text s =
      (p.mapError (Error.ofLocated text), withEngine { s with log := text :: s.log } e) := by
  have he : engine { s with log := text :: s.log } =
      (.ok ⟨s.storage, link⟩, { s with log := text :: s.log }) := engine_apply hl
  unfold prepare
  rw [modify_bind, bind_ok he, h]
  rfl

/-- The values of a prepared command are bound without the engine. -/
theorem ready_apply {c : Command} {p : Prepared} {t : Session} (h : prepare c.text s = (.ok p, t)) :
    ready c s = ((bindEach t.connection.settings.ticks p 1 c.bindings).1, t) := by
  unfold ready
  rw [bind_ok h, get_bind, ofExcept_apply]

theorem step_apply {p : Prepared} {rows : Run (List Cell)} {e : Engine}
    (hl : s.connection.link = some link) (h : Engine.run ⟨s.storage, link⟩ p = (rows, e)) :
    step p s = (.ok rows, s.withEngine e) := by
  unfold step
  rw [bind_ok (engine_apply hl), h]
  rfl

/-- Only the first row, or the fault before it, is looked at. -/
theorem finishExecute_apply {p : Prepared} {rows : Run (List Cell)} {e : Engine}
    (hl : s.connection.link = some link) (h : Engine.run ⟨s.storage, link⟩ p = (rows, e)) :
    finishExecute p s = ((firstRow rows).map fun _ => e.link.changes, s.withEngine e) := by
  unfold finishExecute
  rw [bind_ok (step_apply hl h)]
  cases firstRow rows with
  | error e => exact bind_error (ofExcept_apply (.error e) _)
  | ok row => exact bind_ok (ofExcept_apply (.ok row) _)

theorem execute_apply {c : Command} {p : Prepared} {t : Session} (h : ready c s = (.ok p, t)) :
    execute c s = finishExecute p t := bind_ok h

end Session

end RecordMapper
