import Mathlib.Data.List.Induction
import RecordMapper.Proofs.EngineNesting
import RecordMapper.Proofs.TransactionCalls

/-!
# Whole runs of nested transactions

1. `Call` is one call of the transaction functions, or work between them. `Routine` is a program of
   calls that goes on as their outcomes tell it, with bodies run inside savepoints.
2. `Call.refines_snapshots`: the calls move a stack of snapshots.
3. `Routine.deep_iff_open_iff`: the depth tells whether the engine has a transaction open after
   every call of a run, exactly if no call of it strands.
-/

namespace RecordMapper

namespace TransactionHost.Lawful

variable {σ δ : Type} {h : TransactionHost σ}

/-! ## Calls -/

inductive Call (L : h.Lawful δ)
  | work (w : L.Work)
  | begin
  | savepoint
  | rollback
  | rollbackTo (token : String)
  | release (token : String)
  | commit

variable {L : h.Lawful δ}

namespace Call

/-- The outcome without a text, and the state after it. -/
def silent (x : Except Error Unit × σ) : Except Error String × σ := (x.1.map fun () => "", x.2)

/-- What a call does. Only a savepoint gives a text, its token. -/
def perform : L.Call → σ → Except Error String × σ
  | .work w, s => (.ok "", w.act s)
  | .begin, s => silent (h.begin s)
  | .savepoint, s => h.savepoint s
  | .rollback, s => silent (h.rollback s)
  | .rollbackTo token, s => silent (h.rollbackTo token s)
  | .release token, s => silent (h.release token s)
  | .commit, s => silent (h.commit s)

/-- The event that a call stands for, by what it gives and leaves. -/
def event : L.Call → Except Error String × σ → Event δ
  | .work _, x => .write (L.view x.2).rows
  | .begin, _ => .begin
  | .savepoint, x => .savepoint (tokenOf x.1)
  | .rollback, _ => .rollback
  | .rollbackTo token, _ => .rollbackTo token
  | .release token, _ => .release token
  | .commit, _ => .commit

/-- Whether a call strands: it ends the outermost savepoint, and the engine refuses its statement
for a cause that passes. -/
def Strands : L.Call → σ → Prop
  | .rollbackTo token, s => h.Strands "rollback to" token s
  | .release token, s => h.Strands "release" token s
  | _, _ => False

def after (cs : List L.Call) (s : σ) : σ := cs.foldl (fun s c => (c.perform s).2) s

theorem after_cons (c : L.Call) (cs : List L.Call) (s : σ) :
    after (c :: cs) s = after cs (c.perform s).2 := rfl

theorem after_append (as bs : List L.Call) (s : σ) : after (as ++ bs) s = after bs (after as s) :=
  List.foldl_append

theorem after_concat (cs : List L.Call) (c : L.Call) (s : σ) :
    after (cs ++ [c]) s = (c.perform (after cs s)).2 := after_append cs [c] s

theorem silent_ends {e : Event δ} {s : σ} {x : Except Error Unit × σ}
    (hx : L.Ends e s x.1.isOk x.2) : L.Ends e s (silent x).1.isOk (silent x).2 := by
  obtain ⟨y, t⟩ := x
  cases y <;> exact hx

theorem perform_ends {s : σ} (hb : L.Balanced s) (c : L.Call) (hstr : ¬ c.Strands s) :
    L.Ends (c.event (c.perform s)) s (c.perform s).1.isOk (c.perform s).2 := by
  cases c with
  | work w => exact work_ends hb w
  | begin => exact silent_ends (begin_ends hb)
  | savepoint => exact savepoint_ends hb
  | rollback => exact silent_ends (rollback_ends hb)
  | rollbackTo token => exact silent_ends (rollbackTo_ends hb hstr)
  | release token => exact silent_ends (release_ends hb hstr)
  | commit => exact silent_ends (commit_ends hb)

theorem perform_balanced {s : σ} (hb : L.Balanced s) (c : L.Call) (hstr : ¬ c.Strands s) :
    L.Balanced (c.perform s).2 := (perform_ends hb c hstr).balanced

theorem perform_of_strands {s : σ} (hr : L.ready s) {c : L.Call} (hstr : c.Strands s) :
    h.depth (c.perform s).2 = 0 ∧ L.view (c.perform s).2 = L.view s := by
  cases c with
  | rollbackTo token =>
    obtain ⟨e, t, hx, hd, hv⟩ := endSavepoint_of_strands (c := .rollbackTo token) hr rfl id hstr
    have hne : ¬ token.isEmpty = true := by
      intro he
      rw [String.isEmpty_iff.mp he] at hstr
      exact nomatch hstr.1
    have : h.rollbackTo token s = (.error e, t) := by
      unfold TransactionHost.rollbackTo
      rw [if_neg hne, Action.bind_error hx]
    show h.depth (silent (h.rollbackTo token s)).2 = 0 ∧
      L.view (silent (h.rollbackTo token s)).2 = _
    rw [this]
    exact ⟨hd, hv⟩
  | release token =>
    obtain ⟨e, t, hx, hd, hv⟩ := endSavepoint_of_strands (c := .release token) hr rfl id hstr
    show h.depth (silent (h.release token s)).2 = 0 ∧ L.view (silent (h.release token s)).2 = _
    rw [show h.release token s = (.error e, t) from hx]
    exact ⟨hd, hv⟩
  | _ => exact hstr.elim

end Call

/-! ## The depth of a run -/

/-- Nothing is open, neither to the depth nor to the engine. -/
structure Idle (L : h.Lawful δ) (s : σ) : Prop where
  ready : L.ready s
  depth : h.depth s = 0
  closed : L.view s = (L.view s).closed

theorem Idle.balanced {s : σ} (hi : L.Idle s) : L.Balanced s := by
  refine ⟨hi.ready, hi.closed ▸ Nesting.sound_closed, ?_⟩
  rw [hi.depth, hi.closed, Nesting.frames_closed, List.length_nil]

/-- The depth tells whether the engine has a transaction open. -/
def Tells (L : h.Lawful δ) (s : σ) : Prop := 0 < h.depth s ↔ (L.view s).isOpen = true

theorem Balanced.tells {s : σ} (hb : L.Balanced s) : L.Tells s := by
  unfold Tells
  rw [hb.depth, hb.sound.isOpen_iff]

namespace Call

variable {s : σ}

theorem balanced_after (hb : L.Balanced s) (cs : List L.Call)
    (hstr : ∀ p c, p ++ [c] <+: cs → ¬ c.Strands (after p s)) : L.Balanced (after cs s) := by
  induction cs using List.reverseRecOn with
  | nil => exact hb
  | append_singleton cs c ih =>
    rw [after_concat]
    refine perform_balanced (ih fun p d hp => hstr p d ?_) c (hstr cs c (List.prefix_refl _))
    exact hp.trans (List.prefix_append cs [c])

theorem not_strands_of_steady (hr : L.ready s) (hst : L.Steady) (c : L.Call) : ¬ c.Strands s := by
  have hno : ∀ {verb token : String} {c : Control}, c.text = verb ++ " " ++ token →
      (Token.Formed token → c.Formed) → ¬ h.Strands verb token s := by
    rintro verb token c hct hform ⟨hd, -, e, t, hx, he⟩
    have hform := hform (Token.formed_of_depth? hd)
    have hr0 := L.ready_setDepth (d := 0) hr
    have ha := L.answers hform hr0
    rw [hct, hx] at ha
    obtain ⟨-, htr, -⟩ := ha
    have hok := hst _ _ hform hr0 (htr ▸ he)
    rw [hct, hx] at hok
    cases hok
  cases c with
  | rollbackTo token => exact hno (c := .rollbackTo token) rfl id
  | release token => exact hno (c := .release token) rfl id
  | _ => exact id

/-- A call strands where the depth stops telling what is open, and nowhere else. -/
theorem tells_iff (hb : L.Balanced s) (cs : List L.Call) : (∀ p, p <+: cs → L.Tells (after p s)) ↔
    ∀ p c, p ++ [c] <+: cs → ¬ c.Strands (after p s) := by
  constructor
  · intro htells
    induction cs using List.reverseRecOn with
    | nil =>
      intro p c hp
      exact absurd (List.prefix_nil.mp hp) (List.append_ne_nil_of_right_ne_nil p (List.cons_ne_nil c []))
    | append_singleton cs d ih =>
      have hstr := ih fun p hp => htells p (hp.trans (List.prefix_append cs [d]))
      intro p c hp
      rcases List.prefix_concat_iff.mp hp with heq | hp
      · -- the last call: before it the depth told the truth, after it the transaction is stranded
        obtain ⟨rfl, hcd⟩ := List.append_inj' heq rfl
        obtain rfl : c = d := List.head_eq_of_cons_eq hcd
        intro hs
        have hbal := balanced_after hb p hstr
        have hdeep : 0 < h.depth (after p s) := by
          cases c with
          | rollbackTo token => exact hs.2.1
          | release token => exact hs.2.1
          | _ => exact hs.elim
        obtain ⟨hd, hv⟩ := perform_of_strands hbal.ready hs
        have hafter := htells (p ++ [c]) (List.prefix_refl _)
        rw [after_concat] at hafter
        unfold Tells at hafter
        rw [hd, hv] at hafter
        exact absurd (hafter.mpr (hbal.tells.mp hdeep)) (Nat.lt_irrefl 0)
      · exact hstr p c hp
  · intro hstr p hp
    exact (balanced_after hb p fun q c hq => hstr q c (hq.trans hp)).tells

end Call

/-! ## The rows of a run -/

namespace Call

variable {s : σ}

def history : List L.Call → σ → List (Event δ × Bool)
  | [], _ => []
  | c :: cs, s => (c.event (c.perform s), (c.perform s).1.isOk) :: history cs (c.perform s).2

/-- One call of a steady host takes the step of its event. -/
theorem perform_step (hst : L.Steady) (hb : L.Balanced s) (c : L.Call) :
    (c.perform s).1.isOk = ((L.view s).snapshots.apply (c.event (c.perform s))).isSome ∧
      L.Balanced (c.perform s).2 ∧
      (L.view (c.perform s).2).snapshots = (L.view s).snapshots.step (c.event (c.perform s)) := by
  have hx := perform_ends hb c (not_strands_of_steady hb.ready hst c)
  generalize (c.perform s).1.isOk = ok at hx
  cases hx with
  | done ha hb' hm => exact ⟨by rw [ha]; rfl, hb', by rw [Snapshots.step, ha, hm]; rfl⟩
  | rejected ha hb' hv => exact ⟨by rw [ha]; rfl, hb', by rw [Snapshots.step, ha, hv]; rfl⟩
  | unwound hn _ _ => exact absurd hst hn

/-- Some calls take the steps of their events, and succeed where these are possible. -/
theorem after_run (hst : L.Steady) (hb : L.Balanced s) (cs : List L.Call) :
    history cs s = (L.view s).snapshots.replay ((history cs s).map Prod.fst) ∧
      L.Balanced (after cs s) ∧
      (L.view (after cs s)).snapshots = (L.view s).snapshots.run ((history cs s).map Prod.fst) := by
  induction cs generalizing s with
  | nil => exact ⟨rfl, hb, rfl⟩
  | cons c cs ih =>
    obtain ⟨hok, hb', hm⟩ := perform_step hst hb c
    obtain ⟨hh, hba, hma⟩ := ih hb'
    refine ⟨?_, hba, ?_⟩
    · rw [history, List.map_cons, Snapshots.replay, ← hm, ← hh, hok]
    · rw [after_cons, hma, hm]
      rfl

/-- Calls that start with nothing open, on an engine that refuses nothing that it could do, move a
stack of snapshots: each succeeds if its event is possible; after them the depth is the number of
frames, the rows are those of the stack, and the open savepoints are those of the frames, named by
consecutive depths from the first one on. -/
theorem refines_snapshots (hst : L.Steady) (hi : L.Idle s) (cs : List L.Call) :
    let es := (history cs s).map Prod.fst
    let m := Snapshots.run { rows := (L.view s).rows } es
    let t := after cs s
    history cs s = Snapshots.replay { rows := (L.view s).rows } es ∧
      h.depth t = m.frames.length ∧ (L.view t).rows = m.rows ∧
      (L.view t).names = m.frames.filterMap Frame.token ∧
      ∀ i < (L.view t).names.length, ∃ nonce,
        (L.view t).names.reverse[i]? = some (Token.text nonce (m.base + i)) := by
  intro es m t
  obtain ⟨hh, hb, hm⟩ := after_run hst hi.balanced cs
  have hstart : (L.view s).snapshots = { rows := (L.view s).rows } := by
    rw [hi.closed]
    rfl
  rw [hstart] at hh hm
  refine ⟨hh, ?_, congrArg Snapshots.rows hm, ?_, fun i hlt => ?_⟩
  · rw [hb.depth]
    exact congrArg (fun m => m.frames.length) hm
  · rw [← Nesting.Sound.filterMap_token_frames]
    exact congrArg (fun m => m.frames.filterMap Frame.token) hm
  · obtain ⟨nonce, hnonce⟩ := hb.sound.numbered.getElem_reverse hlt
    refine ⟨nonce, hnonce.trans ?_⟩
    rw [← hb.sound.base_snapshots, hm]

/-- A transaction with two savepoints, of which the inner one is rolled back. -/
theorem refines_snapshots_fresh :
    let cs : List (Session.lawful true).Call := [.begin, .work (Session.stamp true 1), .savepoint,
      .work (Session.stamp true 2), .savepoint, .work (Session.stamp true 3), .rollbackTo "S1D2"]
    let L := Session.lawful true
    Session.fresh.Usable true ∧ Session.host.depth (after cs Session.fresh) = 2 ∧
      (L.view (after cs Session.fresh)).rows.userVersion = 2 ∧
      (L.view (after cs Session.fresh)).names = ["S0D1"] := by
  intro cs L
  obtain ⟨-, hd, hr, hn, -⟩ := refines_snapshots Session.steady_lawful
    (s := Session.fresh) ⟨Session.usable_fresh, rfl, rfl⟩ cs
  refine ⟨Session.usable_fresh, ?_, ?_, ?_⟩
  · rw [hd]
    decide +kernel
  · rw [hr]
    decide +kernel
  · rw [hn]
    decide +kernel

end Call

/-! ## Programs of calls -/

/-- A program of calls that goes on as their outcomes tell it. `inside` runs a body in a savepoint,
which is released if the body comes to its end, and rolled back to otherwise. -/
inductive Routine (L : h.Lawful δ)
  | finish (outcome : Except Interruption Unit)
  | call (c : L.Call) (next : Except Error String → Routine L)
  | inside (body : Routine L) (next : Except Interruption Unit → Routine L)

namespace Routine

def run : L.Routine → ExceptT Interruption (StateM σ) Unit
  | .finish outcome => fun s => (outcome, s)
  | .call c next => fun s => (next (c.perform s).1).run (c.perform s).2
  | .inside body next => fun s => (next (h.run body.run s).1).run (h.run body.run s).2

/-- The call that ends the savepoint of a body. -/
def closing (token : String) : Except Interruption Unit → L.Call
  | .ok () => .release token
  | .error _ => .rollbackTo token

/-- The calls that a program makes from a state on, those around and in its bodies included. -/
def calls : L.Routine → σ → List L.Call
  | .finish _, _ => []
  | .call c next, s => c :: (next (c.perform s).1).calls (c.perform s).2
  | .inside body next, s =>
    (match h.savepoint s with
      | (.error _, _) => [.savepoint]
      | (.ok token, t) => .savepoint :: (body.calls t ++ [closing token (body.run t).1])) ++
      (next (h.run body.run s).1).calls (h.run body.run s).2

/-- The calls of a body in a savepoint, with the calls around it. -/
theorem run_inside (body : L.Routine) (hbody : ∀ t, (body.run t).2 = Call.after (body.calls t) t)
    (s : σ) : (h.run body.run s).2 = Call.after (match h.savepoint s with
      | (.error _, _) => [.savepoint]
      | (.ok token, t) => .savepoint :: (body.calls t ++ [closing token (body.run t).1])) s := by
  rcases hs : h.savepoint s with ⟨e | token, t⟩
  · show _ = (h.savepoint s).2
    unfold TransactionHost.run runWith
    simp only [hs]
  · show _ = Call.after (body.calls t ++ [_]) (h.savepoint s).2
    rw [hs, Call.after_concat, ← hbody t]
    unfold TransactionHost.run runWith
    rcases hx : body.run t with ⟨e | u, t'⟩
    · simp only [hs, hx]
      rfl
    · simp only [hs, hx]
      show _ = (h.release token t').2
      rcases h.release token t' with ⟨e | v, u'⟩
      · rfl
      · rfl

/-- A program runs as its calls do, one after the other. -/
theorem run_eq_after (r : L.Routine) (s : σ) : (r.run s).2 = Call.after (r.calls s) s := by
  induction r generalizing s with
  | finish outcome => rfl
  | call c next ih => exact ih _ _
  | inside body next ihb ihn =>
    show ((next _).run _).2 = Call.after (_ ++ _) s
    rw [Call.after_append, ← run_inside body ihb, ihn]

/-- After every call of a run that starts with nothing open, the depth is positive exactly if the
engine has a transaction open, if and only if no call of the run strands. -/
theorem deep_iff_open_iff {s : σ} (hi : L.Idle s) (r : L.Routine) :
    (∀ p, p <+: r.calls s →
      (0 < h.depth (Call.after p s) ↔ (L.view (Call.after p s)).isOpen = true)) ↔
    ∀ p c, p ++ [c] <+: r.calls s → ¬ c.Strands (Call.after p s) :=
  Call.tells_iff hi.balanced (r.calls s)

/-- A body that ends its own savepoint and then fails, on a session that is alone. -/
theorem deep_iff_open_fresh :
    let r : (Session.lawful true).Routine :=
      .inside (.call .savepoint fun _ => .call (.work (Session.stamp true 1)) fun _ =>
        .call (.release "S0D0") fun _ => .finish (.error .panic)) fun _ => .finish (.ok ())
    Session.fresh.Usable true ∧ (r.calls Session.fresh).length = 5 ∧ ∀ p,
    p <+: r.calls Session.fresh →
      (0 < Session.host.depth (Call.after p Session.fresh) ↔
        ((Session.lawful true).view (Call.after p Session.fresh)).isOpen = true) := by
  intro r
  have hi : (Session.lawful true).Idle Session.fresh := ⟨Session.usable_fresh, rfl, rfl⟩
  refine ⟨Session.usable_fresh, by decide +kernel, (deep_iff_open_iff hi r).mpr fun p c _ => ?_⟩
  exact Call.not_strands_of_steady (Call.after_run Session.steady_lawful hi.balanced p).2.1.ready
    Session.steady_lawful c

/-- Not every run keeps it so: while another connection is reading, the release of the outermost
savepoint is refused, and the transaction stays open with the depth zero. -/
theorem not_always_deep_iff_open :
    ¬ ∀ {σ δ : Type} {h : TransactionHost σ} {L : h.Lawful δ} {s : σ},
    L.Idle s → ∀ (r : L.Routine) p, p <+: r.calls s →
      (0 < h.depth (Call.after p s) ↔ (L.view (Call.after p s)).isOpen = true) := by
  intro hall
  let cs : List (Session.lawful false).Call :=
    [.savepoint, .work (Session.stamp false 1), .release "S0D0"]
  have hi : (Session.lawful false).Idle Session.watched := ⟨Session.usable_watched, rfl, rfl⟩
  have htells := hall hi (.call .savepoint fun _ => .call (.work (Session.stamp false 1)) fun _ =>
    .call (.release "S0D0") fun _ => .finish (.ok ())) cs (List.prefix_refl _)
  have hdepth : ¬ 0 < Session.host.depth (Call.after cs Session.watched) := by decide +kernel
  have hopen : ((Session.lawful false).view (Call.after cs Session.watched)).isOpen = true := by
    decide +kernel
  exact hdepth (htells.mpr hopen)

end Routine

end TransactionHost.Lawful

end RecordMapper
