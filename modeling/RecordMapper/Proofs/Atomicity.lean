import RecordMapper.Proofs.Enclosing
import RecordMapper.Proofs.Inserting

/-!
# All or nothing

A body inside a savepoint is kept or undone as a whole, and so are records that are stored together.

1. `Lawful.first`: a lawful host beside another state is lawful.
2. `Session.insertEach_stays` and `Session.updateEach_stays`: storing records one after the
   other stays in the transaction that is open, unless a full table has made the engine end it
   with its rows.
3. `Session.all_or_nothing`: the bodies on a session that is alone.
-/

namespace RecordMapper

/-! ## A host beside another state -/

namespace TransactionHost

variable {σ τ δ : Type} {h : TransactionHost σ}

/-- The state beside does not matter to transactions. -/
def Lawful.first (L : h.Lawful δ) (τ : Type) : (h.first (τ := τ)).Lawful δ where
  view s := L.view s.1
  ready s := L.ready s.1
  depth_setDepth d s := L.depth_setDepth d s.1
  view_setDepth d s := L.view_setDepth d s.1
  ready_setDepth hr := L.ready_setDepth hr
  depth_nonce s := L.depth_nonce s.1
  view_nonce s := L.view_nonce s.1
  ready_nonce hr := L.ready_nonce hr
  depth_execute hc hr := L.depth_execute hc hr
  ready_execute hc hr := L.ready_execute hc hr
  answers hc hr := L.answers hc hr

theorem Lawful.Steady.first {L : h.Lawful δ} (hst : L.Steady) : (L.first τ).Steady :=
  fun c s hc hr hf => hst c s.1 hc hr hf

theorem Lawful.Balanced.first {L : h.Lawful δ} {s : σ} (hb : L.Balanced s) (r : τ) :
    (L.first τ).Balanced (s, r) := ⟨hb.ready, hb.sound, hb.depth⟩

end TransactionHost

namespace Session

open RecordMapper.Action TransactionHost

variable {alone : Bool} {s t : Session}

/-! ## Records one after the other -/

/-- A session that has stayed in its transaction, unless the steps have failed on a full table and
the engine has rolled all back. -/
def StaysUnlessFull {α : Type} (alone : Bool) (s : Session) (x : Except Error α)
    (t : Session) : Prop :=
  Stays alone s t ∨
    x = .error (.ofFault .full) ∧ t.Usable alone ∧ s.nesting.follow .rollback = some t.nesting

namespace StaysUnlessFull

variable {α β : Type} {e : Error}

theorem of_ok {a : α} (h : StaysUnlessFull alone s (.ok a) t) : Stays alone s t :=
  h.resolve_right fun hfull => nomatch hfull.1

theorem passed (h : StaysUnlessFull alone s (.error e : Except Error α) t) :
    StaysUnlessFull alone s (.error e : Except Error β) t :=
  h.imp_right fun ⟨he, hfull⟩ => ⟨by cases he; rfl, hfull⟩

theorem after {x : Except Error α} {u : Session} (h : Stays alone s t)
    (h' : StaysUnlessFull alone t x u) : StaysUnlessFull alone s x u := by
  refine h'.imp h.trans fun ⟨he, hu, hf⟩ => ⟨he, hu, ?_⟩
  rw [← hf, Nesting.follow, Nesting.follow, h.opening]

end StaysUnlessFull

theorem Changes.stays {α : Type} {x : Except Error α} (h : Changes alone s x t) :
    StaysUnlessFull alone s x t := by
  cases h with
  | done ht => exact .inl ht
  | failed ht _ => exact .inl ht
  | ended hu _ hf => exact .inr ⟨rfl, hu, hf⟩

theorem insertWith_stays (hs : s.Usable alone) (d : Declaration) (mode : InsertMode) (r : Record) :
    StaysUnlessFull alone s (insertWith d mode (s, r)).1 (insertWith d mode (s, r)).2.1 := by
  have hc := (storing_changes hs d mode r).stays
  rcases hx : storing d mode (s, r) with ⟨e | ⟨m, n⟩, t, r₁⟩
  · rw [insertWith_eq, bind_error hx]
    rw [hx] at hc
    exact hc.passed
  · rw [hx] at hc
    rw [(insertWith_of_stored hx).1]
    exact .inl hc.of_ok

theorem insertEach_cons (d : Declaration) (r : Record) (rest done : List Record) (s : Session) :
    insertEach d (r :: rest) (s, done) =
      match insert d (s, r) with
      | (.error e, t, r') => (.error e, t, done ++ r' :: rest)
      | (.ok n, t, r') =>
        ((insertEach d rest (t, done ++ [r'])).1.map (n + ·), (insertEach d rest (t, done ++ [r'])).2) := by
  rw [insertEach, get_bind]
  dsimp only
  generalize insert d (s, r) = inserted
  obtain ⟨e | n, t, r'⟩ := inserted
  · rfl
  · show (insertEach d rest >>= fun more => pure (n + more)) (t, done ++ [r']) = _
    rcases hx : insertEach d rest (t, done ++ [r']) with ⟨e | k, u⟩
    · rw [bind_error hx]
      simp only [hx]
      rfl
    · rw [bind_ok hx]
      simp only [hx]
      rfl

/-- Records are inserted one after the other; what is inserted before the first failure stays. -/
theorem insertEach_stays (hs : s.Usable alone) (d : Declaration) (records done : List Record) :
    StaysUnlessFull alone s (insertEach d records (s, done)).1 (insertEach d records (s, done)).2.1 := by
  induction records generalizing s done with
  | nil => exact .inl (.refl hs)
  | cons r rest ih =>
    have hi := insertWith_stays hs d .plain r
    rw [insertEach_cons, insert]
    generalize insertWith d .plain (s, r) = inserted at hi
    obtain ⟨e | n, t, r'⟩ := inserted
    · exact hi
    · have ht := hi.of_ok
      have hrest := ih ht.usable (done ++ [r'])
      dsimp only at hrest ⊢
      generalize insertEach d rest (t, done ++ [r']) = others at hrest ⊢
      obtain ⟨e | k, u⟩ := others
      · exact .after ht hrest.passed
      · exact .inl (ht.trans hrest.of_ok)

theorem update_stays (hs : s.Usable alone) (d : Declaration) (r : Record) :
    StaysUnlessFull alone s (update d r s).1 (update d r s).2 := by
  have hmapping := quiet_mapping d s
  rcases hm : mapping d s with ⟨e | m, s₁⟩
  · rw [show update d r s = (.error e, s₁) from bind_error hm]
    rw [hm] at hmapping
    exact .inl (hmapping.stays hs)
  rw [hm] at hmapping
  have hs₁ := hmapping.stays hs
  rw [show update d r s = _ from bind_ok hm]
  cases m.key? with
  | none => exact .inl hs₁
  | some key =>
    dsimp only
    cases m.valuesOf (m.updateColumns ++ [key]) r with
    | error e => exact .inl hs₁
    | ok values =>
      rw [ok_bind, mapError_apply]
      have hx := (executeText_changes (m.stores_updateStatement key) hs₁.usable values).stays
      generalize executeText (m.updateStatement key) values s₁ = executed at hx
      obtain ⟨e | n, t⟩ := executed
      · refine .after hs₁ (hx.imp_right fun ⟨he, hfull⟩ => ⟨?_, hfull⟩)
        cases he
        rfl
      · exact .inl (hs₁.trans hx.of_ok)

theorem updateEach_stays (hs : s.Usable alone) (d : Declaration) (records : List Record) :
    StaysUnlessFull alone s (updateEach d records s).1 (updateEach d records s).2 := by
  induction records generalizing s with
  | nil => exact .inl (.refl hs)
  | cons r rest ih =>
    have hu := update_stays hs d r
    rw [updateEach]
    rcases hx : update d r s with ⟨e | n, t⟩
    · rw [bind_error hx]
      rw [hx] at hu
      exact hu.passed
    · rw [bind_ok hx]
      rw [hx] at hu
      have ht := hu.of_ok
      have hrest := ih ht.usable
      rcases hy : updateEach d rest t with ⟨e | k, u⟩
      · rw [bind_error hy]
        rw [hy] at hrest
        exact (hrest.passed).after ht
      · rw [bind_ok hy]
        rw [hy] at hrest
        exact .inl (ht.trans hrest.of_ok)

/-! ## Bodies in a savepoint -/

/-- What has stayed in its transaction keeps the frames. -/
theorem Stays.balanced (hs : (lawful true).Balanced s) (h : Stays true s t) :
    (lawful true).Balanced t ∧ t.nesting.frames = s.nesting.frames := by
  obtain ⟨hsound, hframes⟩ := hs.sound.frames_congr h.opening h.savepoints
  exact ⟨⟨h.usable, hsound, h.depth.trans (hs.depth.trans (congrArg List.length hframes.symm))⟩, hframes⟩

theorem content_of_closed (hs : s.Usable alone) (h : s.nesting.opening = none) :
    s.storage.content = s.nesting.rows := by
  obtain ⟨link, hl, hsane, -⟩ := hs
  rw [nesting_of_link hl] at h ⊢
  have hopening : link.opening = none := Option.map_eq_none_iff.mp h
  exact (hsane.content_eq hopening).symm

theorem run_atomic (hb : (lawful true).Balanced s) (hd : s.depth ≤ Token.maxDepth)
    (body : (lawful true).Routine)
    (hbody : body.Spares (host.savepoint s).2.nesting.frames (host.savepoint s).2) :
    let ran := body.run (host.savepoint s).2
    let left := host.run body.run s
    left.1 = ran.1 ∧ left.2.depth = s.depth ∧ left.2.nesting =
      { s.nesting with rows := if ran.1.isOk then ran.2.nesting.rows else s.nesting.rows } ∧
      (s.depth = 0 → left.2.storage.content = left.2.nesting.rows) := by
  intro ran left
  obtain ⟨nonce, t, hs, hbt, -⟩ := Lawful.savepoint_steady steady_lawful hb
  rw [hs] at hbody
  have hbu := Lawful.Routine.balanced_run steady_lawful hbt body
  have hopen := body.suffix_run steady_lawful hbt (List.suffix_refl _) hbody
  have hran : ran = body.run t := congrArg body.run (congrArg Prod.snd hs)
  have hstored : ∀ v : Session, (lawful true).Balanced v → v.nesting.opening = s.nesting.opening →
      s.depth = 0 → v.storage.content = v.nesting.rows := by
    intro v hv ho hzero
    refine content_of_closed hv.ready (ho.trans (hb.sound.frames_eq_nil_iff.mp ?_))
    exact List.length_eq_zero_iff.mp (hb.depth.symm.trans hzero)
  rcases hx : body.run t with ⟨e | u, v⟩
  · rw [hx] at hbu hopen
    obtain ⟨w, hw, hbw, hvw, hdw⟩ :=
      Lawful.runWith_undone .error steady_lawful hb hd hs hx hbu hopen
    have hleft : left = (.error e, w) := hw
    have hvw : w.nesting = s.nesting := hvw
    rw [hran, hx, hleft]
    exact ⟨rfl, hdw, hvw, hstored w hbw (by rw [hvw])⟩
  · rw [hx] at hbu hopen
    obtain ⟨w, hw, hbw, hvw, hdw⟩ := Lawful.runWith_kept .error steady_lawful hb hd hs hx hbu hopen
    have hleft : left = (.ok u, w) := hw
    have hvw : w.nesting = { s.nesting with rows := v.nesting.rows } := hvw
    rw [hran, hx, hleft]
    exact ⟨rfl, hdw, hvw, hstored w hbw (by rw [hvw])⟩

section Steps

variable {σ δ α : Type} {h : TransactionHost σ} {L : h.Lawful δ}

theorem rollbackTo_closed {s : σ} {token : String} (ht : token.isEmpty = false) (hr : L.ready s)
    (hs : (L.view s).savepoints = []) : L.view (h.rollbackTo token s).2 = L.view s := by
  unfold rollbackTo
  rw [ht, if_neg Bool.false_ne_true]
  suffices hends : ∃ e t, h.endSavepoint token "rollback to" s = (.error e, t) ∧
    L.view t = L.view s by
    obtain ⟨e, t, hx, hv⟩ := hends
    rw [bind_error hx]
    exact hv
  rw [endSavepoint_apply]
  cases hd : Token.depth? token with
  | none => exact ⟨_, s, rfl, rfl⟩
  | some target =>
    dsimp only
    by_cases hle : h.depth s ≤ target
    · rw [if_pos hle]
      exact ⟨_, s, rfl, rfl⟩
    · rw [if_neg hle]
      have hnone : (L.view (h.setDepth target s)).follow (.rollbackTo token) = none := by
        rw [L.view_setDepth, Nesting.follow, Nesting.savepointsFrom, hs]
        rfl
      obtain ⟨t, e, -, -, hx, hpasses, hview⟩ := Lawful.execute_none (c := .rollbackTo token)
        (Token.formed_of_depth? hd) (L.ready_setDepth hr) hnone
      rw [show h.execute ("rollback to" ++ " " ++ token) (h.setDepth target s) = (.error e, t) from hx]
      simp only [hpasses]
      exact ⟨e, _, rfl, (L.view_setDepth _ t).trans (hview.trans (L.view_setDepth target s))⟩

/-- Steps inside a savepoint that fail are undone, if they leave the frames as they are. Where
a full table makes the engine roll all back instead, the rows before are found again if
nothing was open. -/
theorem runAction_undone (hst : L.Steady) {s : σ} (hb : L.Balanced s)
    (hd : h.depth s ≤ Token.maxDepth) {body : Action σ α} {e : Error}
    (hbody : ∀ t, L.Balanced t → (L.Balanced (body t).2 ∧
      (L.view (body t).2).frames = (L.view t).frames) ∨ (body t).1 = .error (.ofFault .full) ∧
        L.ready (body t).2 ∧ (L.view t).follow .rollback = some (L.view (body t).2))
    (hfails : (h.runAction body s).1 = .error e) :
    (e ≠ .ofFault .full ∨ h.depth s = 0 → L.view (h.runAction body s).2 = L.view s) ∧
      (e ≠ .ofFault .full → h.depth (h.runAction body s).2 = h.depth s) := by
  obtain ⟨nonce, t, hs, hbt, hview⟩ := Lawful.savepoint_steady hst hb
  rcases hx : body t with ⟨e' | a, u⟩
  · rcases hbody t hbt with ⟨hbu, hframes⟩ | ⟨hfull, hru, hrolled⟩
    · rw [hx] at hbu hframes
      obtain ⟨v, hv, -, hview, hdepth⟩ := Lawful.runWith_undone id hst hb hd hs hx hbu
        (hframes ▸ List.suffix_refl _)
      rw [show h.runAction body s = (.error e', v) from hv]
      exact ⟨fun _ => hview, fun _ => hdepth⟩
    · rw [hx] at hfull hru hrolled
      cases hfull
      -- the body's error is the error of the whole
      have hwhole : h.runAction body s =
          (.error (.ofFault .full), (h.rollbackTo (Token.text nonce (h.depth s)) u).2) := by
        unfold runAction runWith
        simp only [hs, hx]
        rfl
      rw [hwhole] at hfails ⊢
      cases hfails
      refine ⟨fun hzero => ?_, fun hne => absurd rfl hne⟩
      have hnil : (L.view s).frames = [] :=
        List.length_eq_zero_iff.mp (hb.depth.symm.trans (hzero.resolve_left fun hne => hne rfl))
      have hback : L.view u = L.view s := by
        obtain ⟨n, hn, hsound, hm⟩ := hbt.sound.follow_rollback (by
          rw [show (L.view t).frames = _ from congrArg Snapshots.frames hview]
          exact Nat.succ_pos _)
        cases hn.symm.trans hrolled
        refine hsound.eq_of_snapshots hb.sound ?_
        rw [hm, hview, hnil, Nesting.snapshots, hnil]
        rfl
      have hclosed : (L.view u).savepoints = [] := by
        rw [hback]
        exact hb.sound.none_of_closed (hb.sound.frames_eq_nil_iff.mp hnil)
      exact (rollbackTo_closed (Token.isEmpty_text _ _) hru hclosed).trans hback
  · obtain ⟨hbu, hframes⟩ := (hbody t hbt).resolve_right (by rw [hx]; rintro ⟨⟨⟩, -⟩)
    rw [hx] at hbu hframes
    obtain ⟨v, hv, -⟩ := Lawful.runWith_kept id hst hb hd hs hx hbu
      (hframes ▸ List.suffix_refl _)
    rw [show h.runAction body s = (.ok a, v) from hv] at hfails
    cases hfails

end Steps

theorem insertAll_undone (hb : (lawful true).Balanced s) (hd : s.depth ≤ Token.maxDepth)
    {d : Declaration} {records given : List Record} {e : Error}
    (hfails : (insertAll d true records (s, given)).1 = .error e) :
    (e ≠ .ofFault .full ∨ s.depth = 0 →
        (insertAll d true records (s, given)).2.1.nesting = s.nesting) ∧
      (e ≠ .ofFault .full → (insertAll d true records (s, given)).2.1.depth = s.depth) := by
  refine runAction_undone (L := (lawful true).first (List Record)) steady_lawful.first
    (hb.first records) hd (fun t hbt => ?_) hfails
  have hbt : (lawful true).Balanced t.1 := ⟨hbt.ready, hbt.sound, hbt.depth⟩
  rcases insertEach_stays hbt.ready d records [] with hu | hfull
  · obtain ⟨hbu, hframes⟩ := hu.balanced hbt
    exact .inl ⟨hbu.first _, hframes⟩
  · exact .inr hfull

theorem updateAll_undone (hb : (lawful true).Balanced s) (hd : s.depth ≤ Token.maxDepth)
    {d : Declaration} {records : List Record} {e : Error}
    (hfails : (updateAll d true records s).1 = .error e) :
    (e ≠ .ofFault .full ∨ s.depth = 0 → (updateAll d true records s).2.nesting = s.nesting) ∧
      (e ≠ .ofFault .full → (updateAll d true records s).2.depth = s.depth) := by
  refine runAction_undone (L := lawful true) steady_lawful hb hd (fun t hbt => ?_) hfails
  exact (updateEach_stays hbt.ready d records).imp_left fun hu => hu.balanced hbt

/-- **All or nothing.** On a session that is alone, with any transactions open, a program of calls
that is run in a savepoint and ends no frame that was open when it started is kept or undone as a
whole: its outcome is the outcome of the run, the depth and the transaction with all its savepoints
are as before, and so are the rows where it was interrupted, while they are those that it has left
where it came to its end; with nothing open before, they are committed. So records that are inserted
or updated together leave all as it was if one of them fails, unless a full table has made the
engine end a transaction that was open before; with nothing open before, a full table leaves the
rows as they were too. -/
theorem all_or_nothing (hb : (lawful true).Balanced s) (hd : s.depth ≤ Token.maxDepth) :
    (∀ body : (lawful true).Routine,
      body.Spares (host.savepoint s).2.nesting.frames (host.savepoint s).2 →
      let ran := body.run (host.savepoint s).2
      let left := host.run body.run s
      left.1 = ran.1 ∧ left.2.depth = s.depth ∧ left.2.nesting =
        { s.nesting with rows := if ran.1.isOk then ran.2.nesting.rows else s.nesting.rows } ∧
        (s.depth = 0 → left.2.storage.content = left.2.nesting.rows)) ∧
    (∀ (d : Declaration) (records : List Record) (e : Error),
      (insertAll d true records (s, records)).1 = .error e →
      (e ≠ .ofFault .full ∨ s.depth = 0 →
        (insertAll d true records (s, records)).2.1.nesting = s.nesting) ∧
        (e ≠ .ofFault .full → (insertAll d true records (s, records)).2.1.depth = s.depth)) ∧
    ∀ (d : Declaration) (records : List Record) (e : Error),
      (updateAll d true records s).1 = .error e →
      (e ≠ .ofFault .full ∨ s.depth = 0 → (updateAll d true records s).2.nesting = s.nesting) ∧
        (e ≠ .ofFault .full → (updateAll d true records s).2.depth = s.depth) :=
  ⟨fun body => run_atomic hb hd body, fun _ _ _ => insertAll_undone hb hd,
    fun _ _ _ => updateAll_undone hb hd⟩

/-- A program that works, leaves a savepoint open, goes on after a run inside it has panicked, and
panics itself. -/
def restless : (lawful true).Routine :=
  .call (.work (stamp true 2)) fun _ => .call .savepoint fun _ =>
    .inside (.call (.work (stamp true 3)) fun _ => .finish (.error .panic)) fun _ =>
      .finish (.error .panic)

theorem spares_restless {base : List (Frame Database)} (hb : (lawful true).Balanced s)
    (hbase : base <:+ s.nesting.frames) : restless.Spares base s := by
  have step : ∀ {u : Session}, (lawful true).Balanced u → ∀ c : (lawful true).Call,
      (lawful true).Balanced (c.perform u).2 := fun hu c =>
    (Lawful.Call.perform_step steady_lawful hu c).2.1
  have h₁ := step hb (.work (stamp true 2))
  have s₁ := Lawful.Routine.suffix_growing steady_lawful hb hbase (c := .work (stamp true 2))
    (.inl ⟨_, rfl⟩)
  have h₂ := step h₁ .savepoint
  have s₂ := Lawful.Routine.suffix_growing steady_lawful h₁ s₁ (c := .savepoint) (.inr rfl)
  have h₃ := step h₂ .savepoint
  have s₃ := Lawful.Routine.suffix_growing steady_lawful h₂ s₂ (c := .savepoint) (.inr rfl)
  have s₄ := Lawful.Routine.suffix_growing steady_lawful h₃ s₃ (c := .work (stamp true 3))
    (.inl ⟨_, rfl⟩)
  exact ⟨s₁, s₂, ⟨s₄, trivial⟩, trivial⟩

theorem restless_panics (s : Session) : (restless.run s).1 = .error .panic := rfl

theorem counters_of_nesting (h : t.nesting = counted.nesting) : counters t = some 1 := by
  unfold counters
  rw [h]
  rfl

def allOfOne : Except Error Int × Session × List Record :=
  insertAll counter true [⟨"Counter", [.int 0]⟩] (counted, [⟨"Counter", [.int 0]⟩])

def busy : Session := Lawful.Call.after (L := lawful true) [.begin, .work (stamp true 1)] fresh

theorem balanced_busy : (lawful true).Balanced busy :=
  (Lawful.Call.after_run steady_lawful (Lawful.Idle.balanced ⟨usable_fresh, rfl, rfl⟩) _).2.1

theorem balanced_counted : (lawful true).Balanced counted :=
  Lawful.Idle.balanced ⟨usable_counted, rfl, rfl⟩

/-- The engine refuses nothing to the other counter; it is too great for its field. -/
theorem allOfOne_fails : ∃ e, allOfOne.1 = .error e ∧ e ≠ .ofFault .full := by
  have hfails : (match allOfOne.1 with | .error e => some e.code | .ok _ => none) = some none := by
    decide +kernel
  rcases hx : allOfOne.1 with e | n
  · refine ⟨e, rfl, ?_⟩
    rintro rfl
    rw [hx] at hfails
    cases hfails
  · rw [hx] at hfails
    cases hfails

/-- A panic undoes what was done inside an open transaction, and a counter that cannot be read back
is not kept where it is inserted with all or nothing. -/
theorem all_or_nothing_restless :
    busy.depth = 1 ∧ (host.run restless.run busy).1 = .error .panic ∧
      (host.run restless.run busy).2.depth = 1 ∧
      (host.run restless.run busy).2.nesting.rows.userVersion = 1 ∧
      allOfOne.1.toOption = none ∧ counters allOfOne.2.1 = some 1 := by
  have hdepth : busy.depth = 1 := by decide +kernel
  have hrows : busy.nesting.rows.userVersion = 1 := by decide +kernel
  have hopened := (Lawful.Call.perform_step steady_lawful balanced_busy .savepoint).2.1
  obtain ⟨houtcome, hd, hn, -⟩ := (all_or_nothing balanced_busy (by rw [hdepth]; decide)).1 restless
    (spares_restless hopened (List.suffix_refl _))
  obtain ⟨e, he, hne⟩ := allOfOne_fails
  obtain ⟨hundone, -⟩ := (all_or_nothing balanced_counted (Nat.zero_le _)).2.1 counter
    [⟨"Counter", [.int 0]⟩] e he
  have hkept : (host.run restless.run busy).2.nesting.rows = busy.nesting.rows := by
    rw [hn, restless_panics]
    simp only [Except.isOk, Except.toBool, Bool.false_eq_true, if_false]
  have hcounters : counters allOfOne.2.1 = some 1 := by
    unfold allOfOne
    exact counters_of_nesting (hundone (.inl hne))
  exact ⟨hdepth, houtcome.trans (restless_panics _), hd.trans hdepth, by rw [hkept, hrows],
    by rw [he]; rfl, hcounters⟩

end Session

end RecordMapper
