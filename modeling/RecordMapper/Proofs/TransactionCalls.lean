import RecordMapper.Proofs.SessionSteps
import RecordMapper.Proofs.Snapshots

/-!
# What the transaction functions do

The transaction functions on a host whose engine keeps transactions as documented.

1. The functions as case distinctions on what the engine answers.
2. In a `Balanced` state the depth is the height of the stack.
3. `Ends`: a function moves the stack as its event does, or changes nothing where the event is not
   possible. If the engine refuses a statement, all that is open is rolled back, with one exception:
   `Strands`.
-/

namespace RecordMapper

namespace TransactionHost

open RecordMapper.Action

/-! ## The functions by the answers of the engine -/

section Functions

variable {σ : Type} (h : TransactionHost σ)

theorem swap_bind {β} (d : Nat) (f : Nat → Action σ β) (s : σ) :
    (h.swapDepth d >>= f) s = f (h.depth s) (h.setDepth d s) := (rfl)

theorem forceRollback_apply (s : σ) :
    h.forceRollback s = (.ok (), (h.execute "rollback" (h.setDepth 0 s)).2) := (rfl)

theorem quietRollback_apply (s : σ) : h.quietRollback s =
    if 0 < h.depth s then h.forceRollback s else (.ok (), h.setDepth 0 s) := by
  unfold quietRollback
  rw [swap_bind]
  split
  · rfl
  · rfl

theorem recoverOpening_apply (e : Error) (s : σ) : h.recoverOpening e s =
    if e.isTransient then h.quietRollback s else (.ok (), h.setDepth (h.depth s - 1) s) := by
  unfold recoverOpening
  split
  · rfl
  · rfl

theorem quietRollback_ok (s : σ) : h.quietRollback s = (.ok (), (h.quietRollback s).2) := by
  rw [quietRollback_apply]
  split
  · rw [forceRollback_apply]
  · rfl

theorem recoverOpening_ok (e : Error) (s : σ) :
    h.recoverOpening e s = (.ok (), (h.recoverOpening e s).2) := by
  rw [recoverOpening_apply]
  split
  · rw [← quietRollback_ok]
  · rfl

theorem opening_apply (text : String) (s : σ) : h.opening text s =
    match h.execute text s with
    | (.ok (), t) => (.ok (), t)
    | (.error e, t) => (.error e, (h.recoverOpening e t).2) := by
  unfold opening
  rw [bind_ok (attempt_apply _ _)]
  rcases h.execute text s with ⟨e | u, t⟩
  · show (h.recoverOpening e >>= fun _ => throw e) t = (.error e, (h.recoverOpening e t).2)
    rw [bind_ok (h.recoverOpening_ok e t), throw_apply]
  · rfl

theorem savepoint_apply (s : σ) : h.savepoint s =
    match h.nonce (h.setDepth (h.depth s + 1) s) with
    | (nonce, t) =>
      match h.opening ("savepoint " ++ Token.text nonce (h.depth s)) t with
      | (.ok (), u) => (.ok (Token.text nonce (h.depth s)), u)
      | (.error e, u) => (.error e, u) := by
  unfold savepoint
  rw [get_bind, swap_bind, modifyGet_bind]
  rcases h.nonce (h.setDepth (h.depth s + 1) s) with ⟨nonce, t⟩
  simp only
  rcases hx : h.opening ("savepoint " ++ Token.text nonce (h.depth s)) t with ⟨e | u, u'⟩
  · rw [bind_error hx]
  · rw [bind_ok hx, pure_apply]

theorem orForceRollback_apply (text : String) (s : σ) : h.orForceRollback text s =
    match h.execute text s with
    | (.ok (), t) => (.ok (), t)
    | (.error e, t) => (.error e, (h.forceRollback t).2) := by
  unfold orForceRollback
  rw [bind_ok (attempt_apply _ _)]
  rcases h.execute text s with ⟨e | u, t⟩
  · show (h.forceRollback >>= fun _ => throw e) t = (.error e, (h.forceRollback t).2)
    rw [bind_ok (h.forceRollback_apply t), throw_apply, forceRollback_apply]
  · rfl

theorem endSavepoint_apply (token verb : String) (s : σ) : h.endSavepoint token verb s =
    match Token.depth? token with
    | none => (.error (.transaction (.badToken token)), s)
    | some target =>
      if h.depth s ≤ target then (.error (.transaction (.badToken token)), s)
      else
        match h.execute (verb ++ " " ++ token) (h.setDepth target s) with
        | (.ok (), t) => (.ok (), t)
        | (.error e, t) =>
          (.error e, if e.isTransient then (h.quietRollback t).2 else h.setDepth (h.depth s) t) := by
  unfold endSavepoint
  rw [get_bind]
  cases Token.depth? token with
  | none => rfl
  | some target =>
    by_cases hd : h.depth s ≤ target
    · simp only [if_pos hd]
      rfl
    · simp only [if_neg hd]
      show (h.swapDepth target >>= _) s = _
      rw [swap_bind, bind_ok (attempt_apply _ _)]
      rcases h.execute (verb ++ " " ++ token) (h.setDepth target s) with ⟨e | u, t⟩
      · simp only
        split
        · rw [bind_ok (h.quietRollback_ok t), throw_apply]
        · rw [swap_bind, throw_apply]
      · rfl

end Functions

/-! ## Balance -/

section Balance

variable {σ δ : Type} {h : TransactionHost σ} (L : h.Lawful δ)

/-- The depth is the height of the stack that the engine's transaction stands for. -/
structure Lawful.Balanced (s : σ) : Prop where
  ready : L.ready s
  sound : (L.view s).Sound
  depth : h.depth s = (L.view s).frames.length

/-- How a function that is to do an event may end: the stack moves as it should, or nothing changes
as the event is not possible, or the engine has refused a statement and all is rolled back. -/
inductive Lawful.Ends (e : Event δ) (s : σ) : Bool → σ → Prop
  | done {m : Snapshots δ} {t : σ} : (L.view s).snapshots.apply e = some m → L.Balanced t →
      (L.view t).snapshots = m → Ends e s true t
  | rejected {t : σ} : (L.view s).snapshots.apply e = none → L.Balanced t → L.view t = L.view s →
      Ends e s false t
  | unwound {t : σ} : ¬ L.Steady → L.Balanced t →
      (L.view t).snapshots = (L.view s).snapshots.restored → Ends e s false t

/-- Ending the outermost savepoint is refused for a cause that passes. The depth is zero by then, so
that nothing is rolled back although the transaction is open. -/
def Strands (verb token : String) (s : σ) : Prop :=
  Token.depth? token = some 0 ∧ 0 < h.depth s ∧
    ∃ e t, h.execute (verb ++ " " ++ token) (h.setDepth 0 s) = (.error e, t) ∧ e.isTransient = true

namespace Lawful

variable {L} {s : σ} {c : Control}

theorem balanced_setDepth {s : σ} {d : Nat} (hr : L.ready s) (hs : (L.view s).Sound)
    (hd : d = (L.view s).frames.length) : L.Balanced (h.setDepth d s) :=
  ⟨L.ready_setDepth hr, by rwa [L.view_setDepth], by rwa [L.depth_setDepth, L.view_setDepth]⟩

/-- A statement about something that is open is followed, or refused for a cause that passes. -/
theorem execute_some {n : Nesting δ} (hc : c.Formed) (hr : L.ready s)
    (hf : (L.view s).follow c = some n) : ∃ t, L.ready t ∧ h.depth t = h.depth s ∧
      ((h.execute c.text s = (.ok (), t) ∧ L.view t = n) ∨
        ∃ e, h.execute c.text s = (.error e, t) ∧ e.isTransient = true ∧ L.view t = L.view s ∧
          c ≠ .rollback ∧ ¬ L.Steady) := by
  have ha := L.answers hc hr
  have hst : (h.execute c.text s).1 ≠ .ok () → ¬ L.Steady := fun hne hs =>
    hne (hs c s hc hr (by rw [hf]; rfl))
  refine ⟨(h.execute c.text s).2, L.ready_execute hc hr, L.depth_execute hc hr, ?_⟩
  rcases hx : h.execute c.text s with ⟨e | u, t⟩
  · rw [hx] at ha hst
    obtain ⟨hv, htr, hrb⟩ := ha
    rw [hf] at htr hrb
    refine Or.inr ⟨e, rfl, htr, hv, fun hcr => ?_, hst nofun⟩
    cases hrb hcr
  · rw [hx] at ha
    exact Or.inl ⟨rfl, Option.some.inj (ha.symm.trans hf)⟩

/-- A statement about nothing that is open is refused. -/
theorem execute_none (hc : c.Formed) (hr : L.ready s) (hf : (L.view s).follow c = none) :
    ∃ t e, L.ready t ∧ h.depth t = h.depth s ∧ h.execute c.text s = (.error e, t) ∧
      e.isTransient = false ∧ L.view t = L.view s := by
  have ha := L.answers hc hr
  refine ⟨(h.execute c.text s).2, ?_⟩
  rcases hx : h.execute c.text s with ⟨e | u, t⟩
  · rw [hx] at ha
    obtain ⟨hv, htr, -⟩ := ha
    rw [hf] at htr
    exact ⟨e, hx ▸ L.ready_execute hc hr, hx ▸ L.depth_execute hc hr, rfl, htr, hv⟩
  · rw [hx] at ha
    exact nomatch ha.symm.trans hf

theorem execute_rollback (hr : L.ready s) (hs : (L.view s).Sound)
    (hp : 0 < (L.view s).frames.length) : ∃ t, h.execute "rollback" s = (.ok (), t) ∧ L.ready t ∧
      h.depth t = h.depth s ∧ (L.view t).Sound ∧
      (L.view t).snapshots = (L.view s).snapshots.restored := by
  obtain ⟨n, hf, hn, hm⟩ := hs.follow_rollback hp
  obtain ⟨t, htr, htd, ⟨hx, hv⟩ | ⟨e, -, -, -, hne, -⟩⟩ :=
    execute_some (c := .rollback) trivial hr hf
  · exact ⟨t, hx, htr, htd, hv ▸ hn, hv ▸ hm⟩
  · exact absurd rfl hne

theorem forceRollback_spec (hr : L.ready s) (hs : (L.view s).Sound) :
    L.Balanced (h.forceRollback s).2 ∧
      (L.view (h.forceRollback s).2).snapshots = (L.view s).snapshots.restored := by
  rw [forceRollback_apply]
  have hr0 := L.ready_setDepth (d := 0) hr
  have hv0 := L.view_setDepth 0 s
  by_cases hp : 0 < (L.view s).frames.length
  · obtain ⟨t, hx, htr, htd, hts, hm⟩ := execute_rollback hr0 (by rwa [hv0]) (by rwa [hv0])
    rw [hx, ← hv0]
    refine ⟨⟨htr, hts, ?_⟩, hm⟩
    have : (L.view t).frames = [] := congrArg Snapshots.frames hm
    rw [htd, L.depth_setDepth, this, List.length_nil]
  · have hnil : (L.view s).frames = [] := List.length_eq_zero_iff.mp (by omega)
    have hf : (L.view (h.setDepth 0 s)).follow .rollback = none := by
      rw [hv0, Nesting.follow, hs.frames_eq_nil_iff.mp hnil]
      rfl
    obtain ⟨t, e, htr, htd, hx, -, hv⟩ := execute_none (c := .rollback) trivial hr0 hf
    rw [show h.execute "rollback" (h.setDepth 0 s) = (.error e, t) from hx, hv.trans hv0]
    refine ⟨⟨htr, by rwa [hv, hv0], ?_⟩, (Snapshots.restored_of_frames_nil hnil).symm⟩
    rw [htd, L.depth_setDepth, hv, hv0, hnil, List.length_nil]

theorem Ends.balanced {e : Event δ} {b : Bool} {t : σ} (hx : L.Ends e s b t) : L.Balanced t := by
  cases hx with
  | done _ hb _ => exact hb
  | rejected _ hb _ => exact hb
  | unwound _ hb _ => exact hb

theorem Ends.of_apply_eq {e e' : Event δ} {b : Bool} {t : σ} (hx : L.Ends e s b t)
    (he : (L.view s).snapshots.apply e = (L.view s).snapshots.apply e') : L.Ends e' s b t := by
  cases hx with
  | done ha hb hm => exact .done (he ▸ ha) hb hm
  | rejected ha hb hv => exact .rejected (he ▸ ha) hb hv
  | unwound hst hb hm => exact .unwound hst hb hm

theorem work_ends (hb : L.Balanced s) (w : L.Work) :
    L.Ends (.write (L.view (w.act s)).rows) s true (w.act s) := by
  obtain ⟨hs, hf⟩ := hb.sound.frames_congr (w.opening_act hb.ready) (w.savepoints_act hb.ready)
  refine .done rfl ⟨w.ready_act hb.ready, hs, ?_⟩ ?_
  · rw [w.depth_act hb.ready, hf, hb.depth]
  · unfold Nesting.snapshots
    rw [hf]

/-! ### Opening -/

/-- A statement that opens a transaction, run when it is already counted. -/
theorem opening_spec {n : Nesting δ} (hc : c.Formed) (hr : L.ready s)
    (hs : (L.view s).Sound) (hf : (L.view s).follow c = some n) (hd : 0 < h.depth s) :
    (∃ t, h.opening c.text s = (.ok (), t) ∧ L.ready t ∧ h.depth t = h.depth s ∧ L.view t = n) ∨
      ∃ e t, h.opening c.text s = (.error e, t) ∧ ¬ L.Steady ∧ L.Balanced t ∧
        (L.view t).snapshots = (L.view s).snapshots.restored := by
  obtain ⟨t, htr, htd, ⟨hx, hv⟩ | ⟨e, hx, he, hv, -, hst⟩⟩ := execute_some hc hr hf
  · exact Or.inl ⟨t, by rw [opening_apply, hx], htr, htd, hv⟩
  · refine Or.inr ⟨e, _, by rw [opening_apply, hx], hst, ?_⟩
    rw [recoverOpening_apply, he, if_pos rfl, quietRollback_apply, htd, if_pos hd, ← hv]
    exact forceRollback_spec htr (hv ▸ hs)

theorem begin_ends (hb : L.Balanced s) : L.Ends .begin s (h.begin s).1.isOk (h.begin s).2 := by
  unfold begin
  rw [get_bind]
  by_cases hd : h.depth s = 0
  · have hnil : (L.view s).frames = [] := List.length_eq_zero_iff.mp (hb.depth ▸ hd)
    rw [if_neg (not_not.mpr hd)]
    show L.Ends _ _ ((h.swapDepth 1 >>= _) s).1.isOk ((h.swapDepth 1 >>= _) s).2
    rw [swap_bind]
    have hv1 := L.view_setDepth 1 s
    obtain ⟨n, hf, hn, hm⟩ := hb.sound.follow_begin hnil
    rcases opening_spec (c := .begin .deferred) rfl (L.ready_setDepth (d := 1) hb.ready)
      (hv1 ▸ hb.sound) (hv1 ▸ hf) (by rw [L.depth_setDepth]; omega) with
      ⟨t, hx, htr, htd, hv⟩ | ⟨e, t, hx, hst, htb, hres⟩
    · rw [show h.opening "begin transaction" (h.setDepth 1 s) = (.ok (), t) from hx]
      refine .done (m := ⟨(L.view s).rows, [⟨none, (L.view s).rows⟩]⟩) ?_
        ⟨htr, hv ▸ hn, ?_⟩ (hv ▸ hm)
      · rw [Snapshots.apply, Nesting.snapshots, hnil]
        rfl
      · rw [htd, L.depth_setDepth, hv]
        exact (congrArg (fun m => m.frames.length) hm).symm
    · rw [show h.opening "begin transaction" (h.setDepth 1 s) = (.error e, t) from hx]
      exact .unwound hst htb (hv1 ▸ hres)
  · rw [if_pos hd]
    refine .rejected ?_ hb rfl
    have hne : (L.view s).frames ≠ [] := fun hnil => hd (by rw [hb.depth, hnil, List.length_nil])
    rw [Snapshots.apply, Nesting.snapshots, if_neg]
    rwa [List.isEmpty_iff]

/-- The token that a savepoint gives. -/
def tokenOf (x : Except Error String) : String := x.toOption.getD ""

/-- A savepoint pushes a frame with the token that it gives. -/
theorem savepoint_ends (hb : L.Balanced s) :
    L.Ends (.savepoint (tokenOf (h.savepoint s).1)) s (h.savepoint s).1.isOk (h.savepoint s).2 := by
  rw [savepoint_apply]
  rcases hn : h.nonce (h.setDepth (h.depth s + 1) s) with ⟨nonce, u⟩
  have hu : (h.nonce (h.setDepth (h.depth s + 1) s)).2 = u := by rw [hn]
  have hur : L.ready u := hu ▸ L.ready_nonce (L.ready_setDepth hb.ready)
  have hud : h.depth u = h.depth s + 1 := by rw [← hu, L.depth_nonce, L.depth_setDepth]
  have huv : L.view u = L.view s := by rw [← hu, L.view_nonce, L.view_setDepth]
  have hform := Token.formed_text nonce (h.depth s)
  obtain ⟨n, hf, hns, hm⟩ := hb.sound.follow_savepoint (congrArg (Token.text nonce) hb.depth)
  simp only
  rcases opening_spec (c := .savepoint (Token.text nonce (h.depth s))) hform hur (huv ▸ hb.sound)
    (huv ▸ hf) (by omega) with ⟨t, hx, htr, htd, hv⟩ | ⟨e, t, hx, hst, htb, hres⟩
  · rw [show h.opening ("savepoint " ++ Token.text nonce (h.depth s)) u = (.ok (), t) from hx]
    refine .done rfl ⟨htr, hv ▸ hns, ?_⟩ (hv ▸ hm)
    rw [htd, hud, hv, hb.depth]
    exact (congrArg (fun m => m.frames.length) hm).symm
  · rw [show h.opening ("savepoint " ++ Token.text nonce (h.depth s)) u = (.error e, t) from hx]
    exact .unwound hst htb (huv ▸ hres)

/-! ### Ending all -/

theorem rollback_ends (hb : L.Balanced s) :
    L.Ends .rollback s (h.rollback s).1.isOk (h.rollback s).2 := by
  unfold rollback
  rw [swap_bind]
  have hv0 := L.view_setDepth 0 s
  have hr0 := L.ready_setDepth (d := 0) hb.ready
  by_cases hd : 0 < h.depth s
  · rw [if_pos hd]
    obtain ⟨t, hx, htr, htd, hts, hm⟩ :=
      execute_rollback hr0 (hv0 ▸ hb.sound) (hv0 ▸ hb.depth ▸ hd)
    rw [hx]
    rw [hv0] at hm
    refine .done rfl ⟨htr, hts, ?_⟩ hm
    rw [htd, L.depth_setDepth]
    exact (congrArg (fun m => m.frames.length) hm).symm
  · have hnil : (L.view s).frames = [] := List.length_eq_zero_iff.mp (by rw [← hb.depth]; omega)
    rw [if_neg hd]
    refine .done (m := (L.view s).snapshots.restored) rfl
      (balanced_setDepth hb.ready hb.sound (by rw [hnil]; rfl)) ?_
    rw [Snapshots.restored_of_frames_nil hnil]
    exact congrArg Nesting.snapshots hv0

theorem commit_ends (hb : L.Balanced s) : L.Ends .commit s (h.commit s).1.isOk (h.commit s).2 := by
  unfold commit
  rw [swap_bind]
  have hv0 := L.view_setDepth 0 s
  have hr0 := L.ready_setDepth (d := 0) hb.ready
  by_cases hd : h.depth s = 0
  · have hnil : (L.view s).frames = [] := List.length_eq_zero_iff.mp (by rw [← hb.depth, hd])
    rw [if_neg (not_not.mpr hd)]
    refine .done (m := (L.view s).snapshots) ?_
      (balanced_setDepth hb.ready hb.sound (by rw [hnil]; rfl)) (congrArg Nesting.snapshots hv0)
    rw [Snapshots.apply, Nesting.snapshots, hnil]
  · rw [if_pos hd, orForceRollback_apply]
    have hp : 0 < (L.view s).frames.length := by rw [← hb.depth]; omega
    have hf : (L.view (h.setDepth 0 s)).follow .commit = some (L.view s).closed := by
      rw [hv0, hb.sound.follow_commit hp]
    obtain ⟨t, htr, htd, ⟨hx, hv⟩ | ⟨e, hx, he, hv, -, hst⟩⟩ :=
      execute_some (c := .commit) trivial hr0 hf
    · rw [show h.execute "commit" (h.setDepth 0 s) = (.ok (), t) from hx]
      refine .done rfl ⟨htr, hv ▸ Nesting.sound_closed, ?_⟩ (congrArg Nesting.snapshots hv)
      rw [htd, L.depth_setDepth, hv, Nesting.frames_closed, List.length_nil]
    · rw [show h.execute "commit" (h.setDepth 0 s) = (.error e, t) from hx]
      obtain ⟨htb, hres⟩ := forceRollback_spec htr (hv ▸ hv0 ▸ hb.sound)
      exact .unwound hst htb (by rw [hres, hv, hv0])

/-! ### Ending a savepoint -/

section EndSavepoint

variable {verb token : String} {after : Frame δ → List (Frame δ) → Snapshots δ}

/-- The savepoint of a token is ended by a statement `c`, for both of the verbs. -/
theorem endSavepoint_spec (hb : L.Balanced s) (hct : c.text = verb ++ " " ++ token)
    (hform : Token.Formed token → c.Formed) (hstr : ¬ h.Strands verb token s)
    (hfinds : (L.view s).Finds token c after) :
    (∃ e t, h.endSavepoint token verb s = (.error e, t) ∧
      (L.view s).snapshots.framesFrom token = [] ∧ L.Balanced t ∧ L.view t = L.view s) ∨
    (∃ f older t, h.endSavepoint token verb s = (.ok (), t) ∧
      (L.view s).snapshots.framesFrom token = f :: older ∧ L.ready t ∧ h.depth t = older.length ∧
      (L.view t).Sound ∧ (L.view t).snapshots = after f older) ∨
    ∃ e t, h.endSavepoint token verb s = (.error e, t) ∧ ¬ L.Steady ∧ L.Balanced t ∧
      (L.view t).snapshots = (L.view s).snapshots.restored := by
  rw [endSavepoint_apply]
  cases hd : Token.depth? token with
  | none => exact Or.inl ⟨_, s, rfl, Snapshots.framesFrom_of_depth?_none _ hd, hb, rfl⟩
  | some d =>
    have hform := hform (Token.formed_of_depth? hd)
    have hvd := L.view_setDepth d s
    have hrd := L.ready_setDepth (d := d) hb.ready
    by_cases hle : h.depth s ≤ d
    · -- every open savepoint has a smaller depth
      refine Or.inl ⟨_, s, if_pos hle, ?_, hb, rfl⟩
      rcases hfinds d hd with ⟨hnil, -⟩ | ⟨f, older, n, hff, hlen, -⟩
      · exact hnil
      · have := List.length_dropWhile_le (fun f : Frame δ => !f.answers token) (L.view s).frames
        rw [hb.depth] at hle
        rw [show (L.view s).frames.dropWhile _ = f :: older from hff, List.length_cons] at this
        omega
    · simp only [if_neg hle, ← hct]
      rcases hfinds d hd with ⟨hnil, hnone⟩ | ⟨f, older, n, hff, hlen, hsome, hns, hm⟩
      · obtain ⟨t, e, htr, -, hx, he, hv⟩ := execute_none hform hrd (hvd ▸ hnone)
        refine Or.inl ⟨e, h.setDepth (h.depth s) t, by rw [hx]; simp [he], hnil, ?_, ?_⟩
        · exact balanced_setDepth htr (hv ▸ hvd ▸ hb.sound) (by rw [hv, hvd, hb.depth])
        · rw [L.view_setDepth, hv, hvd]
      · obtain ⟨t, htr, htd, ⟨hx, hv⟩ | ⟨e, hx, he, hv, -, hst⟩⟩ :=
          execute_some hform hrd (hvd ▸ hsome)
        · refine Or.inr (Or.inl ⟨f, older, t, by rw [hx], hff, htr, ?_, hv ▸ hns, hv ▸ hm⟩)
          rw [htd, L.depth_setDepth, hlen]
        · have hpos : 0 < d := by
            by_contra h0
            obtain rfl : d = 0 := by omega
            exact hstr ⟨hd, by omega, e, t, by rw [← hct, hx], he⟩
          have hdt : h.depth t = d := by rw [htd, L.depth_setDepth]
          obtain ⟨htb, hres⟩ := forceRollback_spec htr (hv ▸ hvd ▸ hb.sound)
          refine Or.inr (Or.inr ⟨e, (h.forceRollback t).2, ?_, hst, htb, by rw [hres, hv, hvd]⟩)
          rw [hx]
          simp only [he, if_true]
          rw [quietRollback_apply, hdt, if_pos hpos]

theorem release_ends (hb : L.Balanced s) (hstr : ¬ h.Strands "release" token s) :
    L.Ends (.release token) s (h.release token s).1.isOk (h.release token s).2 := by
  unfold release
  rcases endSavepoint_spec hb (c := .release token) rfl id hstr (hb.sound.finds_release token) with
    ⟨e, t, hx, hnil, htb, hv⟩ | ⟨f, older, t, hx, hff, htr, htd, hts, hm⟩ | ⟨e, t, hx,
      hst, htb, hres⟩
  · rw [hx]
    exact .rejected (by rw [Snapshots.apply, hnil]) htb hv
  · rw [hx]
    refine .done (by rw [Snapshots.apply, hff]; rfl) ⟨htr, hts, ?_⟩ hm
    rw [htd]
    exact (congrArg (fun m => m.frames.length) hm).symm
  · rw [hx]
    exact .unwound hst htb hres

/-- A rollback to a savepoint also releases it; if that is refused, all is rolled back. -/
theorem rollbackTo_ends (hb : L.Balanced s) (hstr : ¬ h.Strands "rollback to" token s) :
    L.Ends (.rollbackTo token) s (h.rollbackTo token s).1.isOk (h.rollbackTo token s).2 := by
  unfold rollbackTo
  by_cases hempty : token.isEmpty = true
  · rw [if_pos hempty]
    refine (rollback_ends hb).of_apply_eq ?_
    rw [Snapshots.apply, Snapshots.apply, if_pos hempty]
  · rw [if_neg hempty]
    rcases endSavepoint_spec hb (c := .rollbackTo token) rfl id hstr
      (hb.sound.finds_rollbackTo token)
      with ⟨e, t, hx, hnil, htb, hv⟩ | ⟨f, older, t, hx, hff, htr, htd, hts, hm⟩ |
        ⟨e, t, hx, hst, htb, hres⟩
    · rw [bind_error hx]
      exact .rejected (by rw [Snapshots.apply, if_neg hempty, hnil]) htb hv
    · obtain ⟨d, hd⟩ := Option.isSome_iff_exists.mp (Frame.depth_of_answers
        (Snapshots.answers_of_framesFrom hff))
      have hfrom : (L.view t).snapshots.framesFrom token = f :: older := by
        rw [hm]
        exact Snapshots.framesFrom_of_answers (Snapshots.answers_of_framesFrom hff)
      have hform : (Control.release token).Formed := Token.formed_of_depth? hd
      have hdone : (L.view s).snapshots.apply (.rollbackTo token) = some ⟨f.saved, older⟩ := by
        rw [Snapshots.apply, if_neg hempty, hff]
      rw [bind_ok hx, orForceRollback_apply]
      rcases hts.finds_release token d hd with ⟨hnil, -⟩ | ⟨f', older', n, hff', -, hf, hns, hm'⟩
      · rw [hfrom] at hnil
        cases hnil
      · rw [hfrom] at hff'
        cases hff'
        obtain ⟨u, hur, hud, ⟨hx', hv⟩ | ⟨e, hx', -, hv, -, hst⟩⟩ := execute_some hform htr hf
        · rw [show h.execute ("release " ++ token) t = (.ok (), u) from hx']
          refine .done hdone ⟨hur, hv ▸ hns, ?_⟩ ?_
          · rw [hud, htd, hv]
            exact (congrArg (fun m => m.frames.length) hm').symm
          · rw [hv, hm', show (L.view t).rows = f.saved from congrArg Snapshots.rows hm]
        · rw [show h.execute ("release " ++ token) t = (.error e, u) from hx']
          obtain ⟨hub, hres⟩ := forceRollback_spec hur (hv ▸ hts)
          refine .unwound hst hub ?_
          rw [hres, hv, hm, Snapshots.restored_of_framesFrom hff]
    · rw [bind_error hx]
      exact .unwound hst htb hres

/-- What a stranded transaction looks like: it is open with the depth zero. -/
theorem endSavepoint_of_strands (hr : L.ready s) (hct : c.text = verb ++ " " ++ token)
    (hform : Token.Formed token → c.Formed) (hstr : h.Strands verb token s) :
    ∃ e t, h.endSavepoint token verb s = (.error e, t) ∧ h.depth t = 0 ∧ L.view t = L.view s := by
  obtain ⟨hd, hpos, e, t, hx, he⟩ := hstr
  have hform := hform (Token.formed_of_depth? hd)
  have hr0 := L.ready_setDepth (d := 0) hr
  have hdt := L.depth_execute hform hr0
  have hv := L.answers hform hr0
  rw [hct, hx] at hdt hv
  rw [L.depth_setDepth] at hdt
  refine ⟨e, h.setDepth 0 t, ?_, L.depth_setDepth 0 t, ?_⟩
  · rw [endSavepoint_apply, hd]
    simp only [Nat.le_zero_eq, show h.depth s ≠ 0 by omega, if_false, hx, he, if_true]
    rw [quietRollback_apply, hdt, if_neg (Nat.lt_irrefl 0)]
  · rw [L.view_setDepth, hv.1, L.view_setDepth]

end EndSavepoint

end Lawful

end Balance

end TransactionHost

end RecordMapper
