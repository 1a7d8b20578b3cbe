import RecordMapper.Proofs.NestedTransactions

/-!
# Bodies inside a savepoint

What it means to run a body inside a savepoint, on a host whose engine refuses nothing that it could
do.

1. `Nesting.Sound.eq_of_snapshots`: the stack of snapshots tells all of a transaction.
2. `Lawful.runWith_kept` and `Lawful.runWith_undone`: a body that leaves open what was open when it
   started is kept as a whole or undone as a whole.
3. `Routine.Spares`: the calls that a program makes itself end none of some frames. Then the runs
   inside it end none of them either, whatever their bodies do.
-/

namespace RecordMapper

variable {δ : Type}

/-! ## The stack and the transaction -/

namespace Nesting

def savepointOf (f : Frame δ) : Option (String × δ) := f.token.map fun token => (token, f.saved)

theorem filterMap_frames (n : Nesting δ) : n.frames.filterMap savepointOf = n.savepoints := by
  have hbottom : n.bottom.filterMap savepointOf = [] := by
    unfold bottom
    split <;> rfl
  unfold frames
  rw [List.filterMap_append, hbottom, List.append_nil, List.filterMap_map]
  exact List.filterMap_some

namespace Sound

/-- Two transactions with the same stack are the same. -/
theorem eq_of_snapshots {n m : Nesting δ} (hn : n.Sound) (hm : m.Sound)
    (h : n.snapshots = m.snapshots) : n = m := by
  have hrows : n.rows = m.rows := congrArg Snapshots.rows h
  have hframes : n.frames = m.frames := congrArg Snapshots.frames h
  have hsp : n.savepoints = m.savepoints := by
    rw [← filterMap_frames n, hframes, filterMap_frames]
  have hbottom : n.bottom = m.bottom := by
    unfold frames at hframes
    rw [hsp] at hframes
    exact List.append_cancel_left hframes
  have hopening : n.opening = m.opening := by
    have hopen : n.opening = none ↔ m.opening = none := by
      rw [← hn.frames_eq_nil_iff, hframes, hm.frames_eq_nil_iff]
    unfold bottom at hbottom
    rcases hno : n.opening with _ | ⟨_ | _, a⟩
    · exact (hopen.mp hno).symm
    · rcases hmo : m.opening with _ | ⟨_ | _, b⟩
      · exact absurd (hopen.mpr hmo) (by rw [hno]; nofun)
      · rw [hno, hmo] at hbottom
        cases hbottom
        rfl
      · rw [hno, hmo] at hbottom
        cases hbottom
    · rcases hmo : m.opening with _ | ⟨_ | _, b⟩
      · exact absurd (hopen.mpr hmo) (by rw [hno]; nofun)
      · rw [hno, hmo] at hbottom
        cases hbottom
      · -- both were opened by their oldest savepoint
        have ha := hn.getLast_of_savepoint a hno
        rw [hsp, hm.getLast_of_savepoint b hmo] at ha
        rw [Option.some.inj ha]
  cases n
  cases m
  simp only [Nesting.mk.injEq]
  exact ⟨hrows, hopening, hsp⟩

theorem framesFrom_of_suffix {n : Nesting δ} (hs : n.Sound) {token : String} {saved : δ}
    {older : List (Frame δ)} (hd : Token.depth? token = some older.length)
    (hsuf : ⟨some token, saved⟩ :: older <:+ n.frames) :
    n.snapshots.framesFrom token = ⟨some token, saved⟩ :: older := by
  rcases hs.finds_release token _ hd with ⟨hnil, -⟩ | ⟨f, rest, -, hfrom, hlen, -⟩
  · have hnone := List.dropWhile_eq_nil_iff.mp hnil _ (hsuf.mem List.mem_cons_self)
    simp [Frame.answers, hd] at hnone
  · have hrest : f :: rest <:+ n.frames := hfrom ▸ List.dropWhile_suffix _
    have hle : (f :: rest).length = (⟨some token, saved⟩ :: older : List (Frame δ)).length := by
      rw [List.length_cons, List.length_cons, hlen]
    rw [hfrom]
    exact (List.suffix_of_suffix_length_le hrest hsuf hle.le).eq_of_length hle

end Sound

end Nesting

theorem Snapshots.suffix_step_release {m : Snapshots δ} {token : String} {base : List (Frame δ)}
    (hb : base <:+ m.frames)
    (hlen : ∀ f older, m.framesFrom token = f :: older → base.length ≤ older.length) :
    base <:+ (m.step (.release token)).frames := by
  rw [step, apply]
  cases hfrom : m.framesFrom token with
  | nil => exact hb
  | cons f older =>
    have hsuf : f :: older <:+ m.frames := hfrom ▸ List.dropWhile_suffix _
    exact List.suffix_of_suffix_length_le hb ((List.suffix_cons f older).trans hsuf)
      (hlen f older hfrom)

theorem Snapshots.frames_step_rollbackTo {m : Snapshots δ} {token : String}
    (ht : token.isEmpty = false) :
    (m.step (.rollbackTo token)).frames = (m.step (.release token)).frames := by
  rw [step, step, apply, apply, if_neg (by rw [ht]; exact Bool.false_ne_true)]
  cases m.framesFrom token with
  | nil => rfl
  | cons f older => rfl

theorem Token.isEmpty_text (nonce depth : Nat) : (Token.text nonce depth).isEmpty = false := by
  rw [← Bool.not_eq_true, String.isEmpty_iff, ← String.toList_inj, Token.text_toList]
  nofun

namespace TransactionHost.Lawful

variable {σ : Type} {h : TransactionHost σ} {L : h.Lawful δ} {s t u : σ}

/-! ## One body -/

/-- A savepoint of a steady host succeeds and pushes a frame. -/
theorem savepoint_steady (hst : L.Steady) (hb : L.Balanced s) : ∃ nonce t,
    h.savepoint s = (.ok (Token.text nonce (h.depth s)), t) ∧ L.Balanced t ∧
      (L.view t).snapshots = ⟨(L.view s).rows,
        ⟨some (Token.text nonce (h.depth s)), (L.view s).rows⟩ :: (L.view s).frames⟩ := by
  obtain ⟨hok, hbt, hm⟩ := Call.perform_step hst hb .savepoint
  have htoken : ∀ token, (h.savepoint s).1 = .ok token →
      ∃ nonce, token = Token.text nonce (h.depth s) := by
    intro token hx
    rw [savepoint_apply] at hx
    revert hx
    rcases h.nonce (h.setDepth (h.depth s + 1) s) with ⟨nonce, v⟩
    simp only
    split
    · rintro ⟨⟩
      exact ⟨nonce, rfl⟩
    · nofun
  rcases hx : h.savepoint s with ⟨e | token, t⟩
  · rw [show (Call.savepoint : L.Call).perform s = _ from hx] at hok
    cases hok
  · obtain ⟨nonce, rfl⟩ := htoken token (by rw [hx])
    rw [show (Call.savepoint : L.Call).perform s = _ from hx] at hbt hm
    exact ⟨nonce, t, rfl, hbt, hm⟩

section Body

variable {ε α : Type} (raise : Error → ε) {body : ExceptT ε (StateM σ) α} {token : String}

theorem view_of_snapshots {rows : δ} (hb : L.Balanced s) (hu : L.Balanced u)
    (hm : (L.view u).snapshots = ⟨rows, (L.view s).frames⟩) :
    L.view u = { L.view s with rows } ∧ h.depth u = h.depth s := by
  have hcongr : Nesting.Sound { L.view s with rows } ∧ ({ L.view s with rows } : Nesting δ).frames =
      (L.view s).frames := hb.sound.frames_congr rfl rfl
  refine ⟨hu.sound.eq_of_snapshots hcongr.1 ?_, ?_⟩
  · rw [hm, Nesting.snapshots, hcongr.2]
  · rw [hu.depth, hb.depth]
    exact congrArg (fun m => m.frames.length) hm

theorem framesFrom_own (hb : L.Balanced s) (hd : h.depth s ≤ Token.maxDepth) {nonce : Nat}
    (hm : (L.view t).snapshots = ⟨(L.view s).rows,
      ⟨some (Token.text nonce (h.depth s)), (L.view s).rows⟩ :: (L.view s).frames⟩)
    (hu : L.Balanced u) (hopen : (L.view t).frames <:+ (L.view u).frames) :
    (L.view u).snapshots.framesFrom (Token.text nonce (h.depth s)) =
      ⟨some (Token.text nonce (h.depth s)), (L.view s).rows⟩ :: (L.view s).frames := by
  refine hu.sound.framesFrom_of_suffix ?_ ?_
  · rw [Token.depth?_text, if_pos hd, hb.depth]
  · rwa [show (L.view t).frames = _ from congrArg Snapshots.frames hm] at hopen

/-- A body that comes to its end is kept: the stack is as before, and the rows are those that the
body has left. -/
theorem runWith_kept (hst : L.Steady) (hb : L.Balanced s) (hd : h.depth s ≤ Token.maxDepth)
    (hs : h.savepoint s = (.ok token, t)) {a : α} (hx : body t = (.ok a, u)) (hu : L.Balanced u)
    (hopen : (L.view t).frames <:+ (L.view u).frames) : ∃ v, h.runWith raise body s = (.ok a, v) ∧
      L.Balanced v ∧ L.view v = { L.view s with rows := (L.view u).rows } ∧
      h.depth v = h.depth s := by
  obtain ⟨nonce, t', hs', -, hm⟩ := savepoint_steady hst hb
  obtain ⟨⟨⟩, rfl⟩ := Prod.mk.inj (hs.symm.trans hs')
  have hfrom := framesFrom_own hb hd hm hu hopen
  obtain ⟨hok, hbv, hv⟩ := Call.perform_step hst hu (.release (Token.text nonce (h.depth s)))
  have happly : (L.view u).snapshots.apply (.release (Token.text nonce (h.depth s))) =
      some ⟨(L.view u).rows, (L.view s).frames⟩ := by
    rw [Snapshots.apply, hfrom]
    rfl
  have hperform : (Call.release (Token.text nonce (h.depth s)) : L.Call).perform u =
      Call.silent (h.release (Token.text nonce (h.depth s)) u) := rfl
  rw [show Call.event _ _ = Event.release _ from rfl, happly] at hok
  rw [Snapshots.step, show Call.event _ _ = Event.release _ from rfl, happly] at hv
  rw [hperform] at hok hbv hv
  unfold runWith
  simp only [hs, hx]
  rcases hr : h.release (Token.text nonce (h.depth s)) u with ⟨e | r, v⟩
  · rw [hr] at hok
    cases hok
  · rw [hr] at hbv hv
    exact ⟨v, rfl, hbv, view_of_snapshots hb hbv hv⟩

/-- A body that is interrupted is undone: rows and stack are as before. -/
theorem runWith_undone (hst : L.Steady) (hb : L.Balanced s) (hd : h.depth s ≤ Token.maxDepth)
    (hs : h.savepoint s = (.ok token, t)) {e : ε} (hx : body t = (.error e, u)) (hu : L.Balanced u)
    (hopen : (L.view t).frames <:+ (L.view u).frames) :
    ∃ v, h.runWith raise body s = (.error e, v) ∧
      L.Balanced v ∧ L.view v = L.view s ∧ h.depth v = h.depth s := by
  obtain ⟨nonce, t', hs', -, hm⟩ := savepoint_steady hst hb
  obtain ⟨⟨⟩, rfl⟩ := Prod.mk.inj (hs.symm.trans hs')
  have hfrom := framesFrom_own hb hd hm hu hopen
  obtain ⟨-, hbv, hv⟩ := Call.perform_step hst hu (.rollbackTo (Token.text nonce (h.depth s)))
  have happly : (L.view u).snapshots.apply (.rollbackTo (Token.text nonce (h.depth s))) =
      some (L.view s).snapshots := by
    rw [Snapshots.apply, Token.isEmpty_text, hfrom]
    rfl
  have hrun : h.runWith raise body s =
      (.error e, ((Call.rollbackTo (Token.text nonce (h.depth s)) : L.Call).perform u).2) := by
    unfold runWith
    simp only [hs, hx]
    rfl
  have hback : (L.view ((Call.rollbackTo (Token.text nonce (h.depth s)) : L.Call).perform u).2).snapshots =
      ⟨(L.view s).rows, (L.view s).frames⟩ := by
    rw [hv, Snapshots.step, show Call.event _ _ = Event.rollbackTo _ from rfl, happly]
    rfl
  obtain ⟨hview, hdepth⟩ := view_of_snapshots hb hbv hback
  exact ⟨_, hrun, hbv, hview, hdepth⟩

end Body

/-! ## Bodies that spare frames -/

namespace Routine

/-- The calls that a program makes itself, also in the bodies of its runs, leave some frames open.
Nothing is asked of the savepoints that its runs take and end. -/
def Spares (base : List (Frame δ)) : L.Routine → σ → Prop
  | .finish _, _ => True
  | .call c next, s => base <:+ (L.view (c.perform s).2).frames ∧
    (next (c.perform s).1).Spares base (c.perform s).2
  | .inside body next, s => body.Spares base (h.savepoint s).2 ∧
    (next (h.run body.run s).1).Spares base (h.run body.run s).2

/-- Work and new savepoints end no frame. -/
theorem suffix_growing {base : List (Frame δ)} (hst : L.Steady) (hb : L.Balanced s)
    (hbase : base <:+ (L.view s).frames) {c : L.Call} (hc : (∃ w, c = .work w) ∨ c = .savepoint) :
    base <:+ (L.view (c.perform s).2).frames := by
  obtain ⟨-, -, hm⟩ := Call.perform_step hst hb c
  have hframes := congrArg Snapshots.frames hm
  show base <:+ (L.view _).snapshots.frames
  rw [hframes]
  rcases hc with ⟨w, rfl⟩ | rfl
  · exact hbase
  · exact hbase.trans (List.suffix_cons _ _)

theorem balanced_run (hst : L.Steady) (hb : L.Balanced s) (r : L.Routine) :
    L.Balanced (r.run s).2 := by
  rw [run_eq_after]
  exact (Call.after_run hst hb _).2.1

theorem suffix_closing {base : List (Frame δ)} (hst : L.Steady) (hu : L.Balanced u) {nonce d : Nat}
    (hbase : base <:+ (L.view u).frames) (hd : base.length ≤ d) (o : Except Interruption Unit) :
    base <:+ (L.view ((closing (L := L) (Token.text nonce d) o).perform u).2).frames := by
  have hrelease : base <:+ ((L.view u).snapshots.step (.release (Token.text nonce d))).frames := by
    refine Snapshots.suffix_step_release hbase fun f older hfrom => ?_
    obtain ⟨d', hd'⟩ := Option.isSome_iff_exists.mp (Frame.depth_of_answers
      (Snapshots.answers_of_framesFrom hfrom))
    rcases hu.sound.finds_release _ _ hd' with ⟨hnil, -⟩ | ⟨f', older', -, hfrom', hlen, -⟩
    · rw [hfrom] at hnil
      cases hnil
    · rw [hfrom] at hfrom'
      cases hfrom'
      rw [Token.depth?_text] at hd'
      split at hd'
      · cases hd'
        rwa [hlen]
      · cases hd'
  obtain ⟨-, -, hm⟩ := Call.perform_step hst hu (closing (L := L) (Token.text nonce d) o)
  have hframes := congrArg Snapshots.frames hm
  show base <:+ (L.view _).snapshots.frames
  rw [hframes]
  cases o with
  | ok _ => exact hrelease
  | error _ => exact (Snapshots.frames_step_rollbackTo (Token.isEmpty_text nonce d)).symm ▸ hrelease

/-- A program whose own calls spare some frames spares them as a whole. -/
theorem suffix_run {base : List (Frame δ)} (hst : L.Steady) (r : L.Routine) (hb : L.Balanced s)
    (hbase : base <:+ (L.view s).frames) (hr : r.Spares base s) :
    base <:+ (L.view (r.run s).2).frames := by
  induction r generalizing s with
  | finish outcome => exact hbase
  | call c next ih => exact ih _ (Call.perform_step hst hb c).2.1 hr.1 hr.2
  | inside body next ihb ihn =>
    obtain ⟨nonce, t, hs, hbt, hm⟩ := savepoint_steady hst hb
    have hopen : base <:+ (L.view t).frames := by
      rw [show (L.view t).frames = _ from congrArg Snapshots.frames hm]
      exact hbase.trans (List.suffix_cons _ _)
    have hbody := ihb hbt hopen (by have := hr.1; rwa [hs] at this)
    have hrun : (h.run body.run s).2 =
        ((closing (L := L) (Token.text nonce (h.depth s)) (body.run t).1).perform (body.run t).2).2 := by
      have hsave : ((Call.savepoint : L.Call).perform s).2 = t := congrArg Prod.snd hs
      rw [run_inside body (run_eq_after body), hs, Call.after_cons, Call.after_concat, hsave,
        ← run_eq_after]
    refine ihn _ ?_ ?_ hr.2
    · rw [hrun]
      exact (Call.perform_step hst (balanced_run hst hbt body) _).2.1
    · rw [hrun]
      refine suffix_closing hst (balanced_run hst hbt body) hbody ?_ _
      rw [hb.depth]
      exact hbase.length_le

end Routine

end TransactionHost.Lawful

end RecordMapper
