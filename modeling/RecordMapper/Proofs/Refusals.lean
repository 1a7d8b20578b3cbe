import RecordMapper.Proofs.NestedTransactions

/-!
# Tokens that name no open savepoint

A token is a string of the caller, and its depth is counted down before the engine is asked.

1. `Tokened`: the engine's savepoints are named by tokens, whatever the transaction functions have
   done before, those that were refused or stranded included.
2. `noting` is a host beside the texts that it was given to run.
3. `Call.refuses_unopened`: no token but that of an open savepoint ends anything, and a text is
   given to the engine only for a token that tells a smaller depth than the present one.
-/

namespace RecordMapper

/-! ## Tokens that tell a depth -/

/-- `S`, digits, `D`, digits, with a number after `D` that is a depth below `bound`. -/
def Token.TellsBelow (token : String) (bound : Nat) : Prop :=
  ∃ nonce depth : List Char, nonce ≠ [] ∧ depth ≠ [] ∧ (∀ c ∈ nonce, isDigit c = true) ∧
    (∀ c ∈ depth, isDigit c = true) ∧ token.toList = 'S' :: (nonce ++ 'D' :: depth) ∧
    digitsValue depth ≤ maxDepth ∧ digitsValue depth < bound

theorem Token.tellsBelow_of_depth? {token : String} {d bound : Nat} (h : depth? token = some d)
    (hd : d < bound) : TellsBelow token bound := by
  obtain ⟨nonce, depth, hn, hne, hns, hds, ht⟩ := formed_of_depth? h
  rw [depth?_eq hn hne hns hds ht] at h
  split at h
  · cases h
    exact ⟨nonce, depth, hn, hne, hns, hds, ht, ‹_›, hd⟩
  · cases h

namespace Nesting

variable {δ : Type} {n m : Nesting δ} {c : Control}

theorem names_follow (h : n.follow c = some m) {name : String} (hm : name ∈ m.names) :
    name ∈ n.names ∨ c = .savepoint name := by
  have hdrop : ∀ {w : String} {s older}, n.savepointsFrom w = s :: older →
      ∀ x ∈ s :: older, x ∈ n.savepoints := fun hs x hx =>
    (List.dropWhile_suffix _).subset (show x ∈ n.savepointsFrom _ from hs ▸ hx)
  unfold names at hm ⊢
  rw [List.mem_map] at hm ⊢
  obtain ⟨x, hx, rfl⟩ := hm
  cases c with
  | begin mode =>
    simp only [follow] at h
    split at h
    · cases h
    · cases h
      exact .inl ⟨x, hx, rfl⟩
  | commit =>
    simp only [follow] at h
    split at h
    · cases h
      cases hx
    · cases h
  | rollback =>
    simp only [follow] at h
    obtain ⟨o, -, rfl⟩ := Option.map_eq_some_iff.mp h
    cases hx
  | savepoint name =>
    cases h
    rcases List.mem_cons.mp hx with rfl | hx
    · exact .inr rfl
    · exact .inl ⟨x, hx, rfl⟩
  | release name =>
    simp only [follow] at h
    rcases hs : n.savepointsFrom name with _ | ⟨s, older⟩
    · simp only [hs] at h
      cases h
    · simp only [hs] at h
      cases h
      unfold keepSavepoints at hx
      split at hx
      · cases hx
      · exact .inl ⟨x, hdrop hs x (List.mem_cons_of_mem _ hx), rfl⟩
  | rollbackTo name =>
    simp only [follow] at h
    rcases hs : n.savepointsFrom name with _ | ⟨s, older⟩
    · simp only [hs] at h
      cases h
    · simp only [hs] at h
      cases h
      exact .inl ⟨x, hdrop hs x hx, rfl⟩

theorem savepointsFrom_eq_nil (hn : ∀ name ∈ n.names, Token.Formed name) {token : String}
    (ht : Token.Formed token) (hopen : token ∉ n.names) : n.savepointsFrom token = [] := by
  unfold savepointsFrom
  rw [List.dropWhile_eq_nil_iff]
  intro s hs
  have hmem : s.1 ∈ n.names := List.mem_map_of_mem hs
  rw [Bool.not_eq_true', Bool.eq_false_iff, Ne, Token.sameFolded_iff (hn _ hmem) ht]
  rintro rfl
  exact hopen hmem

end Nesting

namespace TransactionHost

variable {σ δ : Type} {h : TransactionHost σ}

/-! ## Savepoints that are named by tokens -/

/-- A state that can be used, whose savepoints are named by tokens. -/
structure Lawful.Tokened (L : h.Lawful δ) (s : σ) : Prop where
  ready : L.ready s
  formed : ∀ name ∈ (L.view s).names, Token.Formed name

namespace Lawful

variable {L : h.Lawful δ} {s : σ}

namespace Tokened

theorem setDepth (hs : L.Tokened s) (d : Nat) : L.Tokened (h.setDepth d s) :=
  ⟨L.ready_setDepth hs.ready, by rw [L.view_setDepth]; exact hs.formed⟩

theorem nonce (hs : L.Tokened s) : L.Tokened (h.nonce s).2 :=
  ⟨L.ready_nonce hs.ready, by rw [L.view_nonce]; exact hs.formed⟩

/-- A statement of the transaction functions, whether it is followed or refused. -/
theorem execute {c : Control} (hc : c.Formed) (hs : L.Tokened s) :
    L.Tokened (h.execute c.text s).2 := by
  refine ⟨L.ready_execute hc hs.ready, fun name hm => ?_⟩
  have ha := L.answers hc hs.ready
  rcases hx : (h.execute c.text s).1 with e | u
  · rw [hx] at ha
    rw [ha.1] at hm
    exact hs.formed name hm
  · rw [hx] at ha
    rcases Nesting.names_follow ha hm with hm | rfl
    · exact hs.formed name hm
    · exact hc

theorem forceRollback (hs : L.Tokened s) : L.Tokened (h.forceRollback s).2 :=
  (hs.setDepth 0).execute (c := .rollback) trivial

theorem quietRollback (hs : L.Tokened s) : L.Tokened (h.quietRollback s).2 := by
  rw [quietRollback_apply]
  split
  · exact hs.forceRollback
  · exact hs.setDepth 0

theorem recoverOpening (hs : L.Tokened s) (e : Error) : L.Tokened (h.recoverOpening e s).2 := by
  rw [recoverOpening_apply]
  split
  · exact hs.quietRollback
  · exact hs.setDepth _

theorem opening {c : Control} (hc : c.Formed) (hs : L.Tokened s) :
    L.Tokened (h.opening c.text s).2 := by
  have hx := hs.execute hc
  rw [opening_apply]
  split
  · rename_i t ht
    rwa [ht] at hx
  · rename_i e t ht
    rw [ht] at hx
    exact hx.recoverOpening e

theorem orForceRollback {c : Control} (hc : c.Formed) (hs : L.Tokened s) :
    L.Tokened (h.orForceRollback c.text s).2 := by
  have hx := hs.execute hc
  rw [orForceRollback_apply]
  split
  · rename_i t ht
    rwa [ht] at hx
  · rename_i e t ht
    rw [ht] at hx
    exact hx.forceRollback

theorem begin (hs : L.Tokened s) : L.Tokened (h.begin s).2 := by
  unfold TransactionHost.begin
  rw [Action.get_bind]
  split
  · exact hs
  · exact (hs.setDepth 1).opening (c := .begin .deferred) rfl

theorem savepoint (hs : L.Tokened s) : L.Tokened (h.savepoint s).2 := by
  rw [savepoint_apply]
  have hn := (hs.setDepth (h.depth s + 1)).nonce
  rcases hnt : h.nonce (h.setDepth (h.depth s + 1) s) with ⟨nonce, t⟩
  rw [hnt] at hn
  have hx := hn.opening (c := .savepoint (Token.text nonce (h.depth s))) (Token.formed_text _ _)
  simp only
  split
  · rename_i u hu
    rwa [show h.opening (Control.savepoint _).text t = _ from hu] at hx
  · rename_i e u hu
    rwa [show h.opening (Control.savepoint _).text t = _ from hu] at hx

theorem rollback (hs : L.Tokened s) : L.Tokened (h.rollback s).2 := by
  unfold TransactionHost.rollback
  rw [swap_bind]
  split
  · exact (hs.setDepth 0).execute (c := .rollback) trivial
  · exact hs.setDepth 0

theorem commit (hs : L.Tokened s) : L.Tokened (h.commit s).2 := by
  unfold TransactionHost.commit
  rw [swap_bind]
  split
  · exact (hs.setDepth 0).orForceRollback (c := .commit) trivial
  · exact hs.setDepth 0

/-- Both of the verbs write a statement `c` about a token. -/
theorem endSavepoint {verb token : String} {c : Control} (hs : L.Tokened s)
    (hct : c.text = verb ++ " " ++ token) (hform : Token.Formed token → c.Formed) :
    L.Tokened (h.endSavepoint token verb s).2 := by
  rw [endSavepoint_apply, ← hct]
  cases hd : Token.depth? token with
  | none => exact hs
  | some d =>
    have hx := (hs.setDepth d).execute (hform (Token.formed_of_depth? hd))
    simp only
    split
    · exact hs
    · split
      · rename_i t ht
        rwa [ht] at hx
      · rename_i e t ht
        rw [ht] at hx
        show L.Tokened (if e.isTransient then _ else _)
        split
        · exact hx.quietRollback
        · exact hx.setDepth _

theorem release (hs : L.Tokened s) (token : String) : L.Tokened (h.release token s).2 :=
  hs.endSavepoint (c := .release token) rfl id

theorem rollbackTo (hs : L.Tokened s) (token : String) : L.Tokened (h.rollbackTo token s).2 := by
  unfold TransactionHost.rollbackTo
  split
  · exact hs.rollback
  · have hx := hs.endSavepoint (c := .rollbackTo token) rfl id
    have hd : ∀ {u : Unit} {t : σ}, h.endSavepoint token "rollback to" s = (.ok u, t) →
        Token.Formed token := by
      intro u t ht
      rw [endSavepoint_apply] at ht
      cases hd : Token.depth? token with
      | none =>
        rw [hd] at ht
        cases ht
      | some d => exact Token.formed_of_depth? hd
    rcases ht : h.endSavepoint token "rollback to" s with ⟨e | u, t⟩
    · rw [Action.bind_error ht]
      rwa [ht] at hx
    · rw [Action.bind_ok ht]
      rw [ht] at hx
      exact hx.orForceRollback (c := .release token) (hd ht)

end Tokened

theorem Idle.tokened (hi : L.Idle s) : L.Tokened s := by
  refine ⟨hi.ready, fun name hm => ?_⟩
  rw [hi.closed] at hm
  cases hm

namespace Call

theorem tokened_perform (hs : L.Tokened s) (c : L.Call) : L.Tokened (c.perform s).2 := by
  cases c with
  | work w =>
    refine ⟨w.ready_act hs.ready, ?_⟩
    show ∀ name ∈ (L.view (w.act s)).savepoints.map Prod.fst, _
    rw [w.savepoints_act hs.ready]
    exact hs.formed
  | begin => exact hs.begin
  | savepoint => exact hs.savepoint
  | rollback => exact hs.rollback
  | rollbackTo token => exact hs.rollbackTo token
  | release token => exact hs.release token
  | commit => exact hs.commit

theorem tokened_after (hs : L.Tokened s) (cs : List L.Call) : L.Tokened (after cs s) := by
  induction cs generalizing s with
  | nil => exact hs
  | cons c cs ih => exact ih (tokened_perform hs c)

end Call

end Lawful

/-! ## The texts that the engine is given -/

/-- The same host beside the texts that it was given to run, the newest first. -/
def noting (h : TransactionHost σ) : TransactionHost (σ × List String) where
  depth s := h.depth s.1
  setDepth d s := (h.setDepth d s.1, s.2)
  execute text s := ((h.execute text s.1).1, (h.execute text s.1).2, text :: s.2)
  nonce s := ((h.nonce s.1).1, (h.nonce s.1).2, s.2)

/-- Ending a savepoint gives the engine nothing unless the token tells a depth below the present
one. Where nothing is rolled back, the engine is given one text then. -/
theorem noting_endSavepoint (h : TransactionHost σ) (token verb : String) (s : σ)
    (texts : List String) :
    (∃ e, h.endSavepoint token verb s = (.error e, s) ∧
      h.noting.endSavepoint token verb (s, texts) = (.error e, s, texts)) ∨
    ∃ d, Token.depth? token = some d ∧ d < h.depth s ∧
      ∀ e t, h.execute (verb ++ " " ++ token) (h.setDepth d s) = (.error e, t) →
        e.isTransient = false →
        h.endSavepoint token verb s = (.error e, h.setDepth (h.depth s) t) ∧
          h.noting.endSavepoint token verb (s, texts) =
            (.error e, h.setDepth (h.depth s) t, (verb ++ " " ++ token) :: texts) := by
  rw [endSavepoint_apply, endSavepoint_apply]
  cases hd : Token.depth? token with
  | none => exact .inl ⟨_, rfl, rfl⟩
  | some d =>
    by_cases hle : h.depth s ≤ d
    · exact .inl ⟨_, if_pos hle, if_pos hle⟩
    · refine .inr ⟨d, rfl, Nat.lt_of_not_le hle, fun e t hx he => ?_⟩
      have hn : h.noting.execute (verb ++ " " ++ token) (h.noting.setDepth d (s, texts)) =
          (.error e, t, (verb ++ " " ++ token) :: texts) := by
        show ((h.execute _ (h.setDepth d s)).1, (h.execute _ (h.setDepth d s)).2, _) = _
        rw [hx]
        rfl
      have hle' : ¬ h.noting.depth (s, texts) ≤ d := hle
      simp only [if_neg hle, if_neg hle', hx, hn, he]
      exact ⟨rfl, rfl⟩

/-! ## Refusals -/

/-- A step about a token fails and leaves the depth, the rows and what is open as they are. A text
is given to the engine only if the token tells a depth below the present one. -/
def Lawful.Refuses (L : h.Lawful δ) (token : String)
    (step : ∀ {τ : Type}, TransactionHost τ → Action τ Unit) (s : σ) : Prop :=
  ∃ e t texts, step h s = (.error e, t) ∧ step h.noting (s, []) = (.error e, t, texts) ∧
    h.depth t = h.depth s ∧ L.view t = L.view s ∧
    ∀ text ∈ texts, Token.TellsBelow token (h.depth s)

namespace Lawful

variable {L : h.Lawful δ} {s : σ}

theorem refuses_endSavepoint {verb token : String} {c : Control} (hs : L.Tokened s)
    (hct : c.text = verb ++ " " ++ token) (hform : Token.Formed token → c.Formed)
    (hnone : Token.Formed token → (L.view s).follow c = none) :
    L.Refuses token (fun h => h.endSavepoint token verb) s := by
  rcases h.noting_endSavepoint token verb s [] with ⟨e, hx, hn⟩ | ⟨d, hd, hlt, hrefused⟩
  · exact ⟨e, s, [], hx, hn, rfl, rfl, fun _ hm => absurd hm List.not_mem_nil⟩
  · have hft := Token.formed_of_depth? hd
    have hvd := L.view_setDepth d s
    obtain ⟨t, e, -, -, hx, he, hv⟩ :=
      execute_none (hform hft) (L.ready_setDepth (d := d) hs.ready) (hvd ▸ hnone hft)
    obtain ⟨hx, hn⟩ := hrefused e t (hct ▸ hx) he
    refine ⟨e, _, _, hx, hn, L.depth_setDepth _ _, ?_, fun _ _ => Token.tellsBelow_of_depth? hd hlt⟩
    rw [L.view_setDepth, hv, hvd]

/-- Rolling back to a savepoint ends with the first step if that fails. -/
theorem Refuses.rollbackTo {token : String} (hne : token ≠ "")
    (hr : L.Refuses token (fun h => h.endSavepoint token "rollback to") s) :
    L.Refuses token (fun h => h.rollbackTo token) s := by
  have hempty : ¬ token.isEmpty = true := fun he => hne (String.isEmpty_iff.mp he)
  have hfails : ∀ {τ : Type} {g : TransactionHost τ} {u v : τ} {e : Error},
      g.endSavepoint token "rollback to" u = (.error e, v) →
      g.rollbackTo token u = (.error e, v) := by
    intro τ g u v e hx
    unfold TransactionHost.rollbackTo
    rw [if_neg hempty, Action.bind_error hx]
  obtain ⟨e, t, texts, hx, hn, hrest⟩ := hr
  exact ⟨e, t, texts, hfails hx, hfails hn, hrest⟩

/-- After any calls that start with nothing open, a token that is not the name of an open savepoint
is refused without any effect. -/
theorem Call.refuses_unopened (hi : L.Idle s) (cs : List L.Call) {token : String}
    (hne : token ≠ "") (hopen : token ∉ (L.view (after cs s)).names) :
    L.Refuses token (fun h => h.release token) (after cs s) ∧
      L.Refuses token (fun h => h.rollbackTo token) (after cs s) := by
  have hs := tokened_after hi.tokened cs
  have hfrom : Token.Formed token → (L.view (after cs s)).savepointsFrom token = [] := fun ht =>
    Nesting.savepointsFrom_eq_nil hs.formed ht hopen
  constructor
  · refine refuses_endSavepoint (c := .release token) hs rfl id fun ht => ?_
    simp only [Nesting.follow, hfrom ht]
  · refine (refuses_endSavepoint (c := .rollbackTo token) hs rfl id fun ht => ?_).rollbackTo hne
    simp only [Nesting.follow, hfrom ht]

/-- The depth of an open savepoint, spelt with a zero before it, in a transaction of two levels. -/
theorem Call.refuses_unopened_padded :
    let cs : List (Session.lawful true).Call :=
      [.begin, .work (Session.stamp true 1), .savepoint, .work (Session.stamp true 2)]
    let t := after cs Session.fresh
    "S0D01" ∉ ((Session.lawful true).view t).names ∧ Session.host.depth t = 2 ∧
      (Session.lawful true).Refuses "S0D01" (fun h => h.release "S0D01") t ∧
      (Session.lawful true).Refuses "S0D01" (fun h => h.rollbackTo "S0D01") t := by
  intro cs t
  have hopen : "S0D01" ∉ ((Session.lawful true).view t).names := by decide +kernel
  exact ⟨hopen, by decide +kernel,
    refuses_unopened ⟨Session.usable_fresh, rfl, rfl⟩ cs (by decide) hopen⟩

end Lawful

end TransactionHost

end RecordMapper
