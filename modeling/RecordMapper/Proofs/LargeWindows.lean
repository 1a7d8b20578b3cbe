import RecordMapper.Proofs.Answering
import RecordMapper.Proofs.Floats
import RecordMapper.Proofs.Paging

/-!
# Windows of any size

A query counts in sixty-four bits without a sign, and the engine reads what it counted with one.

1. `QueryStep.paging`: the window that steps ask for, its offset as a sum without a bound.
2. `Query.clamps_of_steps`: the query they make has this window, the offset cut off at the
   greatest count.
3. `SelectPlan.windowOf_any`: the engine refuses a window just where it looks at a count that
   sixty-three bits do not hold.
4. `Session.Views.toList_paged`: what a query gives with any window.
-/

namespace RecordMapper

/-! ## Windows that steps ask for -/

namespace QueryStep

def count? : QueryStep → Option Nat
  | take n | skip n => some n
  | _ => none

/-- What a step makes of a limit and an offset. -/
def turn (w : Option Nat × Option Nat) : QueryStep → Option Nat × Option Nat
  | take n => (some n, w.2)
  | skip n => (w.1, some n)
  | nextTake => (w.1, w.1.elim w.2 fun n => some (w.2.getD 0 + n))
  | _ => w

/-- The limit and the offset that some steps ask for. -/
def paging (steps : List QueryStep) : Option Nat × Option Nat := steps.foldl turn (none, none)

end QueryStep

open QueryState (maxCount)

/-- A query has a window, its offset cut off at the greatest count. -/
structure QueryState.Clamps (q : QueryState) (w : Option Nat × Option Nat) : Prop where
  limit : q.limit = w.1
  offset : q.offset = w.2.map (min · maxCount)
  fits : ∀ n ∈ w.1, n ≤ maxCount

/-- A sum that is cut off after some of its terms is cut off once. -/
theorem QueryState.Clamps.nextTake {q : QueryState} {w : Option Nat × Option Nat} (h : q.Clamps w) :
    q.nextTake.Clamps (QueryStep.turn w .nextTake) := by
  obtain ⟨limit, offset⟩ := w
  obtain ⟨predicate, orderings, limit', offset', deferred, joined⟩ := q
  obtain ⟨hl, ho, hfits⟩ := h
  obtain rfl : limit' = limit := hl
  obtain rfl : offset' = offset.map (min · maxCount) := ho
  cases limit' with
  | none => exact ⟨rfl, rfl, hfits⟩
  | some n =>
    have hsmall : n ≤ maxCount := hfits n rfl
    cases offset with
    | none =>
      have hsum : n = min (0 + n) maxCount :=
        ((congrArg (min · maxCount) (Nat.zero_add n)).trans (Nat.min_eq_left hsmall)).symm
      exact ⟨rfl, congrArg some hsum, hfits⟩
    | some o =>
      have hsum : min (min o maxCount + n) maxCount = min (o + n) maxCount := by omega
      exact ⟨rfl, congrArg some hsum, hfits⟩

namespace Query

variable {q q' : Query} {w : Option Nat × Option Nat}

theorem clamps_of_step {s : QueryStep} (h : q.step s = .ok q') (hw : q.state.Clamps w)
    (hn : ∀ n ∈ s.count?, n ≤ maxCount) : q'.state.Clamps (QueryStep.turn w s) := by
  cases s with
  | take n =>
    cases h
    exact ⟨rfl, hw.offset, fun k hk => by cases hk; exact hn n rfl⟩
  | skip n =>
    cases h
    exact ⟨hw.limit, congrArg some (Nat.min_eq_left (hn n rfl)).symm, hw.fits⟩
  | nextTake =>
    cases h
    exact hw.nextTake
  | order selector ascending =>
    obtain ⟨c, -, h⟩ := ok_of_bind h
    cases h
    exact ⟨hw.limit, hw.offset, hw.fits⟩
  | _ =>
    cases h
    exact ⟨hw.limit, hw.offset, hw.fits⟩

/-- However often a sum was cut off, the offset is the whole sum cut off once. -/
theorem clamps_of_steps {steps : List QueryStep} (h : steps.foldlM step q = .ok q')
    (hw : q.state.Clamps w) (hn : ∀ s ∈ steps, ∀ n ∈ s.count?, n ≤ maxCount) :
    q'.state.Clamps (steps.foldl QueryStep.turn w) := by
  induction steps generalizing q w with
  | nil =>
    cases h
    exact hw
  | cons s r ih =>
    rw [List.foldlM_cons] at h
    obtain ⟨mid, hs, h⟩ := ok_of_bind h
    rw [List.foldl_cons]
    exact ih h (clamps_of_step hs hw (hn s List.mem_cons_self))
      fun s hs => hn s (List.mem_cons_of_mem _ hs)

end Query

/-! ## Counts that the engine refuses -/

namespace SelectPlan

variable {limit offset : Option Nat}

theorem bound_large {n : Nat} (h : 2 ^ 63 ≤ n) (h' : n < 2 ^ 64) (s : Scope) :
    bound s (numberFormula n) = .error .mismatch := by
  obtain ⟨negative, m, e, hview, he, hsize⟩ := BinaryView.ofNat_large h h'
  have hcell : Cell.ofInt n = .real (Float.ofNat n) := by
    have hfits : ¬FitsInt64 (n : Int) := by
      unfold FitsInt64 minInt64 maxInt64
      omega
    unfold Cell.ofInt int64?
    rw [if_neg hfits]
    show Cell.ofFloat (Float.ofNat n) = _
    unfold Cell.ofFloat
    rw [hview]
  have hstored : Cell.stored .numeric (.real (Float.ofNat n)) = .real (Float.ofNat n) := by
    show Cell.integralReal (Float.ofNat n) = _
    unfold Cell.integralReal
    rw [hview]
    refine if_neg fun hinside => ?_
    obtain ⟨-, hlow, hhigh⟩ := hinside
    have htwo : twoTo e.toNat = 2 ^ e.toNat := rfl
    unfold BinaryView.truncated BinaryView.signed at hlow hhigh
    rw [if_pos he, htwo] at hlow hhigh
    unfold minInt64 at hlow
    unfold maxInt64 at hhigh
    cases negative with
    | true =>
      rw [if_pos rfl] at hlow
      omega
    | false =>
      rw [if_neg Bool.false_ne_true] at hhigh
      omega
  unfold bound numberFormula
  rw [hcell]
  simp only [Formula.eval, bind, Except.bind, hstored]
  rfl

/-- A window with a count that the engine does not read as an integer. Where the limit is zero it
looks at no offset. -/
def Oversized (limit offset : Option Nat) : Prop :=
  2 ^ 63 ≤ limit.getD 0 ∨ limit ≠ some 0 ∧ 2 ^ 63 ≤ offset.getD 0

instance : Decidable (Oversized limit offset) :=
  inferInstanceAs (Decidable (2 ^ 63 ≤ limit.getD 0 ∨ limit ≠ some 0 ∧ 2 ^ 63 ≤ offset.getD 0))

theorem counts_iff {n : Option Nat} : Counts n ↔ n.getD 0 < 2 ^ 63 := by
  cases n with
  | none => exact iff_of_true nofun (by decide)
  | some n => exact ⟨fun h => h n rfl, fun h k hk => by cases hk; exact h⟩

theorem oversized_min : Oversized limit (offset.map (min · maxCount)) ↔ Oversized limit offset := by
  have hmax : maxCount = 2 ^ 64 - 1 := rfl
  unfold Oversized
  cases offset with
  | none => exact Iff.rfl
  | some o =>
    rw [Option.map_some, Option.getD_some, Option.getD_some, le_inf_iff]
    exact or_congr_right (and_congr_right fun _ => and_iff_left (by omega))

/-- The limit of a window with an offset; one that is none is written as a negative number. -/
theorem mapM_limit (hl : Counts limit) (o : Nat) (s : Scope) :
    (windowFormulas limit (some o)).1.mapM (bound s) = .ok (some (limit.elim (-1) Int.ofNat)) := by
  cases limit with
  | none => rfl
  | some n =>
    rw [windowFormulas, Option.mapM_some, bound_number (hl n rfl) s]
    rfl

/-- The formulas of a window of any counts give it, or are refused. -/
theorem windowOf_any {p : SelectPlan} (hl : ∀ n ∈ limit, n < 2 ^ 64) (ho : ∀ n ∈ offset, n < 2 ^ 64)
    (hpl : p.limit = (windowFormulas limit offset).1)
    (hpo : p.offset = (windowFormulas limit offset).2) (s : Scope) :
    p.windowOf s = if Oversized limit offset then .error .mismatch
      else .ok (if limit = some 0 then 0 else offset.getD 0, limit) := by
  by_cases hlimit : Counts limit
  · by_cases hoffset : Counts offset
    · have hfits : ¬Oversized limit offset := fun h =>
        h.elim (Nat.not_le.mpr (counts_iff.mp hlimit)) fun h =>
          Nat.not_le.mpr (counts_iff.mp hoffset) h.2
      rw [if_neg hfits]
      exact windowOf_formulas hlimit hoffset hpl hpo s
    · have hlarge : 2 ^ 63 ≤ offset.getD 0 := Nat.not_lt.mp fun h => hoffset (counts_iff.mpr h)
      obtain ⟨o, rfl⟩ : ∃ o, offset = some o :=
        Option.ne_none_iff_exists'.mp fun h => hoffset (h ▸ nofun)
      have hfirst : p.limit.mapM (bound s) = _ := hpl ▸ mapM_limit hlimit o s
      have hsecond : p.offset.mapM (bound s) = .error .mismatch := by
        have hformula : p.offset = some (numberFormula o) := by rw [hpo]; cases limit <;> rfl
        rw [hformula, Option.mapM_some, bound_large (n := o) hlarge (ho o rfl) s]
        rfl
      unfold windowOf
      rw [hfirst, hsecond]
      by_cases hzero : limit = some 0
      · subst hzero
        rw [if_neg (show ¬Oversized (some 0) (some o) from fun h => h.elim (by decide) fun h => h.1 rfl)]
        rfl
      · have hne : some (limit.elim (-1) Int.ofNat) ≠ some (0 : Int) := by
          cases limit with
          | none => decide
          | some n => exact fun h => hzero (congrArg some (Int.natCast_eq_zero.mp (Option.some.inj h)))
        rw [if_pos (show Oversized limit (some o) from .inr ⟨hzero, hlarge⟩)]
        simp only [hne, if_false, bind, Except.bind]
  · have hlarge : 2 ^ 63 ≤ limit.getD 0 := Nat.not_lt.mp fun h => hlimit (counts_iff.mpr h)
    obtain ⟨n, rfl⟩ : ∃ n, limit = some n :=
      Option.ne_none_iff_exists'.mp fun h => hlimit (h ▸ nofun)
    have hfirst : p.limit.mapM (bound s) = .error .mismatch := by
      rw [hpl, windowFormulas, Option.mapM_some, bound_large (n := n) hlarge (hl n rfl) s]
      rfl
    unfold windowOf
    rw [if_pos (show Oversized (some n) offset from .inl hlarge), hfirst]
    rfl

end SelectPlan

namespace Session

open SelectPlan (Oversized windowFormulas)

variable {s : Session} {link : Link} {m : Mapping} {t : Table} {q : Query}

theorem window_of_length_le {α : Type} {items : List α} {k : Nat} (h : items.length ≤ k)
    (limit : Option Nat) : window k limit items = [] := by
  have hnone : items.drop k = [] := List.drop_eq_nil_of_le h
  cases limit with
  | none => exact hnone
  | some n => rw [window, hnone, List.take_nil]

/-- Where the query without a window is answered, the one with any window gives this window of the
answer or is refused, and the answer has no more records than the table rows. -/
theorem Views.windows_of_answer (h : s.Views link q.mapping t) (hj : q.state.joined = false)
    (hp : ∀ e ∈ q.state.predicate, q.mapping.Legible e) {records : List Record}
    (hall : (toList { q with state := { q.state with limit := none, offset := none } } s).1 =
      .ok records) :
    records.length ≤ t.rows.length ∧ ∀ limit offset, (∀ n ∈ limit, n < 2 ^ 64) →
    (∀ n ∈ offset, n < 2 ^ 64) →
      (toList { q with state := { q.state with limit, offset } } s).1 =
        if Oversized limit offset then .error (.ofFault .mismatch)
        else .ok (window (offset.getD 0) limit records) := by
  obtain ⟨test, hsifts⟩ := Views.sifts_of_answer
    (q := { q with state := { q.state with limit := none, offset := none } }) h hj rfl rfl hp hall
  have hz := Views.unbroken (q := { q with state := { q.state with limit := none, offset := none } }) h hj
    hsifts hall
  obtain ⟨known, text, arguments, own, good, hknown, hsame, hc⟩ := hsifts
  obtain ⟨f, visited, hv, hf, hlist⟩ := h.toList_windows hj hz hknown hsame
    (q := { q with state := { q.state with limit := none, offset := none } }) hc
  -- all windows are cut out of the rows that pass, sorted
  let sorted := (visited.filter test).mergeSort fun a b =>
    t.compareRows (q.state.orderings.getD []) a b != .gt
  have hcut : ∀ {limit offset k n},
    (t.plan f (q.state.orderings.getD []) (windowFormulas limit offset).1
      (windowFormulas limit offset).2).windowOf { link.scope with parameters := own } = .ok (k, n) →
        (toList { q with state := { q.state with limit, offset } } s).1 =
          (window k n sorted).mapM (decode q.mapping t) := fun hw =>
    (hlist _ _).trans (collect_plan hw fun r hr => hf r (hv.mem_iff.mp hr))
  have hnone : Counts none := nofun
  have hrecords : sorted.mapM (decode q.mapping t) = .ok records :=
    (hcut (SelectPlan.windowOf_formulas hnone hnone rfl rfl _)).symm.trans hall
  refine ⟨?_, fun limit offset hl ho => ?_⟩
  · have hlength := (mapM_eq_ok_iff.mp hrecords).length_eq
    have hsorted : sorted.Perm (t.rows.filter test) :=
      (List.mergeSort_perm _ _).trans (hv.filter test)
    rw [← hlength, hsorted.length_eq]
    exact List.length_filter_le _ _
  · have hw := SelectPlan.windowOf_any (p := t.plan f (q.state.orderings.getD [])
      (windowFormulas limit offset).1 (windowFormulas limit offset).2) hl ho rfl rfl
      { link.scope with parameters := own }
    by_cases hover : Oversized limit offset
    · rw [if_pos hover] at hw ⊢
      refine (hlist limit offset).trans ?_
      unfold SelectPlan.run
      rw [hw]
      rfl
    · rw [if_neg hover] at hw ⊢
      refine (hcut hw).trans (Eq.trans ?_ (mapM_window hrecords (offset.getD 0) limit))
      by_cases hzero : limit = some 0
      · rw [hzero, window_zero, window_zero]
      · rw [if_neg hzero]

/-- **Windows of any size.** The window of a query is the one that its steps ask for, in any order
and number, its offset cut off at the greatest count of sixty-four bits. Where the query without its
window is answered, it is refused just where the engine looks at a limit or an offset that
sixty-three bits do not hold, and gives the window of the answer otherwise: none of it where the
offset is behind the end of the table, and all of it behind the offset where the limit is. -/
theorem Views.toList_paged (h : s.Views link m t) {steps : List QueryStep}
    (hq : steps.foldlM Query.step { mapping := m } = .ok q)
    (hn : ∀ step ∈ steps, ∀ n ∈ step.count?, n < 2 ^ 64)
    (hp : ∀ e ∈ QueryStep.predicates steps, m.Legible e) {records : List Record}
    (hall : (toList { q with state := { q.state with limit := none, offset := none } } s).1 = .ok records)
    {limit offset : Option Nat} (hw : QueryStep.paging steps = (limit, offset)) :
    q.state.limit = limit ∧ q.state.offset = offset.map (min · maxCount) ∧
      (toList q s).1 = (if Oversized limit offset then .error (.ofFault .mismatch)
        else .ok (window (offset.getD 0) limit records)) ∧
      (¬Oversized limit offset → t.rows.length ≤ offset.getD 0 → (toList q s).1 = .ok []) ∧
      (¬Oversized limit offset → (∀ n ∈ limit, t.rows.length ≤ n) →
        (toList q s).1 = .ok (records.drop (offset.getD 0))) := by
  have hmax : maxCount = 2 ^ 64 - 1 := rfl
  obtain ⟨hmapping, hjoined, hpredicate, -⟩ := Query.gathers_of_steps hq
  obtain rfl : q.mapping = m := hmapping
  have hclamps : q.state.Clamps (limit, offset) := hw ▸ Query.clamps_of_steps hq ⟨rfl, rfl, nofun⟩
    fun step hs n hc => by
      have := hn step hs n hc
      omega
  obtain ⟨hl, ho, hfits⟩ := hclamps
  have hlegible : ∀ e ∈ q.state.predicate, q.mapping.Legible e := by
    rw [hpredicate]
    exact Mapping.legible_conjoined nofun hp
  obtain ⟨hlength, hwindows⟩ := h.windows_of_answer hjoined hlegible hall
  have hlist : (toList q s).1 = if Oversized limit offset then .error (.ofFault .mismatch)
      else .ok (window (offset.getD 0) limit records) := by
    have hlimit : ∀ n ∈ q.state.limit, n < 2 ^ 64 := fun n hmem => by
      have := hfits n (hl ▸ hmem)
      omega
    have hoffset : ∀ n ∈ q.state.offset, n < 2 ^ 64 := fun n hmem => by
      rw [ho] at hmem
      obtain ⟨k, -, rfl⟩ := Option.map_eq_some_iff.mp hmem
      omega
    refine (hwindows q.state.limit q.state.offset hlimit hoffset).trans ?_
    rw [hl, ho]
    by_cases hover : Oversized limit offset
    · rw [if_pos hover, if_pos (SelectPlan.oversized_min.mpr hover)]
    · rw [if_neg hover, if_neg (mt SelectPlan.oversized_min.mp hover)]
      by_cases hzero : limit = some 0
      · rw [hzero, window_zero, window_zero]
      · -- the engine looks at the offset, and it is not cut off
        have hsmall : offset.getD 0 < 2 ^ 63 := Nat.not_le.mp fun h => hover (.inr ⟨hzero, h⟩)
        cases offset with
        | none => rfl
        | some o =>
          rw [Option.getD_some] at hsmall
          rw [Option.map_some, Option.getD_some, Option.getD_some, Nat.min_eq_left (by omega)]
  refine ⟨hl, ho, hlist, fun hover hend => ?_, fun hover hend => ?_⟩
  · rw [hlist, if_neg hover, window_of_length_le (hlength.trans hend)]
  · rw [hlist, if_neg hover]
    cases limit with
    | none => rfl
    | some n =>
      have hbehind : (records.drop (offset.getD 0)).length ≤ n := by
        have := hend n rfl
        rw [List.length_drop]
        omega
      rw [window, List.take_of_length_le hbehind]

/-- Three notes on pages of one: the third page. A limit that sixty-three bits do not hold is
refused. -/
theorem toList_paged_notebook :
    let rows : List Row := [⟨1, [.null, .text "a"]⟩, ⟨2, [.null, .text "b"]⟩,
      ⟨3, [.null, .text "c"]⟩]
    let positive : QueryStep :=
      .filter (.binary .gt (.property "Id") (.constant (.scalar (.int 0))))
    (∃ q, [positive, .take 1, .nextTake, .nextTake].foldlM Query.step { mapping := notes } = .ok q ∧
        (toList q (notebook rows)).1 = .ok [⟨"Note", [.int 3, .text "c"]⟩]) ∧
      ∃ q, [positive, .take (2 ^ 63)].foldlM Query.step { mapping := notes } = .ok q ∧
        (toList q (notebook rows)).1 = .error (.ofFault .mismatch) := by
  intro rows positive
  let whole : Query :=
    { mapping := notes
      state := { predicate := some (.binary .gt (.property "Id") (.constant (.scalar (.int 0)))) } }
  have hlegible : notes.Legible (.binary .gt (.property "Id") (.constant (.scalar (.int 0)))) :=
    ⟨rfl, fun _ => ⟨_, rfl⟩⟩
  have hall : (toList whole (notebook rows)).1 =
      .ok [⟨"Note", [.int 1, .text "a"]⟩, ⟨"Note", [.int 2, .text "b"]⟩, ⟨"Note", [.int 3, .text "c"]⟩] :=
    ok_of_toOption (by decide +kernel)
  have hthree : [positive, .take 1, .nextTake, .nextTake].foldlM Query.step { mapping := notes } =
      .ok { whole with state := { whole.state with limit := some 1, offset := some 2 } } := rfl
  have hlarge : [positive, .take (2 ^ 63)].foldlM Query.step { mapping := notes } =
      .ok { whole with state := { whole.state with limit := some (2 ^ 63) } } := rfl
  obtain ⟨-, -, hthird, -⟩ := (views_notebook rows).toList_paged hthree
    (by simp [positive, QueryStep.count?]) (by simpa [QueryStep.predicates, positive] using hlegible)
    hall rfl
  obtain ⟨-, -, hrefused, -⟩ := (views_notebook rows).toList_paged hlarge
    (by simp [positive, QueryStep.count?]) (by simpa [QueryStep.predicates, positive] using hlegible)
    hall rfl
  exact ⟨⟨_, rfl, hthird.trans (if_neg (by decide))⟩, _, rfl, hrefused.trans (if_pos (by decide))⟩

/-- A window is not always given: a limit that sixty-three bits do not hold is refused where all
records would be in it. -/
theorem not_always_paged : ¬∀ {s : Session} {link : Link} {m : Mapping} {t : Table} {q : Query}
    {steps : List QueryStep} {records : List Record}, s.Views link m t →
      steps.foldlM Query.step { mapping := m } = .ok q →
      (∀ step ∈ steps, ∀ n ∈ step.count?, n < 2 ^ 64) →
      (∀ e ∈ QueryStep.predicates steps, m.Legible e) →
      (toList { q with state := { q.state with limit := none, offset := none } } s).1 =
        .ok records →
      (toList q s).1 = .ok (window (q.state.offset.getD 0) q.state.limit records) := by
  intro hclaim
  let rows : List Row := [⟨1, [.null, .text "a"]⟩]
  let q : Query := { mapping := notes, state := { limit := some (2 ^ 63) } }
  have hsteps : [QueryStep.take (2 ^ 63)].foldlM Query.step { mapping := notes } = .ok q := rfl
  have hall : (toList { mapping := notes } (notebook rows)).1 =
      .ok [⟨"Note", [.int 1, .text "a"]⟩] :=
    ok_of_toOption (by decide +kernel)
  have hgiven := hclaim (views_notebook rows) hsteps (by simp [QueryStep.count?])
    (by simp [QueryStep.predicates]) hall
  have hrefused := ((views_notebook rows).windows_of_answer (q := q) rfl nofun hall).2
    (some (2 ^ 63)) none (by simp) nofun
  rw [if_pos (by decide)] at hrefused
  cases hgiven.symm.trans hrefused

end Session

end RecordMapper
