import RecordMapper.Proofs.Counting
import RecordMapper.Proofs.Filtering

/-!
# Windows of one order

Where the orderings of a query tell all rows apart, every window of the query is cut out of one and
the same list of rows.

1. `Table.TellsApart`: no two rows tie. Then there is one sorted list of them.
2. `Session.Views.toList_window`: the records of a query with any limit and offset.
3. `Session.Views.single_agrees_iff`: when the terminals that give a single record agree with the
   records of the query. They put their own limit and offset in the place of those that it has.
4. `Session.Views.pages`: the pages of a query join to what there is without them.
-/

namespace RecordMapper

/-! ## Orders without ties -/

namespace Table

/-- Rows of which no two different ones tie under some orderings. -/
def TellsApart (t : Table) (ks : List SortTerm) (rows : List Row) : Prop :=
  ∀ a ∈ rows, ∀ b ∈ rows, t.compareRows ks a b = .eq → a = b

theorem eq_of_pairwise {t : Table} {ks : List SortTerm} {rows as bs : List Row}
    (hu : t.TellsApart ks rows) (ha : as.Perm rows) (hb : bs.Perm rows)
    (hsa : as.Pairwise fun a b => t.compareRows ks a b ≠ .gt)
    (hsb : bs.Pairwise fun a b => t.compareRows ks a b ≠ .gt) : as = bs := by
  refine List.Perm.eq_of_pairwise (fun a b hma hmb hab hba => ?_) hsa hsb (ha.trans hb.symm)
  refine hu a (ha.mem_iff.mp hma) b (hb.mem_iff.mp hmb) ?_
  -- neither row comes after the other
  have hswap : t.compareRows ks b a = (t.compareRows ks a b).swap := Std.OrientedCmp.eq_swap
  rw [hswap] at hba
  cases h : t.compareRows ks a b with
  | eq => rfl
  | gt => exact absurd h hab
  | lt =>
    rw [h] at hba
    exact absurd rfl hba

end Table

/-! ## Lists of steps that may fail -/

section Lists

variable {α β : Type} {f : α → Except Error β}

/-- The window of a list becomes the window of what the list becomes. -/
theorem mapM_window {l : List α} {r : List β} (h : l.mapM f = .ok r) (offset : Nat)
    (limit : Option Nat) : (window offset limit l).mapM f = .ok (window offset limit r) := by
  rw [mapM_eq_ok_iff] at h ⊢
  cases limit with
  | none => exact List.forall₂_drop offset h
  | some n => exact List.forall₂_take n (List.forall₂_drop offset h)

theorem map_head?_mapM_window (l : List α) (i : Nat) :
    ((window i (some 1) l).mapM f).map List.head? = l[i]?.mapM f := by
  rw [← List.head?_drop, window]
  cases l.drop i with
  | nil => rfl
  | cons a l =>
    rw [List.take_succ_cons, List.take_zero, List.mapM_cons, List.mapM_nil, List.head?_cons,
      Option.mapM_some]
    cases f a <;> rfl

theorem getElem?_window (l : List α) (offset i : Nat) (limit : Option Nat) :
    (window offset limit l)[i]? = if limit.all (i < ·) then l[offset + i]? else none := by
  cases limit with
  | none => exact List.getElem?_drop
  | some n =>
    rw [window, List.getElem?_take, List.getElem?_drop]
    simp only [Option.all_some, decide_eq_true_eq]

theorem mapM_getElem? {l : List α} {r : List β} (h : l.mapM f = .ok r) (i : Nat) :
    l[i]?.mapM f = .ok r[i]? := by
  rw [← map_head?_mapM_window, mapM_window h, ← List.head?_drop, window]
  cases r.drop i <;> rfl

/-- The head of what becomes of a window: there is none where its limit is zero. -/
theorem head?_of_window {l : List α} {r : List β} {offset : Nat} {limit : Option Nat}
    (h : (window offset limit l).mapM f = .ok r) :
    (limit = some 0 → r.head? = none) ∧ (limit ≠ some 0 → l[offset]?.mapM f = .ok r.head?) := by
  have hhead := mapM_getElem? h 0
  rw [getElem?_window, ← List.head?_eq_getElem?] at hhead
  refine ⟨fun hzero => ?_, fun hzero => ?_⟩
  · rw [hzero] at hhead
    exact (Except.ok.inj hhead).symm
  · rwa [if_pos, Nat.add_zero] at hhead
    rw [Option.all_eq_true]
    exact fun n hn => decide_eq_true (Nat.pos_of_ne_zero fun h0 => hzero (h0 ▸ hn))

theorem getElem_of_window {l : List α} {r : List β} {offset : Nat} {limit : Option Nat}
    (h : (window offset limit l).mapM f = .ok r) {i : Nat} (hi : i < r.length) :
    ∃ a, l[offset + i]? = some a ∧ f a = .ok r[i] := by
  have hitem := mapM_getElem? h i
  rw [getElem?_window, List.getElem?_eq_getElem hi] at hitem
  split at hitem
  · cases ha : l[offset + i]? with
    | none =>
      rw [ha] at hitem
      cases hitem
    | some a =>
      rw [ha, Option.mapM_some] at hitem
      refine ⟨a, rfl, ?_⟩
      cases hf : f a with
      | error e =>
        rw [hf] at hitem
        cases hitem
      | ok b =>
        rw [hf] at hitem
        exact congrArg Except.ok (Option.some.inj (Except.ok.inj hitem))
  · cases hitem

theorem mapM_flatten (ls : List (List α)) :
    (ls.mapM (List.mapM f)).map List.flatten = ls.flatten.mapM f := by
  induction ls with
  | nil => rfl
  | cons l ls ih =>
    rw [List.flatten_cons, List.mapM_append, List.mapM_cons, ← ih]
    cases l.mapM f with
    | error e => rfl
    | ok r => cases ls.mapM (List.mapM f) <;> rfl

theorem mapM_congr {g : α → Except Error β} {l : List α} (h : ∀ a ∈ l, f a = g a) :
    l.mapM f = l.mapM g := by
  induction l with
  | nil => rfl
  | cons a l ih =>
    rw [List.mapM_cons, List.mapM_cons, h a List.mem_cons_self,
      ih fun b hb => h b (List.mem_cons_of_mem a hb)]

theorem flatten_chunks (l : List α) (n k : Nat) :
    ((List.range k).map fun i => (l.drop (i * n)).take n).flatten = l.take (k * n) := by
  induction k with
  | zero => rw [Nat.zero_mul, List.take_zero]; rfl
  | succ k ih =>
    rw [List.range_succ, List.map_append, List.flatten_append, ih, Nat.succ_mul, List.take_add]
    exact congrArg _ (List.append_nil _)

end Lists

/-! ## One query with all its windows -/

namespace Session

/-- The record that a row of a table becomes. -/
def decode (m : Mapping) (t : Table) (r : Row) : Except Error Record :=
  materialize m t.names (t.read r)

variable {s : Session} {link : Link} {m : Mapping} {t : Table} {q : Query} {test : Row → Bool}

/-- Where the orderings tell the rows apart that pass, the query gives the windows of one sorted
list of them. -/
theorem Views.toList_window (h : s.Views link m t) (hm : q.mapping = m)
    (hj : q.state.joined = false) (hz : q.Unbroken) (ht : s.Sifts link q t test)
    (hu : t.TellsApart (q.state.orderings.getD []) (t.rows.filter test)) : ∃ sorted,
      sorted.Perm (t.rows.filter test) ∧
      sorted.Pairwise (fun a b => t.compareRows (q.state.orderings.getD []) a b ≠ .gt) ∧
      ∀ limit offset, Counts limit → Counts offset →
        (toList { q with state := { q.state with limit, offset } } s).1 =
          (window (offset.getD 0) limit sorted).mapM (decode m t) := by
  obtain ⟨sorted, hperm, hsorted, -⟩ :=
    h.toList_apply (q := { q with state := { q.state with limit := none, offset := none } }) hm hj
      (hz.window none none) (ht.window none none) nofun nofun
  refine ⟨sorted, hperm, hsorted, fun limit offset hl ho => ?_⟩
  obtain ⟨sorted', hperm', hsorted', hlist⟩ :=
    h.toList_apply (q := { q with state := { q.state with limit, offset } }) hm hj
      (hz.window limit offset) (ht.window limit offset) hl ho
  rw [t.eq_of_pairwise hu hperm hperm' hsorted hsorted']
  exact hlist

/-! ## Single records -/

/-- A record that has to be there. -/
def found (m : Mapping) : Option Record → Except Error Record
  | some r => .ok r
  | none => .error (.lookup (.emptyQuery m.table))

theorem bind_ne_error {α β : Type} {x : Except Error α} {f : α → Except Error β} {e : Error}
    (hx : x ≠ .error e) (hf : ∀ a, f a ≠ .error e) : (x >>= f) ≠ .error e := by
  cases x with
  | error e' => exact fun h => hx (congrArg Except.error (Except.error.inj h))
  | ok a => exact hf a

theorem mapError_type_ne_lookup {α : Type} (x : Except TypeFault α) (fault : LookupFault) :
    x.mapError Error.type ≠ .error (.lookup fault) := by
  cases x <;> nofun

theorem decode_ne_lookup (m : Mapping) (t : Table) (r : Row) (fault : LookupFault) :
    decode m t r ≠ .error (.lookup fault) := by
  have hcell : ∀ cells i, cellAt cells i ≠ .error (.lookup fault) := fun cells i => by
    unfold cellAt
    split <;> nofun
  have hassign : ∀ c r v, m.assign c r v ≠ .error (.lookup fault) := fun c r v => by
    unfold Mapping.assign
    split
    · split <;> nofun
    · nofun
  unfold decode materialize
  generalize m.record.blank = blank
  induction t.names.zipIdx generalizing blank with
  | nil => nofun
  | cons p ps ih =>
    rw [List.foldlM_cons]
    refine bind_ne_error ?_ ih
    dsimp only
    split
    · nofun
    · exact bind_ne_error (hcell _ _) fun x =>
        bind_ne_error (mapError_type_ne_lookup _ fault) fun v => hassign _ _ v

theorem firstOrNone_apply (q : Query) (s : Session) : (firstOrNone q s).1 =
    (toList { q with state := q.state.take 1 } s).1.map List.head? := by
  unfold firstOrNone
  rcases hx : toList { q with state := q.state.take 1 } s with ⟨e | records, u⟩
  · rw [Action.bind_error hx]
    rfl
  · rw [Action.bind_ok hx]
    rfl

theorem first_eq_firstOrNone (q : Query) (s : Session) :
    (first q s).1 = (firstOrNone q s).1.bind (found q.mapping) := by
  unfold first
  rcases hx : firstOrNone q s with ⟨e | record, u⟩
  · rw [Action.bind_error hx]
    rfl
  · rw [Action.bind_ok hx]
    cases record <;> rfl

theorem found_ne_none {m : Mapping} {t : Table} {o : Option Row} :
    (o.mapM (decode m t) = .ok none ↔ o = none) ∧
      ((o.mapM (decode m t)).bind (found m) = found m none ↔ o = none) := by
  cases o with
  | none => exact ⟨iff_of_true rfl rfl, iff_of_true rfl rfl⟩
  | some r =>
    rw [Option.mapM_some]
    cases hr : decode m t r with
    | error e =>
      refine ⟨iff_of_false nofun nofun, iff_of_false (fun h => ?_) nofun⟩
      exact decode_ne_lookup m t r _ (hr.trans (congrArg Except.error (Except.error.inj h)))
    | ok record => exact ⟨iff_of_false nofun nofun, iff_of_false nofun nofun⟩

/-- The record at a place of the rows is the one at this place of the records of a window just where
there is neither, or both rows become the same. -/
theorem found_eq_iff {sorted : List Row} {offset : Nat} {limit : Option Nat} {records : List Record}
    (h : (window offset limit sorted).mapM (decode m t) = .ok records) (i : Nat) :
    ((sorted[i]?.mapM (decode m t)).bind (found m) = found m records[i]? ↔ sorted.length ≤ i ∨
      i < records.length ∧ sorted[i]?.map (decode m t) = sorted[offset + i]?.map (decode m t)) := by
  by_cases hlast : i < records.length
  · obtain ⟨b, hb, hrecord⟩ := getElem_of_window h hlast
    have hbefore : i < sorted.length :=
      (Nat.le_add_left _ _).trans_lt (List.getElem?_eq_some_iff.mp hb).1
    rw [List.getElem?_eq_getElem hlast, hb, List.getElem?_eq_getElem hbefore, Option.mapM_some,
      or_iff_right (Nat.not_le.mpr hbefore), and_iff_right hlast, Option.map_some, Option.map_some,
      Option.some_inj, hrecord]
    cases decode m t sorted[i] with
    | error e => exact iff_of_false nofun nofun
    | ok r => exact Iff.rfl
  · rw [List.getElem?_eq_none (Nat.le_of_not_lt hlast), found_ne_none.2, List.getElem?_eq_none_iff,
      or_iff_left fun h => hlast h.1]

/-- **When single records agree with the records of a query.** The first record agrees with the list
just where the limit is not zero or no row is behind the offset; then so does the optional one. The
record at a place agrees just where no row that passes has this place, or the row there becomes the
record that the list has: it is counted from the start of the rows that pass, and the limit of the
query does not count. -/
theorem Views.single_agrees_iff (h : s.Views link m t) (hm : q.mapping = m)
    (hj : q.state.joined = false)
    (ht : m.Tests s.connection.settings.ticks t link.scope q.state.predicate test)
    (hu : t.TellsApart (q.state.orderings.getD []) (t.rows.filter test)) (hl : Counts q.state.limit)
    (ho : Counts q.state.offset) {records : List Record} (hlist : (toList q s).1 = .ok records) :
    ∃ sorted : List Row, sorted.Perm (t.rows.filter test) ∧
      sorted.Pairwise (fun a b => t.compareRows (q.state.orderings.getD []) a b ≠ .gt) ∧
      ((firstOrNone q s).1 = .ok records.head? ↔
        q.state.limit ≠ some 0 ∨ sorted.length ≤ q.state.offset.getD 0) ∧
      ((first q s).1 = found m records.head? ↔
        q.state.limit ≠ some 0 ∨ sorted.length ≤ q.state.offset.getD 0) ∧
      ∀ i < 2 ^ 63, ((elementAt q i s).1 = found m records[i]? ↔ sorted.length ≤ i ∨
        i < records.length ∧ sorted[i]?.map (decode m t) =
          sorted[q.state.offset.getD 0 + i]?.map (decode m t)) := by
  have hsifts := h.sifts_of_tests hm ht
  have hz : q.Unbroken := by
    subst hm
    exact h.unbroken hj hsifts hlist
  obtain ⟨sorted, hperm, hsorted, hwindow⟩ := h.toList_window hm hj hz hsifts hu
  have hrecords := (hwindow q.state.limit q.state.offset hl ho).symm.trans hlist
  have hone : Counts (some 1) := by decide
  have hsingle : ∀ offset, Counts offset →
      (toList { q with state := { q.state with limit := some 1, offset } } s).1.map List.head? =
        sorted[offset.getD 0]?.mapM (decode m t) := fun offset ho => by
    rw [hwindow (some 1) offset hone ho, map_head?_mapM_window]
  have hfirst : (firstOrNone q s).1 = sorted[q.state.offset.getD 0]?.mapM (decode m t) := by
    rw [firstOrNone_apply, ← hsingle q.state.offset ho]
    rfl
  have hplace : ∀ i < 2 ^ 63, (elementAt q i s).1 =
      (sorted[i]?.mapM (decode m t)).bind (found m) := fun i hi => by
    have hcount : Counts (some i) := fun k hk => by cases hk; exact hi
    unfold elementAt
    rw [first_eq_firstOrNone, firstOrNone_apply]
    exact (congrArg (·.bind (found q.mapping)) (hsingle (some i) hcount)).trans (by rw [hm])
  obtain ⟨hnohead, hhead⟩ := head?_of_window hrecords
  rw [← hfirst] at hhead
  refine ⟨sorted, hperm, hsorted, ?_, ?_, fun i hi => ?_⟩
  · by_cases hzero : q.state.limit = some 0
    · rw [hnohead hzero, hfirst, found_ne_none.1, List.getElem?_eq_none_iff,
        or_iff_right (not_not.mpr hzero)]
    · exact iff_of_true (hhead hzero) (.inl hzero)
  · by_cases hzero : q.state.limit = some 0
    · rw [hnohead hzero, first_eq_firstOrNone, hm, hfirst, found_ne_none.2,
        List.getElem?_eq_none_iff, or_iff_right (not_not.mpr hzero)]
    · rw [first_eq_firstOrNone, hm, hhead hzero]
      exact iff_of_true rfl (.inl hzero)
  · rw [hplace i hi]
    exact found_eq_iff hrecords i

/-! ### Two notes, the greater number first -/

def twoNotes : List Row := [⟨1, [.null, .text "a"]⟩, ⟨2, [.null, .text "b"]⟩]

theorem tellsApart_twoNotes : (noteTable twoNotes).TellsApart [⟨"Id", false⟩] twoNotes := by
  unfold Table.TellsApart
  decide +kernel

theorem toList_twoNotes (limit offset : Option Nat) (hl : Counts limit) (ho : Counts offset) :
    (toList { mapping := notes, state := { orderings := some [⟨"Id", false⟩], limit, offset } }
      (notebook twoNotes)).1 = .ok (window (offset.getD 0) limit
        [⟨"Note", [.int 2, .text "b"]⟩, ⟨"Note", [.int 1, .text "a"]⟩]) := by
  let q : Query := { mapping := notes, state := { orderings := some [⟨"Id", false⟩] } }
  have hall : notes.Tests true (noteTable twoNotes) (Link.scope { id := 0 }) q.state.predicate
      fun _ => true := fun _ _ => rfl
  obtain ⟨sorted, hperm, hsorted, hwindow⟩ :=
    (views_notebook twoNotes).toList_window (q := q) rfl rfl (by rintro c ⟨⟩; decide)
      ((views_notebook twoNotes).sifts_of_tests rfl hall) tellsApart_twoNotes
  have hreverse : sorted = twoNotes.reverse :=
    (noteTable twoNotes).eq_of_pairwise tellsApart_twoNotes hperm (List.reverse_perm _) hsorted
      (by decide +kernel)
  refine (hwindow limit offset hl ho).trans ?_
  rw [hreverse]
  exact mapM_window rfl _ _

/-- With both notes in the window, the first record and the one at the second place are theirs. -/
theorem single_agrees_iff_twoNotes :
    let q : Query := { mapping := notes, state := { orderings := some [⟨"Id", false⟩], limit := some 2 } }
    (firstOrNone q (notebook twoNotes)).1 = .ok (some ⟨"Note", [.int 2, .text "b"]⟩) ∧
      (elementAt q 1 (notebook twoNotes)).1 = .ok ⟨"Note", [.int 1, .text "a"]⟩ := by
  intro q
  have hall : notes.Tests true (noteTable twoNotes) (Link.scope { id := 0 }) q.state.predicate
      fun _ => true := fun _ _ => rfl
  obtain ⟨sorted, hperm, -, hfirst, -, hplace⟩ :=
    (views_notebook twoNotes).single_agrees_iff rfl rfl hall tellsApart_twoNotes (by decide) nofun
      (toList_twoNotes (some 2) none (by decide) nofun)
  have hzero : q.state.offset.getD 0 + 1 = 1 := rfl
  exact ⟨hfirst.mpr (.inl (by decide)), (hplace 1 (by decide)).mpr (.inr ⟨by decide, by rw [hzero]⟩)⟩

/-- The single records are not always those of the list: of the first zero notes the first one is
the note that there is. -/
theorem not_always_single_agrees : ¬ ∀ {s : Session} {link : Link} {m : Mapping}
    {t : Table} {q : Query} {test : Row → Bool} {records : List Record}, s.Views link m t →
    q.mapping = m →
      q.state.joined = false →
      m.Tests s.connection.settings.ticks t link.scope q.state.predicate test →
      t.TellsApart (q.state.orderings.getD []) (t.rows.filter test) →
      (toList q s).1 = .ok records → (firstOrNone q s).1 = .ok records.head? ∧
        (first q s).1 = found m records.head? ∧ ∀ i, (elementAt q i s).1 = found m records[i]? := by
  intro hclaim
  let rows : List Row := [⟨1, [.null, .text "a"]⟩]
  let q : Query := { mapping := notes, state := { limit := some 0 } }
  have hlist : (toList q (notebook rows)).1 = .ok [] := ok_of_toOption (by decide +kernel)
  have hfirst : (firstOrNone q (notebook rows)).1 = .ok (some ⟨"Note", [.int 1, .text "a"]⟩) :=
    ok_of_toOption (by decide +kernel)
  have hall : notes.Tests true (noteTable rows) (Link.scope { id := 0 }) q.state.predicate
      fun _ => true :=
    fun _ _ => rfl
  have hu : (noteTable rows).TellsApart (q.state.orderings.getD []) rows := by
    intro a ha b hb _
    rw [List.mem_singleton.mp ha, List.mem_singleton.mp hb]
  exact absurd (hfirst.symm.trans (hclaim (views_notebook rows) rfl rfl hall hu hlist).1)
    (by decide +kernel)

end Session

/-! ## Pages -/

/-- A move of a window that stays within what it can hold: an open start is the start of
all rows. -/
theorem QueryState.nextTake_eq {q : QueryState} {n : Nat} (hl : q.limit = some n)
    (ho : q.offset.getD 0 + n ≤ maxCount) :
    q.nextTake = { q with offset := some (q.offset.getD 0 + n) } := by
  unfold nextTake
  simp only [hl]
  cases h : q.offset with
  | none => rw [Option.getD_none, Nat.zero_add]
  | some offset =>
    rw [h, Option.getD_some] at ho
    rw [Option.getD_some, ← hl]
    exact congrArg (fun o => { q with offset := some o }) (Nat.min_eq_left ho)

namespace Query

/-- The page after `k` others: from a start, which may be left open, `n` rows a page. -/
def page (q : Query) (start : Option Nat) (n : Nat) : Nat → Query
  | 0 => { q with state := (start.elim q.state q.state.skip).take n }
  | k + 1 => { q with state := (page q start n k).state.nextTake }

/-- Where the page begins; the start of the first page is left open if it was. -/
def pageOffset (start : Option Nat) (n k : Nat) : Option Nat :=
  if k = 0 then start else some (start.getD 0 + k * n)

theorem getD_pageOffset (start : Option Nat) (n k : Nat) :
    (pageOffset start n k).getD 0 = start.getD 0 + k * n := by
  unfold pageOffset
  split
  · rename_i hk
    rw [hk, Nat.zero_mul, Nat.add_zero]
  · rfl

theorem page_eq {q : Query} (ho : q.state.offset = none) {start : Option Nat} {n k : Nat}
    (hk : start.getD 0 + k * n ≤ QueryState.maxCount) : q.page start n k =
      { q with state := { q.state with limit := some n, offset := pageOffset start n k } } := by
  induction k with
  | zero =>
    cases start with
    | none => exact congrArg (fun o => { q with state := { q.state with limit := some n, offset := o } }) ho
    | some o => rfl
  | succ k ih =>
    rw [Nat.succ_mul] at hk
    have hnext : pageOffset start n (k + 1) = some (start.getD 0 + k * n + n) := by
      rw [pageOffset, if_neg (Nat.succ_ne_zero k), Nat.succ_mul, Nat.add_assoc]
    rw [page, ih (by omega), QueryState.nextTake_eq rfl (by rw [getD_pageOffset]; omega),
      getD_pageOffset, hnext]

end Query

namespace Session

variable {s : Session} {link : Link} {m : Mapping} {t : Table} {q : Query} {test : Row → Bool}

/-- **Pages join to the whole.** Where the orderings tell the rows apart that pass, there is one
sorted list of them that the query gives without a window. The page after `k` others has just the
next `n` rows of this list behind the start and those pages. It is empty just where they reach to
the end, and then the pages before it join to all that is behind the start. The names of the table
and of the columns that the rows are sorted by have no zero character, at which the engine would
stop reading. -/
theorem Views.pages (h : s.Views link m t) (hm : q.mapping = m) (hj : q.state.joined = false)
    (hz : NoZero m.table) (hk : ∀ k ∈ q.state.orderings.getD [], NoZero k.column)
    (hp : ∀ e ∈ q.state.predicate, m.Legible e)
    (ht : m.Admits s.connection.settings.ticks t link.scope q.state.predicate test)
    (hu : t.TellsApart (q.state.orderings.getD []) (t.rows.filter test)) (hl : q.state.limit = none)
    (ho : q.state.offset = none) (start : Option Nat) {n : Nat} (hn : 1 ≤ n) : ∃ sorted : List Row,
      sorted.Perm (t.rows.filter test) ∧
      sorted.Pairwise (fun a b => t.compareRows (q.state.orderings.getD []) a b ≠ .gt) ∧
      (toList q s).1 = sorted.mapM (decode m t) ∧
      ∀ k, start.getD 0 + (k + 1) * n < 2 ^ 63 →
        (toList (q.page start n k) s).1 =
            ((sorted.drop (start.getD 0 + k * n)).take n).mapM (decode m t) ∧
        (∀ records, (toList q s).1 = .ok records → (toList (q.page start n k) s).1 =
          .ok ((records.drop (start.getD 0 + k * n)).take n)) ∧
        ((toList (q.page start n k) s).1 = .ok [] ↔ sorted.length ≤ start.getD 0 + k * n) ∧
        ((toList (q.page start n k) s).1 = .ok [] →
          ((List.range k).mapM fun i => (toList (q.page start n i) s).1).map List.flatten =
            (sorted.drop (start.getD 0)).mapM (decode m t)) := by
  obtain ⟨sorted, hperm, hsorted, hwindow⟩ := h.toList_window hm hj
    (unbroken_of_admits hm hj hp ht hz hk) (h.sifts_of_admits hm hp ht) hu
  have hall : (toList q s).1 = sorted.mapM (decode m t) := by
    refine (hwindow q.state.limit q.state.offset (by rw [hl]; nofun) (by rw [ho]; nofun)).trans ?_
    rw [hl, ho]
    rfl
  have hpage : ∀ k, start.getD 0 + (k + 1) * n < 2 ^ 63 → (toList (q.page start n k) s).1 =
      ((sorted.drop (start.getD 0 + k * n)).take n).mapM (decode m t) := fun k hk => by
    rw [Nat.succ_mul] at hk
    have hmax : QueryState.maxCount = 2 ^ 64 - 1 := rfl
    have hoffset : Counts (Query.pageOffset start n k) := fun o hmem => by
      have hget := Query.getD_pageOffset start n k
      rw [Option.mem_def.mp hmem, Option.getD_some] at hget
      omega
    rw [Query.page_eq ho (by omega), hwindow _ _ (fun l hmem => by cases hmem; omega) hoffset,
      Query.getD_pageOffset]
    rfl
  have hempty : ∀ k, start.getD 0 + (k + 1) * n < 2 ^ 63 →
      ((toList (q.page start n k) s).1 = .ok [] ↔ sorted.length ≤ start.getD 0 + k * n) := by
    intro k hk
    rw [hpage k hk, mapM_eq_ok_iff, List.forall₂_nil_right_iff, List.take_eq_nil_iff,
      or_iff_right (by omega), List.drop_eq_nil_iff]
  refine ⟨sorted, hperm, hsorted, hall, fun k hk => ⟨hpage k hk, fun records hrecords => ?_,
    hempty k hk, fun hend => ?_⟩⟩
  · rw [hpage k hk]
    exact mapM_window (hall.symm.trans hrecords) (start.getD 0 + k * n) (some n)
  · have hbefore : ∀ i ∈ List.range k, (toList (q.page start n i) s).1 =
        (((sorted.drop (start.getD 0)).drop (i * n)).take n).mapM (decode m t) := fun i hi => by
      have hik : (i + 1) * n ≤ (k + 1) * n :=
        Nat.mul_le_mul_right n (Nat.succ_le_succ (List.mem_range.mp hi).le)
      rw [hpage i (by omega), List.drop_drop]
    have hreach := (hempty k hk).mp hend
    calc ((List.range k).mapM fun i => (toList (q.page start n i) s).1).map List.flatten
      _ = (((List.range k).map fun i => ((sorted.drop (start.getD 0)).drop (i * n)).take n).mapM
            (List.mapM (decode m t))).map
              List.flatten := by rw [mapM_congr hbefore, List.mapM_map]; rfl
      _ = ((sorted.drop (start.getD 0)).take (k * n)).mapM (decode m t) := by
        rw [mapM_flatten, flatten_chunks]
      _ = (sorted.drop (start.getD 0)).mapM (decode m t) := by
        rw [List.take_of_length_le (by rw [List.length_drop]; omega)]

/-- The two notes on pages of one: the second page, and what the pages before the empty one
join to. -/
theorem pages_twoNotes :
    let q : Query := { mapping := notes, state := { orderings := some [⟨"Id", false⟩] } }
    (toList (q.page none 1 1) (notebook twoNotes)).1 = .ok [⟨"Note", [.int 1, .text "a"]⟩] ∧
      ((List.range 2).mapM fun i => (toList (q.page none 1 i) (notebook twoNotes)).1).map
        List.flatten =
        .ok [⟨"Note", [.int 2, .text "b"]⟩, ⟨"Note", [.int 1, .text "a"]⟩] := by
  intro q
  have hlegible : ∀ e ∈ q.state.predicate, notes.Legible e := nofun
  have hall : notes.Admits true (noteTable twoNotes) (Link.scope { id := 0 }) q.state.predicate
      fun _ => true := fun _ _ => rfl
  have hlist := toList_twoNotes none none nofun nofun
  obtain ⟨sorted, hperm, -, hsorted, hpages⟩ :=
    (views_notebook twoNotes).pages (q := q) rfl rfl (by decide)
    (List.forall_mem_singleton.mpr (by decide)) hlegible hall tellsApart_twoNotes rfl rfl none (Nat.le_refl 1)
  obtain ⟨-, hsecond, -, -⟩ := hpages 1 (by decide)
  obtain ⟨-, -, hempty, hjoin⟩ := hpages 2 (by decide)
  have hend : sorted.length ≤ 2 := hperm.length_eq.le
  exact ⟨hsecond _ hlist, (hjoin (hempty.mpr hend)).trans (hsorted.symm.trans hlist)⟩

/-- Pages are not always parts of the whole: behind a call whose name makes a comment of the rest of
the statement, the first page of one note has two. -/
theorem not_always_pages : ¬∀ {s : Session} {link : Link} {m : Mapping} {t : Table} {q : Query}
    {test : Row → Bool} {records : List Record} {start : Option Nat} {n k : Nat}, s.Views link m t →
      q.mapping = m → q.state.joined = false →
      m.Admits s.connection.settings.ticks t link.scope q.state.predicate test →
      t.TellsApart (q.state.orderings.getD []) (t.rows.filter test) → q.state.limit = none →
      q.state.offset = none → 1 ≤ n → start.getD 0 + (k + 1) * n < 2 ^ 63 →
      (toList q s).1 = .ok records → (toList (q.page start n k) s).1 =
        .ok ((records.drop (start.getD 0 + k * n)).take n) := by
  intro hclaim
  let q : Query :=
    { mapping := notes
      state := { predicate := some (.call "1=1 --" []), orderings := some [⟨"Id", false⟩] } }
  let both : List Record := [⟨"Note", [.int 1, .text "a"]⟩, ⟨"Note", [.int 2, .text "b"]⟩]
  have hlist : (toList q (notebook twoNotes)).1 = .ok both := ok_of_toOption (by decide +kernel)
  have hpage : (toList (q.page none 1 0) (notebook twoNotes)).1 = .ok both :=
    ok_of_toOption (by decide +kernel)
  have hadmits : notes.Admits true (noteTable twoNotes) (Link.scope { id := 0 }) q.state.predicate
      fun _ => true := by
    have hsaid : ∀ r ∈ twoNotes, notes.says? true (noteTable twoNotes) (Link.scope { id := 0 })
        (.call "1=1 --" []) r = some (Cell.ofBool true) := by decide +kernel
    exact ⟨fun _ => Cell.ofBool true, Mapping.computes_of_says (r := ⟨1, [.null, .text "a"]⟩)
      List.mem_cons_self fun r hr => Mapping.says?_eq_some_iff.mp (hsaid r hr), fun _ _ => rfl⟩
  have hone : (toList (q.page none 1 0) (notebook twoNotes)).1 = .ok ((both.drop 0).take 1) :=
    hclaim (views_notebook twoNotes) rfl rfl hadmits tellsApart_twoNotes rfl rfl (Nat.le_refl 1)
      (by decide) hlist
  exact absurd (hpage.symm.trans hone) (by decide +kernel)

end Session

end RecordMapper
