import Mathlib.Data.List.TakeWhile
import RecordMapper.Proofs.Nesting

/-!
# Transactions as a stack of snapshots

What nested transactions mean: a stack of the rows to go back to. The stack knows no depths, and a
token is no more than a name to it.

1. `Snapshots.apply` is the stack machine.
2. `Nesting.snapshots` reads the stack off the engine's transaction.
3. `Nesting.Sound` is what holds of each transaction that the transaction functions have opened: the
   savepoints are named by consecutive depths. Under it a statement moves the stack as it should,
   and the depth in a token is the height of the stack under its frame.
-/

namespace RecordMapper

variable {δ : Type}

/-! ## The machine -/

theorem getLast?_of_suffix {α : Type} {l m : List α} (h : l <:+ m) (hl : l ≠ []) :
    l.getLast? = m.getLast? := by
  rw [List.getLast?_eq_some_getLast hl,
    List.getLast?_eq_some_getLast fun hm => hl (List.suffix_nil.mp (hm ▸ h)), h.getLast hl]

/-- One nested transaction: the token that ends it, if there is one, and the rows to go back to. -/
structure Frame (δ : Type) where
  token : Option String
  saved : δ

/-- The rows, and the frames of the nested transactions with the newest first. -/
structure Snapshots (δ : Type) where
  rows : δ
  frames : List (Frame δ) := []

/-- What may happen to the stack. -/
inductive Event (δ : Type)
  | write (rows : δ)
  | begin
  | savepoint (token : String)
  | rollback
  | rollbackTo (token : String)
  | release (token : String)
  | commit

/-- Whether a token ends the frame. One that tells a depth beyond all counters ends nothing. -/
def Frame.answers (token : String) (f : Frame δ) : Bool :=
  f.token == some token && (Token.depth? token).isSome

theorem Frame.depth_of_answers {token : String} {f : Frame δ} (h : f.answers token = true) :
    (Token.depth? token).isSome = true := by
  unfold answers at h
  exact (Bool.and_eq_true_iff.mp h).2

namespace Snapshots

variable (m : Snapshots δ)

/-- The newest frame that a token ends, and the older ones. -/
def framesFrom (token : String) : List (Frame δ) := m.frames.dropWhile fun f => !f.answers token

/-- The rows of the oldest frame with an empty stack. -/
def restored : Snapshots δ := { rows := ((m.frames.getLast?).map Frame.saved).getD m.rows }

/-- The stack after an event; `none` if the event is not possible, and then nothing changes. -/
def apply : Event δ → Option (Snapshots δ)
  | .write rows => some { m with rows }
  | .begin => if m.frames.isEmpty then some { m with frames := [⟨none, m.rows⟩] } else none
  | .savepoint token => some { m with frames := ⟨some token, m.rows⟩ :: m.frames }
  | .rollback => some m.restored
  | .rollbackTo token =>
    if token.isEmpty then some m.restored
    else
      match m.framesFrom token with
      | [] => none
      | f :: older => some { rows := f.saved, frames := older }
  | .release token =>
    match m.framesFrom token with
    | [] => none
    | _ :: older => some { m with frames := older }
  | .commit => some { m with frames := [] }

/-- The stack after an event, possible or not. -/
def step (e : Event δ) : Snapshots δ := (m.apply e).getD m

def run (es : List (Event δ)) : Snapshots δ := es.foldl step m

/-- The events with whether each was possible. -/
def replay : Snapshots δ → List (Event δ) → List (Event δ × Bool)
  | _, [] => []
  | m, e :: es => (e, (m.apply e).isSome) :: replay (m.step e) es

/-- The depth of the first savepoint: a transaction opened by a statement has a frame below it. -/
def base : Nat := if (m.frames.getLast?).any (fun f => f.token.isNone) then 1 else 0

theorem framesFrom_of_answers {rows : δ} {f : Frame δ} {older : List (Frame δ)} {token : String}
    (h : f.answers token = true) : framesFrom ⟨rows, f :: older⟩ token = f :: older := by
  unfold framesFrom
  rw [List.dropWhile_cons, h]
  rfl

theorem answers_of_framesFrom {m : Snapshots δ} {f : Frame δ} {older : List (Frame δ)}
    {token : String} (h : m.framesFrom token = f :: older) : f.answers token = true := by
  unfold framesFrom at h
  have := List.head?_dropWhile_not (fun f : Frame δ => !f.answers token) m.frames
  rw [h] at this
  simpa using this

theorem restored_of_frames_nil {m : Snapshots δ} (hm : m.frames = []) : m.restored = m := by
  obtain ⟨rows, frames⟩ := m
  subst hm
  rfl

/-- Going back to a frame leaves the oldest frame as it is. -/
theorem restored_of_framesFrom {m : Snapshots δ} {rows : δ} {f : Frame δ} {older : List (Frame δ)}
    {token : String} (h : m.framesFrom token = f :: older) :
    restored ⟨rows, f :: older⟩ = m.restored := by
  have hsuf : f :: older <:+ m.frames := h ▸ List.dropWhile_suffix _
  have hlast := getLast?_of_suffix hsuf (List.cons_ne_nil _ _)
  unfold restored
  rw [← hlast, List.getLast?_eq_some_getLast (List.cons_ne_nil _ _)]
  rfl

/-- A token without a depth ends nothing. -/
theorem framesFrom_of_depth?_none {token : String} (h : Token.depth? token = none) :
    m.framesFrom token = [] := by
  unfold framesFrom
  rw [List.dropWhile_eq_nil_iff]
  intro f _
  simp [Frame.answers, h]

end Snapshots

/-! ## Names by consecutive depths -/

/-- The names, the newest first, are tokens of consecutive depths from `base` on. -/
def Numbered (base : Nat) : List String → Prop
  | [] => True
  | name :: older => (∃ nonce, name = Token.text nonce (base + older.length)) ∧ Numbered base older

namespace Numbered

variable {base : Nat} {names : List String}

theorem formed (h : Numbered base names) : ∀ name ∈ names, Token.Formed name := by
  induction names with
  | nil => exact fun _ hn => absurd hn List.not_mem_nil
  | cons name older ih =>
    intro w hw
    obtain ⟨⟨nonce, rfl⟩, ho⟩ := h
    rcases List.mem_cons.mp hw with rfl | hw
    · exact Token.formed_text _ _
    · exact ih ho w hw

theorem suffix {older : List String} (h : Numbered base names) (hs : older <:+ names) :
    Numbered base older := by
  induction names with
  | nil => rw [List.suffix_nil.mp hs]; trivial
  | cons name r ih =>
    rcases List.suffix_cons_iff.mp hs with rfl | hs
    · exact h
    · exact ih h.2 hs

/-- The `i`-th name from the oldest on has the depth `base + i`. -/
theorem getElem_reverse (h : Numbered base names) {i : Nat} (hi : i < names.length) :
    ∃ nonce, names.reverse[i]? = some (Token.text nonce (base + i)) := by
  induction names with
  | nil => exact absurd hi (Nat.not_lt_zero i)
  | cons name older ih =>
    obtain ⟨⟨nonce, rfl⟩, ho⟩ := h
    rw [List.length_cons] at hi
    rw [List.reverse_cons]
    by_cases hl : i < older.length
    · rw [List.getElem?_append_left (by rwa [List.length_reverse])]
      exact ih ho hl
    · have he : i = older.length := by omega
      refine ⟨nonce, ?_⟩
      rw [he, List.getElem?_append_right (List.length_reverse.le), List.length_reverse,
        Nat.sub_self]
      rfl

end Numbered

/-! ## The engine's transaction as a stack -/

namespace Nesting

variable (n : Nesting δ)

/-- The frame of a transaction that a statement opened; a savepoint that opened one has its own. -/
def bottom : List (Frame δ) :=
  match n.opening with
  | some (.statement, rows) => [⟨none, rows⟩]
  | _ => []

def frameOf (s : String × δ) : Frame δ := ⟨some s.1, s.2⟩

def frames : List (Frame δ) := n.savepoints.map frameOf ++ n.bottom

/-- The stack that the transaction stands for. -/
def snapshots : Snapshots δ := ⟨n.rows, n.frames⟩

def names : List String := n.savepoints.map Prod.fst

/-- The depth of the first savepoint. -/
def base : Nat := n.bottom.length

/-- What holds of a transaction that the transaction functions opened. -/
structure Sound : Prop where
  numbered : Numbered n.base n.names
  none_of_closed : n.opening = none → n.savepoints = []
  /-- A savepoint that opened the transaction is still there. -/
  getLast_of_savepoint : ∀ rows, n.opening = some (.savepoint, rows) →
    n.savepoints.getLast?.map Prod.snd = some rows

/-- A statement about a token finds the savepoint where the stack finds the frame, with as many
frames below it as the token tells, and makes of the stack what `after` says. -/
def Finds (token : String) (c : Control) (after : Frame δ → List (Frame δ) → Snapshots δ) : Prop :=
  ∀ d, Token.depth? token = some d →
    (n.snapshots.framesFrom token = [] ∧ n.follow c = none) ∨
      ∃ f older n', n.snapshots.framesFrom token = f :: older ∧ older.length = d ∧
        n.follow c = some n' ∧ n'.Sound ∧ n'.snapshots = after f older

variable {n}

theorem length_frames : n.frames.length = n.savepoints.length + n.base := by
  unfold frames base
  rw [List.length_append, List.length_map]

theorem sound_closed : n.closed.Sound :=
  ⟨trivial, fun _ => rfl, nofun⟩

theorem frames_closed : n.closed.frames = [] := rfl

namespace Sound

variable (hs : n.Sound)

include hs

/-- The stack is empty exactly while nothing is open. -/
theorem frames_eq_nil_iff : n.frames = [] ↔ n.opening = none := by
  unfold frames bottom
  constructor
  · intro h
    obtain ⟨hm, hb⟩ := List.append_eq_nil_iff.mp h
    cases ho : n.opening with
    | none => rfl
    | some o =>
      obtain ⟨o, rows⟩ := o
      cases o with
      | statement => rw [ho] at hb; cases hb
      | savepoint =>
        have := hs.getLast_of_savepoint rows ho
        rw [List.map_eq_nil_iff.mp hm] at this
        cases this
  · intro h
    rw [hs.none_of_closed h, h]
    rfl

theorem isOpen_iff : n.isOpen = true ↔ 0 < n.frames.length := by
  rw [List.length_pos_iff, ne_eq, hs.frames_eq_nil_iff, isOpen, Option.isSome_iff_ne_none]

theorem base_snapshots : n.snapshots.base = n.base := by
  unfold Snapshots.base snapshots frames base bottom
  cases ho : n.opening with
  | none =>
    rw [hs.none_of_closed ho]
    rfl
  | some o =>
    obtain ⟨o, rows⟩ := o
    cases o with
    | statement =>
      simp only [List.getLast?_concat]
      rfl
    | savepoint =>
      have hl := hs.getLast_of_savepoint rows ho
      obtain ⟨s, hs', -⟩ := Option.map_eq_some_iff.mp hl
      simp only [List.append_nil, List.getLast?_map, hs']
      rfl

omit hs in
theorem filterMap_token_frames : n.frames.filterMap Frame.token = n.names := by
  unfold frames names
  have hb : n.bottom.filterMap Frame.token = [] := by
    unfold bottom
    split <;> rfl
  rw [List.filterMap_append, List.filterMap_map, hb, List.append_nil]
  exact List.filterMap_eq_map' ▸ rfl

/-- The stack depends on the savepoints and on how the transaction was opened only. -/
theorem frames_congr {n' : Nesting δ} (ho : n'.opening = n.opening)
    (hsp : n'.savepoints = n.savepoints) : n'.Sound ∧ n'.frames = n.frames := by
  have hbottom : n'.bottom = n.bottom := by
    unfold bottom
    rw [ho]
  refine ⟨⟨?_, ?_, ?_⟩, ?_⟩
  · unfold base names
    rw [hbottom, hsp]
    exact hs.numbered
  · rw [ho, hsp]
    exact hs.none_of_closed
  · rw [ho, hsp]
    exact hs.getLast_of_savepoint
  · unfold frames
    rw [hbottom, hsp]

/-! ### Statements without a name -/

theorem follow_begin (h : n.frames = []) : ∃ n', n.follow (.begin .deferred) = some n' ∧ n'.Sound ∧
    n'.snapshots = ⟨n.rows, [⟨none, n.rows⟩]⟩ := by
  have ho := hs.frames_eq_nil_iff.mp h
  have hsp := hs.none_of_closed ho
  refine ⟨_, by rw [follow, isOpen, ho]; rfl, ⟨?_, ?_, ?_⟩, ?_⟩
  · show Numbered _ (n.savepoints.map Prod.fst)
    rw [hsp]
    trivial
  · intro h
    cases h
  · intro rows h
    cases h
  · show (⟨n.rows, n.savepoints.map frameOf ++ [⟨none, n.rows⟩]⟩ : Snapshots δ) = _
    rw [hsp]
    rfl

theorem follow_commit (h : 0 < n.frames.length) : n.follow .commit = some n.closed := by
  rw [follow, hs.isOpen_iff.mpr h, if_pos rfl]

theorem follow_rollback (h : 0 < n.frames.length) : ∃ n', n.follow .rollback = some n' ∧ n'.Sound ∧
    n'.snapshots = n.snapshots.restored := by
  have hopen := hs.isOpen_iff.mpr h
  unfold isOpen at hopen
  obtain ⟨⟨o, rows⟩, ho⟩ := Option.isSome_iff_exists.mp hopen
  refine ⟨{ rows }, by rw [follow, ho]; rfl, sound_closed (n := { rows }), ?_⟩
  have hlast : n.frames.getLast?.map Frame.saved = some rows := by
    unfold frames bottom
    rw [ho]
    cases o with
    | statement => rw [List.getLast?_concat]; rfl
    | savepoint =>
      have := hs.getLast_of_savepoint rows ho
      rw [List.append_nil, List.getLast?_map, Option.map_map]
      exact this
  unfold Snapshots.restored snapshots
  rw [hlast]
  rfl

/-! ### Statements with a name -/

/-- A savepoint with a token of the height of the stack. -/
theorem follow_savepoint {nonce : Nat} {name : String}
    (hn : name = Token.text nonce n.frames.length) : ∃ n', n.follow (.savepoint name) = some n' ∧
    n'.Sound ∧ n'.snapshots = ⟨n.rows, ⟨some name, n.rows⟩ :: n.frames⟩ := by
  refine ⟨_, rfl, ?_, ?_⟩
  · cases ho : n.opening with
    | none =>
      have hsp := hs.none_of_closed ho
      have hf := hs.frames_eq_nil_iff.mpr ho
      refine ⟨?_, ?_, ?_⟩
      · show Numbered 0 (name :: n.savepoints.map Prod.fst)
        rw [hsp]
        refine ⟨⟨nonce, ?_⟩, trivial⟩
        rw [hn, hf]
        rfl
      · intro h
        cases h
      · intro rows h
        rw [hsp]
        cases h
        rfl
    | some o =>
      refine ⟨⟨⟨nonce, ?_⟩, ?_⟩, ?_, ?_⟩
      · show name = Token.text nonce (base _ + (n.savepoints.map Prod.fst).length)
        rw [hn, length_frames, List.length_map, Nat.add_comm]
        unfold base bottom
        rw [ho]
        rfl
      · have := hs.numbered
        unfold base bottom names at this
        rw [ho] at this
        exact this
      · intro h
        cases h
      · intro rows h
        have hl := hs.getLast_of_savepoint rows (ho.trans h)
        show ((name, n.rows) :: n.savepoints).getLast?.map Prod.snd = some rows
        cases hsp : n.savepoints with
        | nil => rw [hsp] at hl; cases hl
        | cons s r => rwa [List.getLast?_cons_cons, ← hsp]
  · unfold snapshots frames bottom
    cases n.opening with
    | none => rfl
    | some o => rfl

omit hs in
theorem savepointsFrom_suffix (token : String) : n.savepointsFrom token <:+ n.savepoints :=
  List.dropWhile_suffix _

omit hs in
theorem answers_bottom (token : String) {f : Frame δ} (h : f ∈ n.bottom) :
    f.answers token = false := by
  unfold bottom at h
  split at h
  · rw [List.mem_singleton.mp h]
    rfl
  · cases h

theorem answers_frameOf {token : String} {d : Nat} (hd : Token.depth? token = some d) :
    ∀ s ∈ n.savepoints, (frameOf s).answers token = sameFolded s.1 token := by
  intro s hm
  have hf := hs.numbered.formed s.1 (List.mem_map_of_mem hm)
  unfold Frame.answers frameOf
  rw [hd, Option.isSome_some, Bool.and_true, Bool.eq_iff_iff,
    Token.sameFolded_iff hf (Token.formed_of_depth? hd), beq_iff_eq, Option.some.injEq]

theorem framesFrom_eq {token : String} {d : Nat} (hd : Token.depth? token = some d) :
    n.snapshots.framesFrom token =
      if (n.savepointsFrom token).isEmpty then []
      else (n.savepointsFrom token).map frameOf ++ n.bottom := by
  have hmap : ∀ l : List (String × δ), (∀ s ∈ l, s ∈ n.savepoints) →
      (l.map frameOf).dropWhile (fun f => !f.answers token) =
        (l.dropWhile fun s => !sameFolded s.1 token).map frameOf := by
    intro l hl
    induction l with
    | nil => rfl
    | cons s r ih =>
      rw [List.map_cons, List.dropWhile_cons, List.dropWhile_cons,
        hs.answers_frameOf hd s (hl s List.mem_cons_self)]
      cases sameFolded s.1 token
      · exact ih fun x hx => hl x (List.mem_cons_of_mem _ hx)
      · rfl
  unfold Snapshots.framesFrom snapshots frames
  rw [List.dropWhile_append, hmap _ fun _ h => h, ← savepointsFrom, List.isEmpty_map]
  split
  · rw [List.dropWhile_eq_nil_iff]
    intro f hf
    rw [answers_bottom token hf]
    rfl
  · rfl

theorem depth_of_savepointsFrom {token : String} {d : Nat} {s : String × δ}
    {older : List (String × δ)} (hd : Token.depth? token = some d)
    (h : n.savepointsFrom token = s :: older) : s.1 = token ∧ d = older.length + n.base := by
  have hsuf : s :: older <:+ n.savepoints := h ▸ savepointsFrom_suffix token
  have hf := hs.numbered.formed s.1 (List.mem_map_of_mem (hsuf.mem List.mem_cons_self))
  have hsame : sameFolded s.1 token = true := by
    have := List.head?_dropWhile_not (fun s : String × δ => !sameFolded s.1 token) n.savepoints
    rw [← savepointsFrom, h] at this
    simpa using this
  have he := Token.eq_of_sameFolded hf (Token.formed_of_depth? hd) hsame
  obtain ⟨⟨nonce, hn⟩, -⟩ := hs.numbered.suffix (hsuf.map Prod.fst)
  rw [← he, hn, Token.depth?_text, List.length_map] at hd
  refine ⟨he, ?_⟩
  split at hd
  · cases hd
    exact Nat.add_comm _ _
  · cases hd

theorem keepSavepoints_sound {s : String × δ} {older : List (String × δ)}
    (h : s :: older <:+ n.savepoints) : (n.keepSavepoints older).Sound ∧
      (n.keepSavepoints older).snapshots = ⟨n.rows, older.map frameOf ++ n.bottom⟩ := by
  have hsuf : older <:+ n.savepoints := (List.suffix_cons s older).trans h
  have hnum : Numbered n.base (older.map Prod.fst) := hs.numbered.suffix (hsuf.map Prod.fst)
  cases ho : n.opening with
  | none =>
    rw [hs.none_of_closed ho] at h
    exact absurd (List.suffix_nil.mp h) (List.cons_ne_nil _ _)
  | some o =>
    obtain ⟨o, rows⟩ := o
    have hkeep : o = .statement ∨ older ≠ [] →
        n.keepSavepoints older = { n with savepoints := older } := by
      intro hc
      unfold keepSavepoints
      split
      · rename_i hopening
        rw [ho] at hopening
        cases hopening
        exact absurd rfl (hc.resolve_left (by decide))
      · rfl
    by_cases hc : o = .statement ∨ older ≠ []
    · rw [hkeep hc]
      refine ⟨⟨hnum, fun hnone => ?_, fun rows' hrows => ?_⟩, rfl⟩
      · rw [ho] at hnone
        cases hnone
      · have hl := hs.getLast_of_savepoint rows' hrows
        rw [ho] at hrows
        cases hrows
        have hne : older ≠ [] := hc.resolve_left (by decide)
        rw [← hl, ← getLast?_of_suffix hsuf hne]
    · rw [not_or, not_not] at hc
      obtain ⟨hst, rfl⟩ := hc
      have hsp : o = .savepoint := by
        cases o
        · exact absurd rfl hst
        · rfl
      subst hsp
      have hk : n.keepSavepoints [] = n.closed := by
        unfold keepSavepoints
        rw [ho]
      rw [hk]
      refine ⟨sound_closed, ?_⟩
      unfold bottom
      rw [ho]
      rfl

/-- A release pops the frame of its token and all above it. -/
theorem finds_release (token : String) :
    n.Finds token (.release token) fun _ older => ⟨n.rows, older⟩ := by
  intro d hd
  rw [hs.framesFrom_eq hd]
  cases h : n.savepointsFrom token with
  | nil => exact Or.inl ⟨rfl, by rw [follow, h]⟩
  | cons s older =>
    have hk := hs.keepSavepoints_sound (h ▸ savepointsFrom_suffix token)
    refine Or.inr ⟨_, _, _, rfl, ?_, by rw [follow, h], hk.1, hk.2⟩
    show (older.map frameOf ++ n.bottom).length = d
    rw [List.length_append, List.length_map, (hs.depth_of_savepointsFrom hd h).2, base]

/-- A rollback to a savepoint brings back the rows of its frame and pops all above it. -/
theorem finds_rollbackTo (token : String) :
    n.Finds token (.rollbackTo token) fun f older => ⟨f.saved, f :: older⟩ := by
  intro d hd
  rw [hs.framesFrom_eq hd]
  cases h : n.savepointsFrom token with
  | nil => exact Or.inl ⟨rfl, by rw [follow, h]⟩
  | cons s older =>
    have hsuf : s :: older <:+ n.savepoints := h ▸ savepointsFrom_suffix token
    refine Or.inr ⟨_, _, _, rfl, ?_, by rw [follow, h], ⟨?_, fun hnone => ?_, fun rows hrows => ?_⟩,
      rfl⟩
    · show (older.map frameOf ++ n.bottom).length = d
      rw [List.length_append, List.length_map, (hs.depth_of_savepointsFrom hd h).2, base]
    · exact hs.numbered.suffix (hsuf.map Prod.fst)
    · rw [hs.none_of_closed hnone] at hsuf
      exact absurd (List.suffix_nil.mp hsuf) (List.cons_ne_nil _ _)
    · rw [← hs.getLast_of_savepoint rows hrows,
        ← getLast?_of_suffix hsuf (List.cons_ne_nil s older)]

end Sound

end Nesting

end RecordMapper
