/-
  Connect.Sql.ReadCommitted — any number of transactions at READ COMMITTED over one table,
  statement by statement: each is a list of DELETE and INSERT statements, then a commit.

  A row is a version: `xmin` inserted it, `xmax` deleted it or is about to. A DELETE looks
  for its rows once, when it starts: the versions committed by then, and the transaction's
  own. It then goes from one to the next and waits where another transaction in progress
  has been first; a version whose deletion was committed is passed over, and what that
  transaction inserted is not looked at. Any steps of any transactions may come between
  two steps of one. No transaction rolls back.

  When all have committed, a version is left just if no DELETE that it meets started after
  it was committed (`live_iff`).
-/

import Connect.Sql.Map

namespace Connect.Sql

inductive Stmt (Row : Type) where
  | delete (p : Row → Bool)
  /-- The argument is the value of the sequence. -/
  | insert (new : Nat → Row)

structure Version (Row : Type) where
  id : Nat
  row : Row
  xmin : Nat
  xmax : Option Nat

/-- `targets`: the versions that the DELETE under way has still to go to. -/
structure Txn (Row Call : Type) where
  call : Call
  todo : List (Stmt Row)
  targets : Option (List Nat)

inductive Ev (Row Call : Type) where
  | delete (t : Nat) (p : Row → Bool)
  | insert (t id : Nat)
  | commit (t : Nat) (call : Call)

structure Store (Row Call : Type) where
  versions : List (Version Row)
  next : Nat
  xid : Nat
  done : List Nat
  txns : Nat → Option (Txn Row Call)

variable {Row Call : Type}

def Version.live (v : Version Row) (done : List Nat) : Bool :=
  done.contains v.xmin && !v.xmax.any fun t => done.contains t

namespace Store

/-- What a statement outside of these transactions sees. -/
def rows (s : Store Row Call) : List Row := (s.versions.filter (·.live s.done)).map (·.row)

def sees (s : Store Row Call) (t : Nat) (v : Version Row) : Bool :=
  (s.done.contains v.xmin || v.xmin == t) && !v.xmax.any fun t' => s.done.contains t' || t' == t

def snapshot (s : Store Row Call) (t : Nat) (p : Row → Bool) : List Nat :=
  (s.versions.filter fun v => s.sees t v && p v.row).map (·.id)

/-- Another transaction has deleted the version and not committed yet. -/
def blocked (s : Store Row Call) (t i : Nat) : Bool :=
  s.versions.any fun v => v.id == i && v.xmax.any fun t' => t' != t && !s.done.contains t'

def lock (s : Store Row Call) (t i : Nat) : List (Version Row) :=
  s.versions.map fun v => if v.id = i then { v with xmax := v.xmax.or (some t) } else v

end Store

def startVersions : Nat → List Row → List (Version Row)
  | _, [] => []
  | i, row :: rows => ⟨i, row, 0, none⟩ :: startVersions (i + 1) rows

/-- Rows of before the first transaction. -/
def Store.start (rows : List Row) : Store Row Call := ⟨startVersions 0 rows, rows.length, 1, [0], fun _ => none⟩

inductive Step (code : Call → List (Stmt Row)) (s : Store Row Call) : List (Ev Row Call) → Store Row Call → Prop
  | begin (call : Call) :
      Step code s [] { s with xid := s.xid + 1, txns := setAt s.txns s.xid (some ⟨call, code call, none⟩) }
  | delete (t : Nat) (call : Call) (p : Row → Bool) (todo : List (Stmt Row))
      (h : s.txns t = some ⟨call, .delete p :: todo, none⟩) :
      Step code s [.delete t p] { s with txns := setAt s.txns t (some ⟨call, todo, some (s.snapshot t p)⟩) }
  | reach (t : Nat) (call : Call) (todo : List (Stmt Row)) (i : Nat) (ids : List Nat)
      (h : s.txns t = some ⟨call, todo, some (i :: ids)⟩) (hb : s.blocked t i = false) :
      Step code s [] { s with versions := s.lock t i, txns := setAt s.txns t (some ⟨call, todo, some ids⟩) }
  | deleted (t : Nat) (call : Call) (todo : List (Stmt Row)) (h : s.txns t = some ⟨call, todo, some []⟩) :
      Step code s [] { s with txns := setAt s.txns t (some ⟨call, todo, none⟩) }
  | insert (t : Nat) (call : Call) (new : Nat → Row) (todo : List (Stmt Row))
      (h : s.txns t = some ⟨call, .insert new :: todo, none⟩) :
      Step code s [.insert t s.next]
        { s with
          versions := s.versions ++ [⟨s.next, new s.next, t, none⟩]
          next := s.next + 1
          txns := setAt s.txns t (some ⟨call, todo, none⟩) }
  | commit (t : Nat) (call : Call) (h : s.txns t = some ⟨call, [], none⟩) :
      Step code s [.commit t call] { s with done := t :: s.done, txns := setAt s.txns t none }

/-- The events of a run, the newest first, and where it has led. -/
inductive Run (code : Call → List (Stmt Row)) (rows : List Row) : List (Ev Row Call) → Store Row Call → Prop
  | start : Run code rows [] (.start rows)
  | step {hist evs : List (Ev Row Call)} {s s' : Store Row Call} (h : Run code rows hist s)
      (hs : Step code s evs s') :
      Run code rows (evs ++ hist) s'

def Committed (hist : List (Ev Row Call)) (t : Nat) : Prop := t = 0 ∨ ∃ call, .commit t call ∈ hist

/-- A DELETE that the version meets started after it was committed, or after its own transaction inserted it. -/
def Swept (v : Version Row) : List (Ev Row Call) → Prop
  | [] => False
  | .delete t p :: before =>
    (p v.row = true ∧ (Committed before v.xmin ∨ v.xmin = t ∧ .insert t v.id ∈ before)) ∨ Swept v before
  | .insert _ _ :: before | .commit _ _ :: before => Swept v before

theorem Committed.mono {hist : List (Ev Row Call)} {t : Nat} (e : Ev Row Call) (h : Committed hist t) :
    Committed (e :: hist) t := by
  rcases h with rfl | ⟨call, h⟩
  · exact .inl rfl
  · exact .inr ⟨call, List.mem_cons_of_mem e h⟩

theorem Swept.mono {v : Version Row} {hist : List (Ev Row Call)} (e : Ev Row Call) (h : Swept v hist) :
    Swept v (e :: hist) := by
  cases e with
  | delete t p => exact .inr h
  | insert t i => exact h
  | commit t call => exact h

/-- Who has deleted a version plays no part in whether it was swept. -/
theorem Swept.of_xmax {v : Version Row} {x : Option Nat} {hist : List (Ev Row Call)}
    (h : Swept { v with xmax := x } hist) : Swept v hist := by
  induction hist with
  | nil => exact h
  | cons e hist ih =>
    cases e with
    | delete t p => exact h.imp id ih
    | insert t i => exact ih h
    | commit t call => exact ih h

theorem Swept.xmax {v : Version Row} (x : Option Nat) {hist : List (Ev Row Call)} (h : Swept v hist) :
    Swept { v with xmax := x } hist := Swept.of_xmax (v := { v with xmax := x }) (x := v.xmax) h

/-- A version nobody else can see is met by no DELETE of before it. -/
theorem not_swept {v : Version Row} {hist : List (Ev Row Call)} (hc : ¬Committed hist v.xmin)
    (hi : ∀ t, .insert t v.id ∉ hist) : ¬Swept v hist := by
  induction hist with
  | nil => exact id
  | cons e hist ih =>
    have ih := ih (fun h => hc (h.mono e)) fun t h => hi t (List.mem_cons_of_mem e h)
    cases e with
    | delete t p =>
      intro h
      rcases h with ⟨-, h | ⟨-, h⟩⟩ | h
      · exact hc (h.mono _)
      · exact hi t (List.mem_cons_of_mem _ h)
      · exact ih h
    | insert t i => exact ih
    | commit t call => exact ih

/-! ## What holds along a run -/

def Store.active (s : Store Row Call) (t : Nat) : Prop := (s.txns t).isSome = true

/-- Numbers are given out once. -/
structure Numbered (s : Store Row Call) (hist : List (Ev Row Call)) : Prop where
  active : ∀ t, s.active t → t < s.xid ∧ t ∉ s.done
  done : ∀ t ∈ s.done, t < s.xid
  committed : ∀ t, t ∈ s.done ↔ Committed hist t
  xmin : ∀ v ∈ s.versions, v.xmin ∈ s.done ∨ s.active v.xmin
  unique : UniqueBy (fun v => some v.id) s.versions
  ids : ∀ v ∈ s.versions, v.id < s.next
  events : ∀ t i, .insert t i ∈ hist → i < s.next
  inserted : ∀ v ∈ s.versions, v.xmin = 0 ∨ .insert v.xmin v.id ∈ hist

section Steps

variable {code : Call → List (Stmt Row)} {s s' : Store Row Call} {hist evs : List (Ev Row Call)}

theorem active_of {t : Nat} {x : Txn Row Call} (h : s.txns t = some x) : s.active t := by
  rw [Store.active, h]
  rfl

theorem active_set {t : Nat} {x : Txn Row Call} {t' : Nat} :
    (setAt s.txns t (some x) t').isSome = true ↔ t' = t ∨ s.active t' := by
  by_cases h : t' = t
  · simp [h]
  · rw [setAt_ne _ _ h]
    exact ⟨.inr, fun h' => h'.resolve_left h⟩

/-- A transaction that goes on is active as before. -/
theorem active_keep {t : Nat} {x y : Txn Row Call} (h : s.txns t = some y) {t' : Nat} :
    (setAt s.txns t (some x) t').isSome = true ↔ s.active t' := by
  rw [active_set]
  refine ⟨fun h' => h'.elim (fun e => ?_) id, .inr⟩
  rw [e, Store.active, h]
  rfl

/-- A step that inserts no version and ends no transaction. -/
theorem Numbered.same {hist' : List (Ev Row Call)} (h : Numbered s hist) {f : Version Row → Version Row}
    (hf : ∀ v, (f v).id = v.id ∧ (f v).xmin = v.xmin) (hv : s'.versions = s.versions.map f) (hxid : s'.xid = s.xid)
    (hdone : s'.done = s.done) (hnext : s'.next = s.next) (hact : ∀ t, s'.active t ↔ s.active t)
    (hcom : ∀ t, Committed hist' t ↔ Committed hist t) (hins : ∀ t i, .insert t i ∈ hist' ↔ .insert t i ∈ hist) :
    Numbered s' hist' := by
  constructor
  · intro t ht
    rw [hxid, hdone]
    exact h.active t ((hact t).mp ht)
  · rw [hxid, hdone]
    exact h.done
  · intro t
    rw [hdone, hcom]
    exact h.committed t
  · intro v hm
    obtain ⟨v₀, h₀, rfl⟩ := List.mem_map.mp (hv ▸ hm)
    rw [hdone, (hf v₀).2, hact]
    exact h.xmin v₀ h₀
  · rw [hv]
    exact h.unique.map fun v => by rw [(hf v).1]
  · intro v hm
    obtain ⟨v₀, h₀, rfl⟩ := List.mem_map.mp (hv ▸ hm)
    rw [hnext, (hf v₀).1]
    exact h.ids v₀ h₀
  · intro t i hi
    rw [hnext]
    exact h.events t i ((hins t i).mp hi)
  · intro v hm
    obtain ⟨v₀, h₀, rfl⟩ := List.mem_map.mp (hv ▸ hm)
    rw [hins, (hf v₀).1, (hf v₀).2]
    exact h.inserted v₀ h₀

theorem committed_cons {e : Ev Row Call} (he : ∀ t call, e ≠ .commit t call) (t : Nat) :
    Committed (e :: hist) t ↔ Committed hist t := by
  refine or_congr Iff.rfl (exists_congr fun call => ?_)
  rw [List.mem_cons]
  exact or_iff_right fun h => he t call h.symm

/-- The new version has the next number and belongs to a transaction in progress. -/
theorem Numbered.insert (h : Numbered s hist) {t : Nat} {call : Call} {new : Nat → Row} {todo : List (Stmt Row)}
    (hx : s.txns t = some ⟨call, .insert new :: todo, none⟩) :
    Numbered
      { s with
        versions := s.versions ++ [⟨s.next, new s.next, t, none⟩]
        next := s.next + 1
        txns := setAt s.txns t (some ⟨call, todo, none⟩) }
      (.insert t s.next :: hist) := by
  have ht := active_of hx
  constructor
  · exact fun t' ht' => h.active t' ((active_keep hx).mp ht')
  · exact h.done
  · intro t'
    exact (h.committed t').trans (committed_cons (by simp) t').symm
  · intro v hv
    refine Or.imp_right (active_keep hx).mpr ?_
    rcases List.mem_append.mp hv with hv | hv
    · exact h.xmin v hv
    · rw [List.mem_singleton.mp hv]
      exact .inr ht
  · refine h.unique.append fun v hv he => ?_
    exact absurd (Option.some.inj he) (Nat.ne_of_lt (h.ids v hv))
  · intro v hv
    rcases List.mem_append.mp hv with hv | hv
    · exact Nat.lt_succ_of_lt (h.ids v hv)
    · rw [List.mem_singleton.mp hv]
      exact Nat.lt_succ_self _
  · intro t' i hi
    rcases List.mem_cons.mp hi with he | hi
    · cases he
      exact Nat.lt_succ_self _
    · exact Nat.lt_succ_of_lt (h.events t' i hi)
  · intro v hv
    rcases List.mem_append.mp hv with hv | hv
    · exact (h.inserted v hv).imp_right (List.mem_cons_of_mem _)
    · rw [List.mem_singleton.mp hv]
      exact .inr List.mem_cons_self

/-- The transaction is done from now on, and active no longer. -/
theorem Numbered.commit (h : Numbered s hist) {t : Nat} {call : Call} (hx : s.txns t = some ⟨call, [], none⟩) :
    Numbered { s with done := t :: s.done, txns := setAt s.txns t none } (.commit t call :: hist) := by
  have ht := active_of hx
  have hoff : ∀ t', (setAt s.txns t none t').isSome = true → t' ≠ t ∧ s.active t' := by
    intro t' ha
    by_cases he : t' = t
    · rw [he, setAt_self] at ha
      cases ha
    · exact ⟨he, by rwa [setAt_ne _ _ he] at ha⟩
  constructor
  · intro t' ht'
    obtain ⟨hne, ha⟩ := hoff t' ht'
    refine ⟨(h.active t' ha).1, fun hd => ?_⟩
    exact (List.mem_cons.mp hd).elim hne (h.active t' ha).2
  · intro t' hd
    rcases List.mem_cons.mp hd with rfl | hd
    · exact (h.active _ ht).1
    · exact h.done t' hd
  · intro t'
    rw [List.mem_cons, h.committed]
    constructor
    · intro h
      rcases h with rfl | hc
      · exact .inr ⟨call, List.mem_cons_self⟩
      · exact hc.mono _
    · intro h
      rcases h with rfl | ⟨call', hc⟩
      · exact .inr (.inl rfl)
      · rcases List.mem_cons.mp hc with he | hc
        · cases he
          exact .inl rfl
        · exact .inr (.inr ⟨call', hc⟩)
  · intro v hv
    by_cases he : v.xmin = t
    · exact .inl (he ▸ List.mem_cons_self)
    · refine (h.xmin v hv).imp (List.mem_cons_of_mem _) fun ha => ?_
      show (setAt s.txns t none v.xmin).isSome = true
      rw [setAt_ne _ _ he]
      exact ha
  · exact h.unique
  · exact h.ids
  · intro t' i hi
    exact h.events t' i ((List.mem_cons.mp hi).resolve_left (by simp))
  · exact fun v hv => (h.inserted v hv).imp_right (List.mem_cons_of_mem _)

theorem Numbered.step (h : Numbered s hist) (hs : Step code s evs s') : Numbered s' (evs ++ hist) := by
  have hid : s.versions = s.versions.map id := (List.map_id _).symm
  cases hs with
  | begin call =>
    constructor
    · intro t ht
      rcases active_set.mp ht with rfl | ht
      · exact ⟨Nat.lt_succ_self _, fun hd => Nat.lt_irrefl _ (h.done _ hd)⟩
      · exact ⟨Nat.lt_succ_of_lt (h.active t ht).1, (h.active t ht).2⟩
    · exact fun t ht => Nat.lt_succ_of_lt (h.done t ht)
    · exact h.committed
    · exact fun v hv => (h.xmin v hv).imp_right fun ha => active_set.mpr (.inr ha)
    · exact h.unique
    · exact h.ids
    · exact h.events
    · exact h.inserted
  | delete t call p todo hx =>
    refine h.same (f := id) (fun v => ⟨rfl, rfl⟩) hid rfl rfl rfl (fun t' => active_keep hx) ?_ ?_
    · exact committed_cons (by simp)
    · exact fun t' i => by simp
  | reach t call todo i ids hx hb =>
    refine h.same (f := fun v => if v.id = i then { v with xmax := v.xmax.or (some t) } else v)
      (fun v => ?_) rfl rfl rfl rfl
      (fun t' => active_keep hx) (fun t' => Iff.rfl) fun t' i => Iff.rfl
    split
    · exact ⟨rfl, rfl⟩
    · exact ⟨rfl, rfl⟩
  | deleted t call todo hx =>
    exact h.same (f := id) (fun v => ⟨rfl, rfl⟩) hid rfl rfl rfl (fun t' => active_keep hx) (fun t' => Iff.rfl)
      fun t' i => Iff.rfl
  | insert t call new todo hx => exact h.insert hx
  | commit t call hx => exact h.commit hx

end Steps

theorem startVersions_spec (i : Nat) (rows : List Row) :
    UniqueBy (fun v => some v.id) (startVersions i rows) ∧
      ∀ v ∈ startVersions i rows, v.xmin = 0 ∧ v.xmax = none ∧ v.row ∈ rows ∧ i ≤ v.id ∧ v.id < i + rows.length := by
  induction rows generalizing i with
  | nil => exact ⟨List.nodup_nil, fun v hv => absurd hv List.not_mem_nil⟩
  | cons row rows ih =>
    obtain ⟨hu, hv⟩ := ih (i + 1)
    constructor
    · refine List.nodup_cons.mpr ⟨fun hm => ?_, hu⟩
      obtain ⟨v, hm, he⟩ := List.mem_filterMap.mp hm
      have hge := (hv v hm).2.2.2.1
      have hid := Option.some.inj he
      dsimp only at hid
      omega
    · intro v hm
      rcases List.mem_cons.mp hm with rfl | hm
      · refine ⟨rfl, rfl, List.mem_cons_self, Nat.le_refl _, ?_⟩
        simp only [List.length_cons]
        omega
      · obtain ⟨h0, hx, hr, hge, hlt⟩ := hv v hm
        refine ⟨h0, hx, List.mem_cons_of_mem _ hr, by omega, ?_⟩
        simp only [List.length_cons]
        omega

theorem Numbered.start (rows : List Row) : Numbered (.start rows : Store Row Call) [] where
  active := fun t ht => by cases ht
  done := fun t ht => by rw [List.mem_singleton.mp ht]; exact Nat.zero_lt_one
  committed := fun t => ⟨fun ht => .inl (List.mem_singleton.mp ht), fun h => by
    rcases h with rfl | ⟨_, h⟩
    · exact List.mem_cons_self
    · cases h⟩
  xmin := fun v hv => .inl (by rw [((startVersions_spec 0 rows).2 v hv).1]; exact List.mem_cons_self)
  unique := (startVersions_spec 0 rows).1
  ids := fun v hv => by
    have hlt := ((startVersions_spec 0 rows).2 v hv).2.2.2.2
    rwa [Nat.zero_add] at hlt
  events := fun t i h => by cases h
  inserted := fun v hv => .inl ((startVersions_spec 0 rows).2 v hv).1

/-- A version that a DELETE met is deleted, or still to be gone to by a DELETE under way, and no other is. -/
structure Tracked (s : Store Row Call) (hist : List (Ev Row Call)) : Prop where
  marked : ∀ v ∈ s.versions, ∀ t, v.xmax = some t → Swept v hist ∧ (t ∈ s.done ∨ s.active t)
  below : ∀ t call todo ids, s.txns t = some ⟨call, todo, some ids⟩ → ∀ i ∈ ids, i < s.next
  targeted : ∀ t call todo ids, s.txns t = some ⟨call, todo, some ids⟩ → ∀ v ∈ s.versions, v.id ∈ ids → Swept v hist
  swept : ∀ v ∈ s.versions, Swept v hist →
    v.xmax ≠ none ∨ ∃ t call todo ids, s.txns t = some ⟨call, todo, some ids⟩ ∧ v.id ∈ ids

section Steps

variable {code : Call → List (Stmt Row)} {s s' : Store Row Call} {hist evs : List (Ev Row Call)}

theorem Tracked.start (rows : List Row) : Tracked (.start rows : Store Row Call) [] where
  marked := fun v hv t h => by
    rw [((startVersions_spec 0 rows).2 v hv).2.1] at h
    cases h
  below := fun t call todo ids h => by cases h
  targeted := fun t call todo ids h => by cases h
  swept := fun v hv h => h.elim

theorem sees_iff {t : Nat} {v : Version Row} :
    s.sees t v = true ↔ (v.xmin ∈ s.done ∨ v.xmin = t) ∧ ∀ t' ∈ v.xmax, ¬(t' ∈ s.done ∨ t' = t) := by
  cases h : v.xmax <;> simp [Store.sees, h]

theorem set_txn {t t' : Nat} {x : Option (Txn Row Call)} {y : Txn Row Call} (h : setAt s.txns t x t' = some y) :
    t' = t ∧ x = some y ∨ t' ≠ t ∧ s.txns t' = some y := by
  by_cases he : t' = t
  · rw [he, setAt_self] at h
    exact .inl ⟨he, h⟩
  · rw [setAt_ne _ _ he] at h
    exact .inr ⟨he, h⟩

theorem mem_lock {t i : Nat} {v : Version Row} (h : v ∈ s.lock t i) :
    ∃ v₀ ∈ s.versions, v₀.id = i ∧ v = { v₀ with xmax := v₀.xmax.or (some t) } ∨ v₀.id ≠ i ∧ v = v₀ := by
  obtain ⟨v₀, h₀, rfl⟩ := List.mem_map.mp h
  refine ⟨v₀, h₀, ?_⟩
  split
  · rename_i hid
    exact .inl ⟨hid, rfl⟩
  · rename_i hid
    exact .inr ⟨hid, rfl⟩

/-- A step of a transaction without targets before and after it, that leaves the versions alone. -/
theorem Tracked.pass {x : Option (Txn Row Call)} {t : Nat} {hist' : List (Ev Row Call)} (h : Tracked s hist)
    (ht : ∀ y, s.txns t = some y → ∀ i ∈ y.targets.getD [], False) (hx : ∀ y, x = some y → y.targets = none)
    (hv : s'.versions = s.versions) (hnext : s.next ≤ s'.next) (htx : s'.txns = setAt s.txns t x)
    (hlive : ∀ t', t' ∈ s.done ∨ s.active t' → t' ∈ s'.done ∨ s'.active t')
    (hsw : ∀ v ∈ s.versions, Swept v hist' ↔ Swept v hist) : Tracked s' hist' := by
  have hold : ∀ {t' call todo ids}, s'.txns t' = some ⟨call, todo, some ids⟩ →
      s.txns t' = some ⟨call, todo, some ids⟩ := by
    intro t' call todo ids hy
    rw [htx] at hy
    rcases set_txn hy with ⟨-, hy⟩ | ⟨-, hy⟩
    · cases hx _ hy
    · exact hy
  constructor
  · intro v hm t' hxm
    rw [hv] at hm
    exact ⟨(hsw v hm).mpr (h.marked v hm t' hxm).1, hlive t' (h.marked v hm t' hxm).2⟩
  · intro t' call todo ids hy i hi
    exact Nat.lt_of_lt_of_le (h.below t' call todo ids (hold hy) i hi) hnext
  · intro t' call todo ids hy v hm hi
    rw [hv] at hm
    exact (hsw v hm).mpr (h.targeted t' call todo ids (hold hy) v hm hi)
  · intro v hm hs
    rw [hv] at hm
    refine (h.swept v hm ((hsw v hm).mp hs)).imp_right ?_
    intro h
    obtain ⟨t', call, todo, ids, hy, hi⟩ := h
    refine ⟨t', call, todo, ids, ?_, hi⟩
    have hne : t' ≠ t := by
      intro h
      subst h
      exact ht _ hy _ hi
    rw [htx, setAt_ne _ _ hne]
    exact hy

/-- A DELETE starts, and targets what it sees. -/
theorem Tracked.delete (hn : Numbered s hist) (h : Tracked s hist) {t : Nat} {call : Call} {p : Row → Bool}
    {todo : List (Stmt Row)} (hx : s.txns t = some ⟨call, .delete p :: todo, none⟩) :
    Tracked { s with txns := setAt s.txns t (some ⟨call, todo, some (s.snapshot t p)⟩) } (.delete t p :: hist) := by
  constructor
  · intro v hm t' hxm
    exact ⟨.inr (h.marked v hm t' hxm).1, (h.marked v hm t' hxm).2.imp_right (active_keep hx).mpr⟩
  · intro t' call' todo' ids hy i hi
    rcases set_txn hy with ⟨-, hy⟩ | ⟨-, hy⟩
    · cases hy
      obtain ⟨v, hv, rfl⟩ := List.mem_map.mp hi
      exact hn.ids v (List.mem_filter.mp hv).1
    · exact h.below t' call' todo' ids hy i hi
  · intro t' call' todo' ids hy v hm hi
    rcases set_txn hy with ⟨-, hy⟩ | ⟨-, hy⟩
    · cases hy
      -- The version of that number is this one.
      obtain ⟨v', hv', hid⟩ := List.mem_map.mp hi
      obtain ⟨hm', hp⟩ := List.mem_filter.mp hv'
      have he : v' = v := hn.unique.eq hm' hm rfl (congrArg some hid.symm)
      subst he
      obtain ⟨hsee, hp⟩ := Bool.and_eq_true _ _ ▸ hp
      refine .inl ⟨hp, ?_⟩
      rcases (sees_iff.mp hsee).1 with hd | hown
      · exact .inl ((hn.committed _).mp hd)
      · refine .inr ⟨hown, ?_⟩
        have hins := (hn.inserted v' hm).resolve_left fun h0 => ?_
        · rwa [hown] at hins
        · exact (hn.active t (active_of hx)).2 ((hn.committed t).mpr (.inl (hown ▸ h0)))
    · exact .inr (h.targeted t' call' todo' ids hy v hm hi)
  · intro v hm hsw
    by_cases hxm : v.xmax = none
    · right
      rcases hsw with ⟨hp, hmin⟩ | hsw
      · refine ⟨t, call, todo, _, setAt_self _ _ _, List.mem_map.mpr ⟨v, List.mem_filter.mpr ⟨hm, ?_⟩, rfl⟩⟩
        rw [hp, Bool.and_true]
        refine sees_iff.mpr ⟨hmin.imp (hn.committed _).mpr And.left, fun t' ht' => ?_⟩
        rw [hxm] at ht'
        cases ht'
      · obtain ⟨t', call', todo', ids, hy, hi⟩ := (h.swept v hm hsw).resolve_left fun hne => hne hxm
        have hne : t' ≠ t := by
          intro h
          subst h
          rw [hx] at hy
          cases hy
        exact ⟨t', call', todo', ids, (setAt_ne _ _ hne).trans hy, hi⟩
    · exact .inl hxm

/-- It marks the next of its versions. -/
theorem Tracked.reach (h : Tracked s hist) {t : Nat} {call : Call} {todo : List (Stmt Row)} {i : Nat} {ids : List Nat}
    (hx : s.txns t = some ⟨call, todo, some (i :: ids)⟩) :
    Tracked { s with versions := s.lock t i, txns := setAt s.txns t (some ⟨call, todo, some ids⟩) } hist := by
  constructor
  · intro v hm t' hxm
    obtain ⟨v₀, h₀, ⟨hid, rfl⟩ | ⟨hid, rfl⟩⟩ := mem_lock hm
    · have hsw := h.targeted t call todo _ hx v₀ h₀ (hid ▸ List.mem_cons_self)
      refine ⟨hsw.xmax _, ?_⟩
      cases hold : v₀.xmax with
      | none =>
        rw [hold] at hxm
        cases hxm
        exact .inr (active_set.mpr (.inl rfl))
      | some t'' =>
        rw [hold] at hxm
        cases hxm
        exact (h.marked v₀ h₀ _ hold).2.imp_right (active_keep hx).mpr
    · exact ⟨(h.marked v h₀ t' hxm).1, (h.marked v h₀ t' hxm).2.imp_right (active_keep hx).mpr⟩
  · intro t' call' todo' ids' hy i' hi'
    rcases set_txn hy with ⟨-, hy⟩ | ⟨-, hy⟩
    · cases hy
      exact h.below t call todo _ hx i' (List.mem_cons_of_mem _ hi')
    · exact h.below t' call' todo' ids' hy i' hi'
  · intro t' call' todo' ids' hy v hm hi'
    have hold : ∀ v₀ ∈ s.versions, v₀.id ∈ ids' → Swept v₀ hist := by
      intro v₀ h₀ hi₀
      rcases set_txn hy with ⟨-, hy⟩ | ⟨-, hy⟩
      · cases hy
        exact h.targeted t call todo _ hx v₀ h₀ (List.mem_cons_of_mem _ hi₀)
      · exact h.targeted t' call' todo' ids' hy v₀ h₀ hi₀
    obtain ⟨v₀, h₀, ⟨-, rfl⟩ | ⟨-, rfl⟩⟩ := mem_lock hm
    · exact (hold v₀ h₀ hi').xmax _
    · exact hold v h₀ hi'
  · intro v hm hsw
    obtain ⟨v₀, h₀, ⟨hid, rfl⟩ | ⟨hid, rfl⟩⟩ := mem_lock hm
    · left
      cases hold : v₀.xmax with
      | none => simp
      | some t' => simp
    · refine (h.swept v h₀ hsw).imp_right ?_
      intro h
      obtain ⟨t', call', todo', ids', hy, hi'⟩ := h
      by_cases he : t' = t
      · subst he
        rw [hx] at hy
        cases hy
        exact ⟨t', call, todo, ids, setAt_self _ _ _, (List.mem_cons.mp hi').resolve_left hid⟩
      · exact ⟨t', call', todo', ids', (setAt_ne _ _ he).trans hy, hi'⟩

/-- No DELETE has met the version that is new. -/
theorem Tracked.insert (hn : Numbered s hist) (h : Tracked s hist) {t : Nat} {call : Call} {new : Nat → Row}
    {todo : List (Stmt Row)} (hx : s.txns t = some ⟨call, .insert new :: todo, none⟩) :
    Tracked
      { s with
        versions := s.versions ++ [⟨s.next, new s.next, t, none⟩]
        next := s.next + 1
        txns := setAt s.txns t (some ⟨call, todo, none⟩) }
      (.insert t s.next :: hist) := by
  have hfresh : ¬Swept (⟨s.next, new s.next, t, none⟩ : Version Row) hist := by
    refine not_swept (fun hc => ?_) fun t' hi => ?_
    · exact (hn.active t (active_of hx)).2 ((hn.committed t).mpr hc)
    · exact Nat.lt_irrefl _ (hn.events t' _ hi)
  constructor
  · intro v hm t' hxm
    rcases List.mem_append.mp hm with hm | hm
    · exact ⟨(h.marked v hm t' hxm).1, (h.marked v hm t' hxm).2.imp_right (active_keep hx).mpr⟩
    · rw [List.mem_singleton.mp hm] at hxm
      cases hxm
  · intro t' call' todo' ids hy i hi
    rcases set_txn hy with ⟨-, hy⟩ | ⟨-, hy⟩
    · cases hy
    · exact Nat.lt_succ_of_lt (h.below t' call' todo' ids hy i hi)
  · intro t' call' todo' ids hy v hm hi
    rcases set_txn hy with ⟨-, hy⟩ | ⟨-, hy⟩
    · cases hy
    · rcases List.mem_append.mp hm with hm | hm
      · exact h.targeted t' call' todo' ids hy v hm hi
      · rw [List.mem_singleton.mp hm] at hi
        exact absurd (h.below t' call' todo' ids hy _ hi) (Nat.lt_irrefl _)
  · intro v hm hsw
    rcases List.mem_append.mp hm with hm | hm
    · refine (h.swept v hm hsw).imp_right ?_
      intro h
      obtain ⟨t', call', todo', ids, hy, hi⟩ := h
      have hne : t' ≠ t := by
        intro h
        subst h
        rw [hx] at hy
        cases hy
      exact ⟨t', call', todo', ids, (setAt_ne _ _ hne).trans hy, hi⟩
    · rw [List.mem_singleton.mp hm] at hsw
      exact absurd hsw hfresh

theorem Tracked.step (hn : Numbered s hist) (h : Tracked s hist) (hs : Step code s evs s') :
    Tracked s' (evs ++ hist) := by
  cases hs with
  | begin call =>
    refine h.pass (x := some ⟨call, code call, none⟩) ?_ ?_ rfl (Nat.le_refl _) rfl ?_ fun v _ => Iff.rfl
    · intro y hy
      exact absurd (hn.active _ (active_of hy)).1 (Nat.lt_irrefl _)
    · intro y hy
      cases hy
      rfl
    · exact fun t' ht' => ht'.imp_right fun ha => active_set.mpr (.inr ha)
  | deleted t call todo hx =>
    refine h.pass (x := some ⟨call, todo, none⟩) ?_ ?_ rfl (Nat.le_refl _) rfl ?_ fun v _ => Iff.rfl
    · intro y hy
      rw [hx] at hy
      cases hy
      exact fun i hi => absurd hi List.not_mem_nil
    · intro y hy
      cases hy
      rfl
    · exact fun t' ht' => ht'.imp_right (active_keep hx).mpr
  | commit t call hx =>
    refine h.pass (x := none) ?_ (fun _ => nofun) rfl (Nat.le_refl _) rfl ?_ fun v _ => Iff.rfl
    · intro y hy
      rw [hx] at hy
      cases hy
      exact fun i hi => absurd hi List.not_mem_nil
    · intro t' h
      rcases h with hd | ha
      · exact .inl (List.mem_cons_of_mem _ hd)
      · by_cases he : t' = t
        · exact .inl (he ▸ List.mem_cons_self)
        · right
          show (setAt s.txns t none t').isSome = true
          rwa [setAt_ne _ _ he]
  | delete t call p todo hx => exact .delete hn h hx
  | reach t call todo i ids hx hb => exact h.reach hx
  | insert t call new todo hx => exact .insert hn h hx

end Steps

theorem run_numbered {code : Call → List (Stmt Row)} {rows : List Row} {hist : List (Ev Row Call)}
    {s : Store Row Call} (h : Run code rows hist s) : Numbered s hist := by
  induction h with
  | start => exact .start rows
  | step _ hs ih => exact ih.step hs

theorem run_tracked {code : Call → List (Stmt Row)} {rows : List Row} {hist : List (Ev Row Call)} {s : Store Row Call}
    (h : Run code rows hist s) : Tracked s hist := by
  induction h with
  | start => exact .start rows
  | step h hs ih => exact ih.step (run_numbered h) hs

/-- With every transaction committed, the versions left are those that no DELETE has met. -/
theorem live_iff {code : Call → List (Stmt Row)} {rows : List Row} {hist : List (Ev Row Call)} {s : Store Row Call}
    (h : Run code rows hist s) (hq : ∀ t, s.txns t = none) {v : Version Row} (hv : v ∈ s.versions) :
    v.live s.done = true ↔ ¬Swept v hist := by
  have hn := run_numbered h
  have ht := run_tracked h
  have hidle : ∀ t, ¬s.active t := fun t ha => by
    rw [Store.active, hq] at ha
    cases ha
  have hmin : v.xmin ∈ s.done := (hn.xmin v hv).resolve_right (hidle _)
  cases hx : v.xmax with
  | none =>
    refine iff_of_true (by simp [Version.live, hmin, hx]) fun hsw => ?_
    rcases ht.swept v hv hsw with hne | ⟨t, _, _, _, ht, -⟩
    · exact hne hx
    · rw [hq] at ht
      cases ht
  | some t =>
    obtain ⟨hsw, hd⟩ := ht.marked v hv t hx
    have hd := hd.resolve_right (hidle t)
    exact iff_of_false (by simp [Version.live, hd, hx]) fun hns => hns hsw

/-! ## What a transaction wrote -/

def inserts : List (Stmt Row) → List (Nat → Row)
  | [] => []
  | .delete _ :: stmts => inserts stmts
  | .insert new :: stmts => new :: inserts stmts

theorem inserts_append (xs ys : List (Stmt Row)) : inserts (xs ++ ys) = inserts xs ++ inserts ys := by
  induction xs with
  | nil => rfl
  | cons x xs ih =>
    cases x with
    | delete p => exact ih
    | insert new => exact congrArg (new :: ·) ih

/-- The versions of `t` are those of the INSERTs among `stmts`. -/
def Wrote (stmts : List (Stmt Row)) (t : Nat) (versions : List (Version Row)) : Prop :=
  versions.countP (·.xmin == t) = (inserts stmts).length ∧
    ∀ v ∈ versions, v.xmin = t → ∃ new ∈ inserts stmts, v.row = new v.id

def Ev.committed : Ev Row Call → Option Nat
  | .commit t _ => some t
  | _ => none

structure Coded (code : Call → List (Stmt Row)) (rows : List Row) (s : Store Row Call) (hist : List (Ev Row Call)) :
    Prop where
  running : ∀ t x, s.txns t = some x → ∃ pre, code x.call = pre ++ x.todo ∧ Wrote pre t s.versions
  ended : ∀ t call, .commit t call ∈ hist → t ≠ 0 ∧ Wrote (code call) t s.versions
  once : (hist.filterMap Ev.committed).Nodup
  old : ∀ v ∈ s.versions, v.xmin = 0 → v.row ∈ rows

theorem Wrote.lock {s : Store Row Call} {stmts : List (Stmt Row)} {t' : Nat} (h : Wrote stmts t' s.versions)
    (t i : Nat) :
    Wrote stmts t' (s.lock t i) := by
  constructor
  · rw [Store.lock, List.countP_map, ← h.1]
    congr 1
    funext v
    simp only [Function.comp]
    split
    · rfl
    · rfl
  · intro v hm hx
    obtain ⟨v₀, h₀, ⟨-, rfl⟩ | ⟨-, rfl⟩⟩ := mem_lock hm
    · exact h.2 v₀ h₀ hx
    · exact h.2 v h₀ hx

theorem Wrote.other {stmts : List (Stmt Row)} {t : Nat} {versions : List (Version Row)} (h : Wrote stmts t versions)
    {v : Version Row} (hv : v.xmin ≠ t) : Wrote stmts t (versions ++ [v]) := by
  constructor
  · rw [List.countP_append, h.1]
    simp [hv]
  · intro v' hm hx
    rcases List.mem_append.mp hm with hm | hm
    · exact h.2 v' hm hx
    · rw [List.mem_singleton.mp hm] at hx
      exact absurd hx hv

theorem Wrote.insert {pre : List (Stmt Row)} {t i : Nat} {versions : List (Version Row)} (h : Wrote pre t versions)
    (new : Nat → Row) : Wrote (pre ++ [.insert new]) t (versions ++ [⟨i, new i, t, none⟩]) := by
  have hins : inserts (pre ++ [.insert new]) = inserts pre ++ [new] := inserts_append pre _
  constructor
  · rw [hins, List.countP_append, h.1, List.length_append]
    simp
  · intro v hm hx
    rw [hins]
    rcases List.mem_append.mp hm with hm | hm
    · obtain ⟨new', hn, hr⟩ := h.2 v hm hx
      exact ⟨new', List.mem_append_left _ hn, hr⟩
    · rw [List.mem_singleton.mp hm]
      exact ⟨new, List.mem_append_right _ List.mem_cons_self, rfl⟩

section Steps

variable {code : Call → List (Stmt Row)} {rows : List Row} {s s' : Store Row Call} {hist evs : List (Ev Row Call)}

theorem Coded.start (code : Call → List (Stmt Row)) (rows : List Row) : Coded code rows (.start rows) [] where
  running := fun t x h => by cases h
  ended := fun t call h => by cases h
  once := List.nodup_nil
  old := fun v hv _ => ((startVersions_spec 0 rows).2 v hv).2.2.1

theorem Coded.step (hn : Numbered s hist) (h : Coded code rows s hist) (hs : Step code s evs s') :
    Coded code rows s' (evs ++ hist) := by
  -- A transaction in progress has not committed, so its events are not among the ended.
  have hnot : ∀ {t x}, s.txns t = some x → ∀ call, .commit t call ∉ hist := fun hx call hc =>
    (hn.active _ (active_of hx)).2 ((hn.committed _).mpr (.inr ⟨call, hc⟩))
  cases hs with
  | begin call =>
    refine ⟨fun t x hx => ?_, h.ended, h.once, h.old⟩
    rcases set_txn hx with ⟨rfl, he⟩ | ⟨-, he⟩
    · cases he
      have hnone : ∀ v ∈ s.versions, v.xmin ≠ s.xid := fun v hv => Nat.ne_of_lt <| by
        rcases hn.xmin v hv with hd | ha
        · exact hn.done _ hd
        · exact (hn.active _ ha).1
      refine ⟨[], rfl, ?_, fun v hv hx => absurd hx (hnone v hv)⟩
      exact List.countP_eq_zero.mpr fun v hv => by simpa using hnone v hv
    · exact h.running t x he
  | delete t call p todo hx =>
    refine ⟨fun t' x hy => ?_, fun t' call' hc => h.ended t' call'
      ((List.mem_cons.mp hc).resolve_left (by simp)), h.once, h.old⟩
    rcases set_txn hy with ⟨rfl, he⟩ | ⟨-, he⟩
    · cases he
      obtain ⟨pre, hcode, hw⟩ := h.running t' _ hx
      refine ⟨pre ++ [.delete p], by rw [hcode]; simp, ?_⟩
      have hins : inserts (pre ++ [.delete p]) = inserts pre := (inserts_append pre _).trans (List.append_nil _)
      rwa [Wrote, hins]
    · exact h.running t' x he
  | reach t call todo i ids hx hb =>
    refine ⟨fun t' x hy => ?_, fun t' call' hc =>
      ⟨(h.ended t' call' hc).1, (h.ended t' call' hc).2.lock t i⟩, h.once, ?_⟩
    · rcases set_txn hy with ⟨rfl, he⟩ | ⟨-, he⟩
      · cases he
        obtain ⟨pre, hcode, hw⟩ := h.running t' _ hx
        exact ⟨pre, hcode, hw.lock t' i⟩
      · obtain ⟨pre, hcode, hw⟩ := h.running t' x he
        exact ⟨pre, hcode, hw.lock t i⟩
    · intro v hm h0
      obtain ⟨v₀, h₀, ⟨-, rfl⟩ | ⟨-, rfl⟩⟩ := mem_lock hm
      · exact h.old v₀ h₀ h0
      · exact h.old v h₀ h0
  | deleted t call todo hx =>
    refine ⟨fun t' x hy => ?_, h.ended, h.once, h.old⟩
    rcases set_txn hy with ⟨rfl, he⟩ | ⟨-, he⟩
    · cases he
      obtain ⟨pre, hcode, hw⟩ := h.running t' _ hx
      exact ⟨pre, hcode, hw⟩
    · exact h.running t' x he
  | insert t call new todo hx =>
    refine ⟨fun t' x hy => ?_, fun t' call' hc => ?_, h.once, ?_⟩
    · rcases set_txn hy with ⟨rfl, he⟩ | ⟨hne, he⟩
      · cases he
        obtain ⟨pre, hcode, hw⟩ := h.running t' _ hx
        exact ⟨pre ++ [.insert new], by rw [hcode]; simp, hw.insert new⟩
      · obtain ⟨pre, hcode, hw⟩ := h.running t' x he
        exact ⟨pre, hcode, hw.other fun heq => hne heq.symm⟩
    · have hc := (List.mem_cons.mp hc).resolve_left (by simp)
      obtain ⟨h0, hw⟩ := h.ended t' call' hc
      refine ⟨h0, hw.other ?_⟩
      intro h
      subst h
      exact hnot hx call' hc
    · intro v hm h0
      rcases List.mem_append.mp hm with hm | hm
      · exact h.old v hm h0
      · rw [List.mem_singleton.mp hm] at h0
        have hd := (hn.committed t).mpr (.inl h0)
        exact absurd hd (hn.active t (active_of hx)).2
  | commit t call hx =>
    refine ⟨fun t' x hy => ?_, fun t' call' hc => ?_, ?_, h.old⟩
    · rcases set_txn hy with ⟨-, he⟩ | ⟨-, he⟩
      · cases he
      · exact h.running t' x he
    · rcases List.mem_cons.mp hc with he | hc
      · cases he
        obtain ⟨pre, hcode, hw⟩ := h.running t _ hx
        rw [List.append_nil] at hcode
        refine ⟨?_, hcode ▸ hw⟩
        intro h
        subst h
        exact (hn.active 0 (active_of hx)).2 ((hn.committed 0).mpr (.inl rfl))
      · exact h.ended t' call' hc
    · refine List.nodup_cons.mpr ⟨fun hm => ?_, h.once⟩
      obtain ⟨e, he, het⟩ := List.mem_filterMap.mp hm
      cases e with
      | commit t' call' =>
        cases het
        exact hnot hx call' he
      | delete t' p => cases het
      | insert t' i => cases het

end Steps

theorem run_coded {code : Call → List (Stmt Row)} {rows : List Row} {hist : List (Ev Row Call)} {s : Store Row Call}
    (h : Run code rows hist s) : Coded code rows s hist := by
  induction h with
  | start => exact .start code rows
  | step h hs ih => exact ih.step (run_numbered h) hs

/-! ## Reading a run back -/

section Runs

variable {code : Call → List (Stmt Row)} {rows : List Row} {s : Store Row Call} {hist : List (Ev Row Call)}

theorem run_delete (h : Run code rows hist s) {t : Nat} {p : Row → Bool} (hm : .delete t p ∈ hist) :
    ∃ call, .delete p ∈ code call := by
  induction h with
  | start => cases hm
  | step h hs ih =>
    cases hs with
    | begin | reach | deleted => exact ih hm
    | insert | commit => exact ih ((List.mem_cons.mp hm).resolve_left (by simp))
    | delete t' call p' todo hx =>
      rcases List.mem_cons.mp hm with he | hm
      · cases he
        obtain ⟨pre, hcode, -⟩ := (run_coded h).running t _ hx
        exact ⟨call, by rw [hcode]; simp⟩
      · exact ih hm

theorem run_inserted (h : Run code rows hist s) {t i : Nat} (hm : .insert t i ∈ hist) :
    ∃ v ∈ s.versions, v.xmin = t ∧ v.id = i := by
  induction h with
  | start => cases hm
  | step h hs ih =>
    cases hs with
    | begin | deleted => exact ih hm
    | delete | commit => exact ih ((List.mem_cons.mp hm).resolve_left (by simp))
    | reach t' call todo i' ids hx hb =>
      obtain ⟨v, hv, hx, hid⟩ := ih hm
      refine ⟨_, List.mem_map_of_mem hv, ?_⟩
      split
      · exact ⟨hx, hid⟩
      · exact ⟨hx, hid⟩
    | insert t' call new todo hx =>
      rcases List.mem_cons.mp hm with he | hm
      · cases he
        exact ⟨_, List.mem_append_right _ List.mem_cons_self, rfl, rfl⟩
      · obtain ⟨v, hv, hx, hid⟩ := ih hm
        exact ⟨v, List.mem_append_left _ hv, hx, hid⟩

/-- Whoever started a DELETE has committed since, or is in progress. -/
theorem run_ends (h : Run code rows hist s) {t : Nat} {p : Row → Bool} (later earlier : List (Ev Row Call))
    (he : hist = later ++ .delete t p :: earlier) : s.active t ∨ ∃ call, .commit t call ∈ later := by
  induction h generalizing later with
  | start => simp at he
  | @step hist evs s s' h hs ih =>
    have hn := run_numbered h
    cases hs with
    | begin call =>
      exact (ih later he).imp_left fun ha => active_set.mpr (.inr ha)
    | deleted t' call todo hx => exact (ih later he).imp_left (active_keep hx).mpr
    | reach t' call todo i ids hx hb => exact (ih later he).imp_left (active_keep hx).mpr
    | delete t' call p' todo hx =>
      cases later with
      | nil =>
        cases he
        exact .inl (active_set.mpr (.inl rfl))
      | cons e later =>
        cases he
        rcases ih later rfl with ha | ⟨call', hc⟩
        · exact .inl (active_set.mpr (.inr ha))
        · exact .inr ⟨call', List.mem_cons_of_mem _ hc⟩
    | insert t' call new todo hx =>
      cases later with
      | nil => cases he
      | cons e later =>
        cases he
        rcases ih later rfl with ha | ⟨call', hc⟩
        · exact .inl (active_set.mpr (.inr ha))
        · exact .inr ⟨call', List.mem_cons_of_mem _ hc⟩
    | commit t' call hx =>
      cases later with
      | nil => cases he
      | cons e later =>
        cases he
        rcases ih later rfl with ha | ⟨call', hc⟩
        · by_cases hte : t = t'
          · subst hte
            exact .inr ⟨call, List.mem_cons_self⟩
          · left
            show (setAt s.txns t' none t).isSome = true
            rwa [setAt_ne _ _ hte]
        · exact .inr ⟨call', List.mem_cons_of_mem _ hc⟩

theorem swept_of_split {v : Version Row} {t : Nat} {p : Row → Bool} {earlier : List (Ev Row Call)}
    (hp : p v.row = true) (hc : Committed earlier v.xmin) (later : List (Ev Row Call)) :
    Swept v (later ++ .delete t p :: earlier) := by
  induction later with
  | nil => exact .inl ⟨hp, .inl hc⟩
  | cons e later ih => exact ih.mono e

/-- Where no DELETE comes after an INSERT of its transaction, only other transactions sweep. -/
theorem run_swept (hcode : ∀ call pre p todo, code call = pre ++ .delete p :: todo → inserts pre = [])
    (h : Run code rows hist s) {v : Version Row} (hv : Swept v hist) :
    ∃ later t p earlier, hist = later ++ .delete t p :: earlier ∧ Committed earlier v.xmin := by
  induction h with
  | start => exact hv.elim
  | step h hs ih =>
    have hmore : ∀ e hist', (∃ later t p earlier, hist' = later ++ .delete t p :: earlier ∧
        Committed earlier v.xmin) →
        ∃ later t p earlier, e :: hist' = later ++ (.delete t p : Ev Row Call) :: earlier ∧
        Committed earlier v.xmin := by
      intro e _ h
      obtain ⟨later, t, p, earlier, rfl, hc⟩ := h
      exact ⟨e :: later, t, p, earlier, rfl, hc⟩
    cases hs with
    | begin | reach | deleted => exact ih hv
    | insert | commit => exact hmore _ _ (ih hv)
    | delete t call p todo hx =>
      rcases hv with ⟨-, hc | ⟨rfl, hi⟩⟩ | hv
      · exact ⟨[], t, p, _, rfl, hc⟩
      · obtain ⟨pre, hpre, hw⟩ := (run_coded h).running _ _ hx
        obtain ⟨v', hv', hx', -⟩ := run_inserted h hi
        have hnone := hw.1
        rw [hcode call pre p todo hpre] at hnone
        exact absurd (beq_iff_eq.mpr hx') (List.countP_eq_zero.mp hnone v' hv')
      · exact hmore _ _ (ih hv)

end Runs

end Connect.Sql
