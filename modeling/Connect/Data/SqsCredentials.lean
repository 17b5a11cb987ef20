/-
  Connect.Data.SqsCredentials — one user's SQS credentials under concurrent saves and
  deletes (services/state.py, db/repositories/datastore.py).

  A save deletes the user's rows and inserts one, a delete deletes them; no constraint
  keeps the user to one row. At READ COMMITTED a DELETE does not see what another
  transaction has not committed when it starts, so two saves may both insert
  (`two_rows`). Once all have committed, the user has one row at most and reads what was
  saved last if and only if every save's commit is the last of all or is followed by the
  start of a DELETE (`one_row_iff`).

  A transaction that raises is rolled back and is none of these. The SELECT of `refresh`
  reads the row its own transaction has inserted, and changes nothing.
-/

import Connect.Data.Credentials
import Connect.Sql.ReadCommitted

namespace Connect.Data

open Sql

inductive SqsCall where
  | save (accessKey secretKey region : String) (now : Int) (salt : Nat)
  | delete
  deriving DecidableEq, Repr

def SqsCall.isSave : SqsCall → Bool
  | .save .. => true
  | .delete => false

variable (cipher : Cipher) (userId : Option Uuid)

/-- `SqsCredentialsRepository.delete_for_user`. -/
def deleteForUser : Stmt SqsCredentials := .delete fun row => ownedBy userId row.userId

def saveSqsCredentials (accessKey secretKey region : String) (now : Int) (salt : Nat) : List (Stmt SqsCredentials) :=
  [deleteForUser userId,
    .insert fun id => ⟨id, accessKey, cipher.encryptSecret salt secretKey, region, userId, now⟩]

def deleteSqsCredentials : List (Stmt SqsCredentials) := [deleteForUser userId]

def SqsCall.code : SqsCall → List (Stmt SqsCredentials)
  | .save accessKey secretKey region now salt => saveSqsCredentials cipher userId accessKey secretKey region now salt
  | .delete => deleteSqsCredentials userId

/-- The dictionary that `get_sqs_credentials` returns. -/
structure SqsDict where
  id : Nat
  accessKey : String
  secretKey : String
  region : String
  userId : Option Uuid
  deriving DecidableEq, Repr

/-- The first row that the SELECT returns, in whatever order. -/
def getSqsCredentials (rows : List SqsCredentials) : Except CallError (Option SqsDict) :=
  match rows.filter fun row => ownedBy userId row.userId with
  | [] => .ok none
  | row :: _ =>
    match cipher.decryptSecret row.secretKeyEncrypted with
    | none => .error .invalidToken
    | some secretKey => .ok (some ⟨row.id, row.accessKey, secretKey, row.region, row.userId⟩)

abbrev SqsEv := Ev SqsCredentials SqsCall

def committed : SqsEv → Option (Nat × SqsCall)
  | .commit t call => some (t, call)
  | _ => none

/-- The keys of the save that committed last and after every delete. -/
def lastSaved (hist : List SqsEv) : Option (String × String) :=
  match hist.findSome? committed with
  | some (_, .save accessKey secretKey _ _ _) => some (accessKey, secretKey)
  | _ => none

/-- One row at most, and the read returns what was saved last. -/
def OneCredential (hist : List SqsEv) (rows : List SqsCredentials) : Prop :=
  (rows.filter fun row => ownedBy userId row.userId).length ≤ 1 ∧
    (getSqsCredentials cipher userId rows).map (·.map fun d => (d.accessKey, d.secretKey)) = .ok (lastSaved hist)

/-- After the commit of a save no other transaction commits, or a DELETE starts. -/
def SavesSwept (hist : List SqsEv) : Prop :=
  ∀ later t call earlier, hist = later ++ .commit t call :: earlier → call.isSave = true →
    (∀ t' call', .commit t' call' ∉ later) ∨ ∃ t' p, .delete t' p ∈ later

/-! ## The versions of the saves -/

section Versions

variable {cipher} {userId} {rows : List SqsCredentials} {hist : List SqsEv} {s : Store SqsCredentials SqsCall}

theorem code_shape (call : SqsCall) (pre : List (Stmt SqsCredentials)) (p : SqsCredentials → Bool)
    (todo : List (Stmt SqsCredentials)) (h : call.code cipher userId = pre ++ .delete p :: todo) :
    inserts pre = [] := by
  cases pre with
  | nil => rfl
  | cons st pre =>
    cases call with
    | delete => simp [SqsCall.code, deleteSqsCredentials] at h
    | save accessKey secretKey region now salt =>
      simp only [SqsCall.code, saveSqsCredentials, List.cons_append, List.cons.injEq] at h
      cases pre with
      | nil => simp at h
      | cons st' pre => simp at h

/-- Every DELETE of the run is one of the user's rows. -/
theorem delete_owned (h : Run (SqsCall.code cipher userId) rows hist s) {t : Nat} {p : SqsCredentials → Bool}
    (hm : .delete t p ∈ hist) (row : SqsCredentials) : p row = ownedBy userId row.userId := by
  obtain ⟨call, hc⟩ := run_delete h hm
  cases call with
  | delete =>
    simp only [SqsCall.code, deleteSqsCredentials, deleteForUser, List.mem_singleton, Stmt.delete.injEq] at hc
    rw [hc]
  | save accessKey secretKey region now salt =>
    simp [SqsCall.code, saveSqsCredentials, deleteForUser] at hc
    rw [hc]

/-- The version that a committed save has inserted, and no other of its transaction. -/
theorem save_version (h : Run (SqsCall.code cipher userId) rows hist s) {t : Nat}
    {accessKey secretKey region : String}
    {now : Int} {salt : Nat} (hc : .commit t (.save accessKey secretKey region now salt) ∈ hist) :
    (∃ v ∈ s.versions, v.xmin = t) ∧ s.versions.countP (·.xmin == t) = 1 ∧
      ∀ v ∈ s.versions, v.xmin = t →
        v.row = ⟨v.id, accessKey, cipher.encryptSecret salt secretKey, region, userId, now⟩ := by
  obtain ⟨-, hcount, hrow⟩ := (run_coded h).ended t _ hc
  have hone : s.versions.countP (·.xmin == t) = 1 := hcount
  refine ⟨?_, hone, fun v hv hx => ?_⟩
  · obtain ⟨v, hv, hx⟩ := List.countP_pos_iff.mp (hone ▸ Nat.zero_lt_one)
    exact ⟨v, hv, beq_iff_eq.mp hx⟩
  · obtain ⟨new, hn, hr⟩ := hrow v hv hx
    cases List.mem_singleton.mp hn
    exact hr

/-- Once all have committed, a row of the user's is that of a committed save. -/
theorem owned_version (h : Run (SqsCall.code cipher userId) rows hist s) (hq : ∀ t, s.txns t = none)
    (hrows : ∀ r ∈ rows, r.userId ≠ userId) {v : Version SqsCredentials} (hv : v ∈ s.versions)
    (ho : ownedBy userId v.row.userId = true) : ∃ call, call.isSave = true ∧ .commit v.xmin call ∈ hist := by
  have hn := run_numbered h
  have hd : v.xmin ∈ s.done := (hn.xmin v hv).resolve_right fun ha => by
    rw [Store.active, hq] at ha
    cases ha
  rcases (hn.committed _).mp hd with h0 | ⟨call, hc⟩
  · exact absurd (ownedBy_iff.mp ho) (hrows _ ((run_coded h).old v hv h0))
  · refine ⟨call, ?_, hc⟩
    cases call with
    | save => rfl
    | delete =>
      obtain ⟨-, -, hrow⟩ := (run_coded h).ended _ _ hc
      obtain ⟨new, hm, -⟩ := hrow v hv rfl
      cases hm

theorem commit_once (h : Run (SqsCall.code cipher userId) rows hist s) {later earlier : List SqsEv} {t : Nat}
    {call : SqsCall} (he : hist = later ++ .commit t call :: earlier) (call' : SqsCall) :
    .commit t call' ∉ later ∧ .commit t call' ∉ earlier := by
  have honce := (run_coded h).once
  rw [he, List.filterMap_append, List.filterMap_cons] at honce
  obtain ⟨-, hnd, hdisj⟩ := List.nodup_append.mp honce
  constructor
  · intro hm
    exact hdisj t (List.mem_filterMap.mpr ⟨_, hm, rfl⟩) t List.mem_cons_self rfl
  · intro hm
    exact (List.nodup_cons.mp hnd).1 (List.mem_filterMap.mpr ⟨_, hm, rfl⟩)

/-- A saved row is swept by the DELETEs that start after its commit. -/
theorem swept_after (h : Run (SqsCall.code cipher userId) rows hist s) {v : Version SqsCredentials}
    (ho : ownedBy userId v.row.userId = true) {later earlier : List SqsEv} {call : SqsCall}
    (he : hist = later ++ .commit v.xmin call :: earlier) : Swept v hist ↔ ∃ t p, .delete t p ∈ later := by
  constructor
  · intro hsw
    obtain ⟨l, t, p, e, hsplit, hc⟩ := run_swept code_shape h hsw
    rcases hc with h0 | ⟨call', hc⟩
    · have hm : .commit v.xmin call ∈ hist := by simp [he]
      exact absurd h0 ((run_coded h).ended _ _ hm).1
    · rw [he] at hsplit
      rcases List.append_eq_append_iff.mp hsplit with ⟨a, -, ha⟩ | ⟨a, hl, ha⟩
      · cases a with
        | nil => cases ha
        | cons x a =>
          cases ha
          exact absurd (List.mem_append_right a (List.mem_cons_of_mem _ hc)) (commit_once h he call').2
      · cases a with
        | nil => cases ha
        | cons x a =>
          cases ha
          exact ⟨t, p, hl ▸ List.mem_append_right l List.mem_cons_self⟩
  · intro h
    obtain ⟨t, p, hm⟩ := h
    obtain ⟨l, e, rfl⟩ := List.append_of_mem hm
    have hp : p v.row = true := (delete_owned (t := t) h (by simp [he]) v.row).trans ho
    rw [he, List.append_assoc]
    exact swept_of_split hp (.inr ⟨call, List.mem_append_right e List.mem_cons_self⟩) l

/-- The user's rows, each the row of a version that is left. -/
theorem owned_rows (s : Store SqsCredentials SqsCall) :
    (s.rows.filter fun row => ownedBy userId row.userId) =
      (s.versions.filter fun v => v.live s.done && ownedBy userId v.row.userId).map (·.row) := by
  rw [Store.rows, List.filter_map, List.filter_filter]
  congr 1
  exact List.filter_congr fun v _ => Bool.and_comm _ _

theorem newest_commit {later earlier : List SqsEv} {t : Nat} {call : SqsCall}
    (hno : ∀ t' call', .commit t' call' ∉ later) :
    (later ++ .commit t call :: earlier).findSome? committed = some (t, call) := by
  rw [List.findSome?_append]
  have hnone : later.findSome? committed = none := by
    refine List.findSome?_eq_none_iff.mpr fun e he => ?_
    cases e with
    | commit t' call' => exact absurd he (hno t' call')
    | delete | insert => rfl
  rw [hnone]
  rfl

theorem newest_split {hist : List SqsEv} {t : Nat} {call : SqsCall} (h : hist.findSome? committed = some (t, call)) :
    ∃ later earlier, hist = later ++ .commit t call :: earlier ∧ ∀ t' call', .commit t' call' ∉ later := by
  obtain ⟨later, e, earlier, rfl, he, hno⟩ := List.findSome?_eq_some_iff.mp h
  cases e with
  | delete | insert => cases he
  | commit t' call' =>
    cases he
    exact ⟨later, earlier, rfl, fun t'' call'' hm => by cases hno _ hm⟩

/-- A DELETE that started is followed by a commit, its own. -/
theorem commit_after_delete (h : Run (SqsCall.code cipher userId) rows hist s) (hq : ∀ t, s.txns t = none)
    {later earlier : List SqsEv} {t : Nat} {call : SqsCall} (he : hist = later ++ .commit t call :: earlier)
    (hno : ∀ t' call', .commit t' call' ∉ later) (t' : Nat) (p : SqsCredentials → Bool) : .delete t' p ∉ later := by
  intro hm
  obtain ⟨l, e, rfl⟩ := List.append_of_mem hm
  rw [List.append_assoc] at he
  rcases run_ends h l _ he with ha | ⟨call', hc⟩
  · rw [Store.active, hq] at ha
    cases ha
  · exact hno t' call' (List.mem_append_left _ hc)

theorem one_of_swept (h : Run (SqsCall.code cipher userId) rows hist s) (hq : ∀ t, s.txns t = none)
    (hrows : ∀ r ∈ rows, r.userId ≠ userId) (hsw : SavesSwept hist) : OneCredential cipher userId hist s.rows := by
  -- The version that is left belongs to the newest commit.
  have hlast : ∀ v ∈ s.versions, v.live s.done = true → ownedBy userId v.row.userId = true →
      ∃ later call earlier, hist = later ++ .commit v.xmin call :: earlier ∧ call.isSave = true ∧
        ∀ t' call', .commit t' call' ∉ later := by
    intro v hv hl ho
    obtain ⟨call, hsave, hc⟩ := owned_version h hq hrows hv ho
    obtain ⟨later, earlier, he⟩ := List.append_of_mem hc
    refine ⟨later, call, earlier, he, hsave, (hsw later _ call earlier he hsave).resolve_right fun hd => ?_⟩
    exact (live_iff h hq hv).mp hl ((swept_after h ho he).mpr hd)
  rw [OneCredential, getSqsCredentials, owned_rows, List.length_map]
  cases hf : s.versions.filter fun v => v.live s.done && ownedBy userId v.row.userId with
  | nil =>
    refine ⟨Nat.zero_le _, congrArg Except.ok ?_⟩
    show none = lastSaved hist
    rw [lastSaved]
    split
    · rename_i t accessKey secretKey region now salt hnew
      obtain ⟨later, earlier, he, hno⟩ := newest_split hnew
      have hc : .commit t (.save accessKey secretKey region now salt) ∈ hist :=
        he ▸ List.mem_append_right later List.mem_cons_self
      obtain ⟨⟨v, hv, rfl⟩, -, hrow⟩ := save_version h hc
      have ho : ownedBy userId v.row.userId = true := ownedBy_iff.mpr (by rw [hrow v hv rfl])
      have hl : v.live s.done = true := (live_iff h hq hv).mpr fun hs => by
        obtain ⟨t', p, hm⟩ := (swept_after h ho he).mp hs
        exact commit_after_delete h hq he hno t' p hm
      have hm := List.filter_eq_nil_iff.mp hf v hv
      rw [hl, ho] at hm
      exact absurd rfl hm
    · rfl
  | cons v vs =>
    have hmem : ∀ w ∈ v :: vs, w ∈ s.versions ∧ w.live s.done = true ∧ ownedBy userId w.row.userId = true := by
      intro w hw
      obtain ⟨hv, hp⟩ := List.mem_filter.mp (hf ▸ hw)
      exact ⟨hv, Bool.and_eq_true _ _ ▸ hp⟩
    obtain ⟨hv, hl, ho⟩ := hmem v List.mem_cons_self
    obtain ⟨later, call, earlier, he, hsave, hno⟩ := hlast v hv hl ho
    have hnew : hist.findSome? committed = some (v.xmin, call) := by rw [he, newest_commit hno]
    cases call with
    | delete => cases hsave
    | save accessKey secretKey region now salt =>
      have hc : .commit v.xmin (.save accessKey secretKey region now salt) ∈ hist :=
        he ▸ List.mem_append_right later List.mem_cons_self
      obtain ⟨-, hone, hrow⟩ := save_version h hc
      have hle : (v :: vs).length ≤ 1 := by
        rw [← hone, ← hf, ← List.countP_eq_length_filter]
        refine List.countP_mono_left fun w hw hp => ?_
        rw [Bool.and_eq_true] at hp
        obtain ⟨later', call', earlier', he', -, hno'⟩ := hlast w hw hp.1 hp.2
        rw [he', newest_commit hno'] at hnew
        have heq : w.xmin = v.xmin := congrArg Prod.fst (Option.some.inj hnew)
        exact beq_iff_eq.mpr heq
      refine ⟨hle, ?_⟩
      rw [lastSaved, hnew]
      simp [hrow v hv rfl, cipher.secretRoundTrip, Except.map]

/-- A save whose commit no DELETE follows is among the user's rows. -/
theorem unswept_row (h : Run (SqsCall.code cipher userId) rows hist s) (hq : ∀ t, s.txns t = none)
    {later earlier : List SqsEv} {t : Nat} {call : SqsCall} (he : hist = later ++ .commit t call :: earlier)
    (hsave : call.isSave = true) (hno : ∀ t' p, .delete t' p ∉ later) :
    ∃ v ∈ s.versions.filter fun v => v.live s.done && ownedBy userId v.row.userId, v.xmin = t := by
  cases call with
  | delete => cases hsave
  | save accessKey secretKey region now salt =>
    have hc : .commit t (.save accessKey secretKey region now salt) ∈ hist :=
      he ▸ List.mem_append_right later List.mem_cons_self
    obtain ⟨⟨v, hv, rfl⟩, -, hrow⟩ := save_version h hc
    have ho : ownedBy userId v.row.userId = true := ownedBy_iff.mpr (by rw [hrow v hv rfl])
    have hl : v.live s.done = true := (live_iff h hq hv).mpr fun hs => by
      obtain ⟨t', p, hm⟩ := (swept_after h ho he).mp hs
      exact hno t' p hm
    exact ⟨v, List.mem_filter.mpr ⟨hv, by rw [hl, ho]; rfl⟩, rfl⟩

theorem swept_of_one (h : Run (SqsCall.code cipher userId) rows hist s) (hq : ∀ t, s.txns t = none)
    (hone : OneCredential cipher userId hist s.rows) : SavesSwept hist := by
  intro later t call earlier he hsave
  by_cases hd : ∃ t' p, .delete t' p ∈ later
  · exact .inr hd
  refine .inl fun t' call' hc' => ?_
  have hno : ∀ t' p, .delete t' p ∉ later := fun t' p hm => hd ⟨t', p, hm⟩
  obtain ⟨v, hv, hvx⟩ := unswept_row h hq he hsave hno
  -- The newest commit comes after this one, so it is another's.
  obtain ⟨x, hx⟩ : ∃ x, later.findSome? committed = some x := by
    cases hf : later.findSome? committed with
    | some x => exact ⟨x, rfl⟩
    | none => cases List.findSome?_eq_none_iff.mp hf _ hc'
  obtain ⟨t'', call''⟩ := x
  obtain ⟨l, e, hl, hnew⟩ := newest_split hx
  have hhist : hist = l ++ .commit t'' call'' :: (e ++ .commit t call :: earlier) := by rw [he, hl]; simp
  have hlast : hist.findSome? committed = some (t'', call'') := by rw [hhist, newest_commit hnew]
  rw [OneCredential, getSqsCredentials, owned_rows, List.length_map] at hone
  cases hs'' : call''.isSave with
  | true =>
    have hno'' : ∀ t' p, .delete t' p ∉ l := fun t' p hm => hno t' p (hl ▸ List.mem_append_left _ hm)
    obtain ⟨w, hw, hwx⟩ := unswept_row h hq hhist hs'' hno''
    have heq : v = w := by
      cases hf : s.versions.filter fun v => v.live s.done && ownedBy userId v.row.userId with
      | nil => rw [hf] at hv; cases hv
      | cons a as =>
        rw [hf] at hv hw hone
        have has : as = [] := List.eq_nil_of_length_eq_zero (Nat.le_zero.mp (Nat.le_of_succ_le_succ hone.1))
        subst has
        rw [List.mem_singleton.mp hv, List.mem_singleton.mp hw]
    have ht : t = t'' := by rw [← hvx, ← hwx, heq]
    have hm : .commit t call'' ∈ later := by rw [ht, hl]; simp
    exact (commit_once h he call'').1 hm
  | false =>
    cases call'' with
    | save => cases hs''
    | delete =>
      obtain ⟨-, hget⟩ := hone
      rw [lastSaved, hlast] at hget
      cases hf : s.versions.filter fun v => v.live s.done && ownedBy userId v.row.userId with
      | nil => rw [hf] at hv; cases hv
      | cons a as =>
        rw [hf] at hget
        cases hk : cipher.decryptSecret a.row.secretKeyEncrypted with
        | none => simp [hk, Except.map] at hget
        | some secretKey => simp [hk, Except.map] at hget

end Versions

/-- Whatever the order of the statements, once every save and delete has committed there is one
    row at most and the read returns the last save, if and only if after each save's commit there
    is no other commit or a DELETE starts. -/
theorem one_row_iff (cipher : Cipher) (userId : Option Uuid) (rows : List SqsCredentials)
    (hrows : ∀ r ∈ rows, r.userId ≠ userId) (hist : List SqsEv) (s : Store SqsCredentials SqsCall)
    (h : Run (SqsCall.code cipher userId) rows hist s) (hq : ∀ t, s.txns t = none) :
    OneCredential cipher userId hist s.rows ↔ SavesSwept hist :=
  ⟨swept_of_one h hq, one_of_swept h hq hrows⟩

def oneSave : SqsCall := .save "AKIA1" "one" "us-east-1" 0 0

def otherSave : SqsCall := .save "AKIA2" "two" "us-east-1" 1 0

def someUser : Option Uuid := some ⟨7, by decide⟩

/-- Two saves and a delete begin together. The DELETEs of the last two start behind the
    commit of the first, and the second save waits for the other to be done with its row. -/
theorem one_row_iff_waiting :
    ∃ (hist : List SqsEv) (s : Store SqsCredentials SqsCall), lastSaved hist = some ("AKIA2", "two") ∧
      OneCredential clear someUser hist s.rows ∧ SavesSwept hist := by
  have r : Run (SqsCall.code clear someUser) [] [] (.start []) := .start
  have r := r.step (.begin oneSave)
  have r := r.step (.begin otherSave)
  have r := r.step (.begin .delete)
  have r := r.step (.delete 1 oneSave _ _ rfl)
  have r := r.step (.deleted 1 oneSave _ rfl)
  have r := r.step (.insert 1 oneSave _ _ rfl)
  have r := r.step (.commit 1 oneSave rfl)
  have r := r.step (.delete 2 otherSave _ _ rfl)
  have r := r.step (.delete 3 .delete _ _ rfl)
  have r := r.step (.reach 3 .delete _ 0 _ rfl (by decide))
  have r := r.step (.deleted 3 .delete _ rfl)
  have r := r.step (.commit 3 .delete rfl)
  have r := r.step (.reach 2 otherSave _ 0 _ rfl (by decide))
  have r := r.step (.deleted 2 otherSave _ rfl)
  have r := r.step (.insert 2 otherSave _ _ rfl)
  have r := r.step (.commit 2 otherSave rfl)
  have hiff := one_row_iff clear someUser [] (fun _ hr => absurd hr List.not_mem_nil) _ _ r (by
    intro t
    by_cases h1 : t = 1 <;> by_cases h2 : t = 2 <;> by_cases h3 : t = 3 <;> simp [setAt, Store.start, h1, h2, h3])
  have hswept := hiff.mp ⟨by decide, rfl⟩
  exact ⟨_, _, rfl, hiff.mpr hswept, hswept⟩

/-- Two saves, each DELETE before the other's commit: both rows stay. -/
theorem two_rows :
    ∃ hist s, Run (SqsCall.code clear someUser) [] hist s ∧ (∀ t, s.txns t = none) ∧
      (s.rows.map fun row => (row.userId, row.accessKey)) = [(someUser, "AKIA1"), (someUser, "AKIA2")] ∧
      ¬OneCredential clear someUser hist s.rows := by
  have r : Run (SqsCall.code clear someUser) [] [] (.start []) := .start
  have r := r.step (.begin oneSave)
  have r := r.step (.begin otherSave)
  have r := r.step (.delete 1 oneSave _ _ rfl)
  have r := r.step (.delete 2 otherSave _ _ rfl)
  have r := r.step (.deleted 1 oneSave _ rfl)
  have r := r.step (.insert 1 oneSave _ _ rfl)
  have r := r.step (.commit 1 oneSave rfl)
  have r := r.step (.deleted 2 otherSave _ rfl)
  have r := r.step (.insert 2 otherSave _ _ rfl)
  have r := r.step (.commit 2 otherSave rfl)
  refine ⟨_, _, r, ?_, ?_, ?_⟩
  · intro t
    by_cases h : t = 1 <;> by_cases h' : t = 2 <;> simp [setAt, Store.start, h, h']
  · decide
  · intro h
    exact absurd h.1 (by decide)

end Connect.Data
