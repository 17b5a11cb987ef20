/-
  Connect.Data.Credentials — saving, reading and deleting the credentials of a datastore
  (services/state.py), each call a transaction of its own, against the map from
  (datastore, user) to what was saved last.

  A plain UNIQUE lets any number of rows with a NULL in, while the code that reads looks
  for NULL as for any other user and raises on the second row. The calls behave as the map
  exactly while no save for no user finds one already there and the sequence of the ids
  has values left (`behaves_as_map`); two saves for no user are enough to break it
  (`second_save_without_user`).
-/

import Connect.Data.Repositories
import Connect.Sql.Map

namespace Connect.Data

open Sql

/-- `_encrypt_creds`, `_encrypt_secret` and what undoes them, under the server's key. Fernet's token depends on the
time and on random bytes, the `salt`; a token that was not made under the key raises (`none`). -/
structure Cipher where
  encryptCreds (salt : Nat) (accessKey secretKey : String) : Bytes
  decryptCreds : Bytes → Option (String × String)
  roundTrip : ∀ salt accessKey secretKey, decryptCreds (encryptCreds salt accessKey secretKey) =
    some (accessKey, secretKey)
  encryptSecret (salt : Nat) (secretKey : String) : Bytes
  decryptSecret : Bytes → Option String
  secretRoundTrip : ∀ salt secretKey, decryptSecret (encryptSecret salt secretKey) = some secretKey

/-- The arguments of a save but the user. -/
structure Saved where
  datastoreId : String
  datastoreName : String
  filespaceId : String
  filespaceName : String
  bucketName : String
  accessKey : String
  secretKey : String
  region : Option String
  endpoint : Option String
  deriving DecidableEq, Repr

/-- The dictionary that `get_datastore_credentials` returns. -/
structure CredentialDict extends Saved where
  id : Nat
  userId : Option Uuid
  deriving DecidableEq, Repr

inductive CallError where
  | sql (e : SqlError)
  | invalidToken
  deriving DecidableEq, Repr

variable (cipher : Cipher)

def Saved.values (v : Saved) (salt : Nat) : CredentialValues :=
  ⟨v.datastoreId, v.datastoreName, v.filespaceId, v.filespaceName, v.bucketName,
    cipher.encryptCreds salt v.accessKey v.secretKey, v.region, v.endpoint⟩

def saveDatastoreCredentials (now : Int) (salt : Nat) (s : Tables) (v : Saved) (userId : Option Uuid) :
    Except CallError DatastoreCredentials × Tables :=
  if (v.values cipher salt).texts.all isText then
    (DatastoreCredentialsRepository.upsert now s (v.values cipher salt) userId).map (Except.mapError .sql) id
  else (.error (.sql .dataError), s)

def credentialDict (row : DatastoreCredentials) : Except CallError CredentialDict :=
  match cipher.decryptCreds row.credentialsKey with
  | none => .error .invalidToken
  | some (accessKey, secretKey) =>
    .ok ⟨⟨row.datastoreId, row.datastoreName, row.filespaceId, row.filespaceName, row.bucketName, accessKey,
      secretKey, row.region, row.endpoint⟩, row.id, row.userId⟩

def getDatastoreCredentials (s : Tables) (datastoreId : String) (userId : Option Uuid) :
    Except CallError (Option CredentialDict) :=
  if isText datastoreId then
    match DatastoreCredentialsRepository.getForDatastoreUser s datastoreId userId with
    | .error e => .error (.sql e)
    | .ok none => .ok none
    | .ok (some row) => (credentialDict cipher row).map some
  else .error (.sql .dataError)

def deleteDatastoreCredentials (s : Tables) (datastoreId : String) (userId : Option Uuid) :
    Except CallError Bool × Tables :=
  if isText datastoreId then
    (DatastoreCredentialsRepository.deleteForDatastoreUser s datastoreId userId).map .ok id
  else (.error (.sql .dataError), s)

/-! ## Calls and the map they should behave as -/

inductive CredCall where
  | save (v : Saved) (userId : Option Uuid) (now : Int) (salt : Nat)
  | get (datastoreId : String) (userId : Option Uuid)
  | delete (datastoreId : String) (userId : Option Uuid)
  deriving DecidableEq, Repr

/-- What a caller sees of a reply; `raised` for any exception. -/
inductive Answer where
  | done
  | got (found : Option Saved)
  | raised
  deriving DecidableEq, Repr

def Answer.of {α : Type} (f : α → Answer) : Except CallError α → Answer
  | .ok a => f a
  | .error _ => .raised

def credStep (s : Tables) : CredCall → Answer × Tables
  | .save v userId now salt => (saveDatastoreCredentials cipher now salt s v userId).map (.of fun _ => .done) id
  | .get datastoreId userId =>
    (.of (fun r => .got (r.map (·.toSaved))) (getDatastoreCredentials cipher s datastoreId userId), s)
  | .delete datastoreId userId => (deleteDatastoreCredentials s datastoreId userId).map (.of fun _ => .done) id

/-- No credentials and no id drawn yet. -/
def fresh (users : List Uuid) : Tables where
  users := users
  importJobs := ⟨⟨[], List.nodup_nil⟩, 1, fun _ h => absurd h List.not_mem_nil⟩
  datastoreCredentials := ⟨⟨⟨[], List.nodup_nil⟩, 1, fun _ h => absurd h List.not_mem_nil⟩, List.nodup_nil⟩
  sqsCredentials := ⟨⟨[], List.nodup_nil⟩, 1, fun _ h => absurd h List.not_mem_nil⟩
  sqsQueues := ⟨[], List.nodup_nil⟩
  sqsEvents := ⟨[], List.nodup_nil⟩
  userSettings := ⟨[], List.nodup_nil⟩
  activityLogs := ⟨⟨[], List.nodup_nil⟩, 1, fun _ h => absurd h List.not_mem_nil⟩

/-- The tables after some calls, the newest first. -/
def credRun (users : List Uuid) : List CredCall → Tables
  | [] => fresh users
  | c :: before => (credStep cipher (credRun users before) c).2

/-- The texts of a save are texts, so its INSERT is sent and draws an id. -/
def Saved.bound (v : Saved) : Bool :=
  ([v.datastoreId, v.datastoreName, v.filespaceId, v.filespaceName, v.bucketName] ++ v.region.toList ++
    v.endpoint.toList).all isText

/-- A save of these arguments goes through when nothing was saved before: the user exists too. -/
def Saved.taken (v : Saved) (users : List Uuid) (userId : Option Uuid) : Bool :=
  v.bound && userId.all fun u => users.contains u

/-- A call that draws an id from the sequence, whether its row is kept or not. -/
def CredCall.draws : CredCall → Bool
  | .save v _ _ _ => v.bound
  | _ => false

abbrev CredKey := String × Option Uuid

/-- The last save under a key that no delete follows. -/
def recorded (users : List Uuid) : List CredCall → CredKey → Option Saved
  | [] => fun _ => none
  | .save v userId _ _ :: before =>
    if v.taken users userId then setAt (recorded users before) (v.datastoreId, userId) (some v)
      else recorded users before
  | .get _ _ :: before => recorded users before
  | .delete datastoreId userId :: before =>
    if isText datastoreId then setAt (recorded users before) (datastoreId, userId) none else recorded users before

/-- What the map answers; a call raises for its own arguments only. -/
def expected (users : List Uuid) (before : List CredCall) : CredCall → Answer
  | .save v userId _ _ => if v.taken users userId then .done else .raised
  | .get datastoreId userId =>
    if isText datastoreId then .got (recorded users before (datastoreId, userId)) else .raised
  | .delete datastoreId _ => if isText datastoreId then .done else .raised

def credKey (r : DatastoreCredentials) : CredKey := (r.datastoreId, r.userId)

/-- At most one row under a key. -/
def OneRow (s : Tables) : Prop := UniqueBy (fun r => some (credKey r)) s.datastoreCredentials.rows

/-- A call is answered as by the map and leaves at most one row under a key. -/
def Agrees (users : List Uuid) (before : List CredCall) (c : CredCall) : Prop :=
  (credStep cipher (credRun cipher users before) c).1 = expected users before c ∧
    OneRow (credRun cipher users (c :: before))

/-- So does every call of a sequence. -/
def BehavesAsMap (users : List Uuid) (calls : List CredCall) : Prop :=
  ∀ c before, (c :: before) <:+ calls → Agrees cipher users before c

/-- A save for no user finds none of the datastore, and a save that goes through finds the
    sequence with a value left. -/
def Fits (users : List Uuid) (before : List CredCall) : CredCall → Prop
  | .save v userId _ _ =>
    v.taken users userId = true →
      before.countP CredCall.draws < maxInteger ∧
        (userId = none → recorded users before (v.datastoreId, none) = none)
  | _ => True

/-! ## The tables against the map -/

/-- The row holds what was saved. -/
def Reads (r : DatastoreCredentials) (v : Saved) : Prop :=
  (credentialDict cipher r).map (·.toSaved) = .ok v

theorem reads_row (v : Saved) (userId : Option Uuid) (now : Int) (salt id : Nat) :
    Reads cipher ((v.values cipher salt).row userId now id) v := by
  simp [Reads, credentialDict, CredentialValues.row, Saved.values, cipher.roundTrip, Except.map]

theorem reads_set (v : Saved) (salt : Nat) (r : DatastoreCredentials) (h : r.datastoreId = v.datastoreId) :
    Reads cipher ((v.values cipher salt).set r) v := by
  simp [Reads, credentialDict, CredentialValues.set, Saved.values, cipher.roundTrip, Except.map, h]

structure Inv (users : List Uuid) (before : List CredCall) : Prop where
  same : (credRun cipher users before).users = users
  next : (credRun cipher users before).datastoreCredentials.next = min (before.countP CredCall.draws) maxInteger + 1
  map : Represents credKey (Reads cipher) (credRun cipher users before).datastoreCredentials.rows
    (recorded users before)

theorem Inv.nil (users : List Uuid) : Inv cipher users [] := ⟨rfl, rfl, .empty _ _⟩

/-- What is recorded for a user was saved for one that exists. -/
theorem recorded_user {users : List Uuid} {before : List CredCall} {k : CredKey} {v : Saved}
    (h : recorded users before k = some v) : k.2.all (fun u => users.contains u) = true := by
  induction before with
  | nil => cases h
  | cons c before ih =>
    cases c with
    | get datastoreId userId => exact ih h
    | delete datastoreId userId =>
      simp only [recorded] at h
      split at h
      · by_cases hk : k = (datastoreId, userId)
        · rw [hk, setAt_self] at h
          cases h
        · exact ih (by rwa [setAt_ne _ _ hk] at h)
      · exact ih h
    | save v' userId now salt =>
      simp only [recorded] at h
      split at h
      · rename_i ht
        by_cases hk : k = (v'.datastoreId, userId)
        · rw [hk]
          exact (Bool.and_eq_true _ _ ▸ ht).2
        · exact ih (by rwa [setAt_ne _ _ hk] at h)
      · exact ih h

variable {cipher} {users : List Uuid} {before : List CredCall}

theorem conflict_key {v : CredentialValues} {u : Uuid} {r : DatastoreCredentials} :
    v.conflict (some u) r = true ↔ credKey r = (v.datastoreId, some u) := by
  rw [CredentialValues.conflict_iff, credKey, Prod.mk.injEq]
  constructor
  · intro h
    obtain ⟨-, hu, hd⟩ := h
    exact ⟨hd, hu⟩
  · intro h
    obtain ⟨hd, hu⟩ := h
    exact ⟨rfl, hu, hd⟩

theorem conflict_none {v : CredentialValues} {r : DatastoreCredentials} : v.conflict none r = false := by
  cases h : r.uq <;> simp [CredentialValues.conflict, h]

/-- The ways an upsert goes. -/
inductive Upserts (s : Tables) (v : CredentialValues) (userId : Option Uuid) (now : Int) :
    Except SqlError DatastoreCredentials × Tables → Prop
  | exhausted (hn : maxInteger < s.datastoreCredentials.next) : Upserts s v userId now (.error .sequenceLimit, s)
  | updated (row : DatastoreCredentials) (t : CredentialsTable) (hn : s.datastoreCredentials.next ≤ maxInteger)
      (hu : userId ≠ none) (hr : row ∈ s.datastoreCredentials.rows) (hk : credKey row = (v.datastoreId, userId))
      (ht : t.next = s.datastoreCredentials.next + 1)
      (hrows : t.rows = s.datastoreCredentials.rows.map fun r =>
        if credKey r = (v.datastoreId, userId) then v.set r else r) :
      Upserts s v userId now (.ok (v.set row), { s with datastoreCredentials := t })
  | unknown (t : CredentialsTable) (hn : s.datastoreCredentials.next ≤ maxInteger) (hu : s.userExists userId = false)
      (hfree : userId ≠ none → ∀ r ∈ s.datastoreCredentials.rows, credKey r ≠ (v.datastoreId, userId))
      (ht : t.next = s.datastoreCredentials.next + 1) (hrows : t.rows = s.datastoreCredentials.rows) :
      Upserts s v userId now (.error .integrityError, { s with datastoreCredentials := t })
  | inserted (t : CredentialsTable) (hn : s.datastoreCredentials.next ≤ maxInteger)
      (hu : s.userExists userId = true)
      (hfree : userId ≠ none → ∀ r ∈ s.datastoreCredentials.rows, credKey r ≠ (v.datastoreId, userId))
      (ht : t.next = s.datastoreCredentials.next + 1)
      (hrows : t.rows = s.datastoreCredentials.rows ++ [v.row userId now s.datastoreCredentials.next]) :
      Upserts s v userId now (.ok (v.row userId now s.datastoreCredentials.next),
        { s with datastoreCredentials := t })

theorem conflict_free {v : CredentialValues} {u : Option Uuid} {rows : List DatastoreCredentials}
    (h : ∀ r ∈ rows, v.conflict u r = false) (hu : u ≠ none) : ∀ r ∈ rows, credKey r ≠ (v.datastoreId, u) := by
  intro r hr hk
  obtain ⟨u, rfl⟩ := Option.ne_none_iff_exists'.mp hu
  have hc := h r hr
  rw [conflict_key.mpr hk] at hc
  cases hc

theorem upsert_goes (now : Int) (s : Tables) (v : CredentialValues) (userId : Option Uuid) :
    Upserts s v userId now (DatastoreCredentialsRepository.upsert now s v userId) := by
  simp only [DatastoreCredentialsRepository.upsert]
  by_cases hlim : maxInteger < s.datastoreCredentials.next
  · rw [if_pos hlim]
    exact .exhausted hlim
  rw [if_neg hlim]
  have hn : s.datastoreCredentials.next ≤ maxInteger := by omega
  cases hf : s.datastoreCredentials.rows.find? (v.conflict userId) with
  | some r =>
    have hc := List.find?_some hf
    cases userId with
    | none => rw [conflict_none] at hc; cases hc
    | some u =>
      refine .updated r _ hn (by simp) (List.mem_of_find?_eq_some hf) (conflict_key.mp hc) rfl ?_
      refine List.map_congr_left fun r' _ => ?_
      by_cases hk' : credKey r' = (v.datastoreId, some u)
      · rw [if_pos hk', if_pos (conflict_key.mpr hk')]
      · rw [if_neg hk', if_neg fun hc' => hk' (conflict_key.mp hc')]
  | none =>
    have hfree : ∀ r ∈ s.datastoreCredentials.rows, v.conflict userId r = false := fun r hr => by
      simpa using List.find?_eq_none.mp hf r hr
    dsimp only
    cases hu : s.userExists userId with
    | true =>
      rw [if_pos rfl]
      have hnew := fun r hr => CredentialValues.no_conflict (hfree r hr) now s.datastoreCredentials.next
      exact .inserted _ hn hu (conflict_free hfree) (CredentialsTable.insert_next _ _ _)
        (CredentialsTable.insert_rows _ hnew)
    | false => exact .unknown _ hn hu (conflict_free hfree) rfl rfl

/-- The ways a save goes. -/
inductive SaveGoes (cipher : Cipher) (users : List Uuid) (before : List CredCall) (v : Saved) (userId : Option Uuid)
    (now : Int) (salt : Nat) : Answer × Tables → Prop
  | refused (h : v.bound = false) : SaveGoes cipher users before v userId now salt
      (.raised, credRun cipher users before)
  | exhausted (h : v.bound = true) (hn : maxInteger ≤ before.countP CredCall.draws) :
      SaveGoes cipher users before v userId now salt (.raised, credRun cipher users before)
  | unknown (s' : Tables) (h : v.bound = true) (hn : before.countP CredCall.draws < maxInteger)
      (ht : v.taken users userId = false) (hs : s'.users = users)
      (hnext : s'.datastoreCredentials.next = (credRun cipher users before).datastoreCredentials.next + 1)
      (hrows : s'.datastoreCredentials.rows = (credRun cipher users before).datastoreCredentials.rows) :
      SaveGoes cipher users before v userId now salt (.raised, s')
  | updated (s' : Tables) (ht : v.taken users userId = true) (hn : before.countP CredCall.draws < maxInteger)
      (hu : userId ≠ none) (hm : (recorded users before (v.datastoreId, userId)).isSome = true)
      (hs : s'.users = users)
      (hnext : s'.datastoreCredentials.next = (credRun cipher users before).datastoreCredentials.next + 1)
      (hrows : s'.datastoreCredentials.rows = (credRun cipher users before).datastoreCredentials.rows.map fun r =>
        if credKey r = (v.datastoreId, userId) then (v.values cipher salt).set r else r) :
      SaveGoes cipher users before v userId now salt (.done, s')
  | inserted (s' : Tables) (ht : v.taken users userId = true) (hn : before.countP CredCall.draws < maxInteger)
      (hm : userId ≠ none → recorded users before (v.datastoreId, userId) = none) (hs : s'.users = users)
      (hnext : s'.datastoreCredentials.next = (credRun cipher users before).datastoreCredentials.next + 1)
      (hrows : s'.datastoreCredentials.rows = (credRun cipher users before).datastoreCredentials.rows ++
        [(v.values cipher salt).row userId now (credRun cipher users before).datastoreCredentials.next]) :
      SaveGoes cipher users before v userId now salt (.done, s')

theorem save_goes (h : Inv cipher users before) (v : Saved) (userId : Option Uuid) (now : Int) (salt : Nat) :
    SaveGoes cipher users before v userId now salt
      (credStep cipher (credRun cipher users before) (.save v userId now salt)) := by
  have hnext := h.next
  have hall : (v.values cipher salt).texts.all isText = v.bound := rfl
  simp only [credStep, saveDatastoreCredentials, hall]
  by_cases hb : v.bound = true
  · rw [if_pos hb]
    have hups := upsert_goes now (credRun cipher users before) (v.values cipher salt) userId
    have hex : (credRun cipher users before).userExists userId = userId.all fun u => users.contains u := by
      rw [Tables.userExists, h.same]
    generalize DatastoreCredentialsRepository.upsert now (credRun cipher users before)
      (v.values cipher salt) userId = x at hups
    cases hups with
    | exhausted hlim => exact .exhausted hb (by omega)
    | updated row t hn hu hr hk ht hrows =>
      obtain ⟨v', hv', -⟩ := h.map.sound _ hr
      rw [hk] at hv'
      have htaken : v.taken users userId = true := by
        rw [Saved.taken, hb]
        exact recorded_user hv'
      exact .updated _ htaken (by omega) hu (Option.isSome_iff_exists.mpr ⟨v', hv'⟩) h.same ht hrows
    | unknown t hn hu hfree ht hrows =>
      rw [hex] at hu
      exact .unknown _ hb (by omega) (by rw [Saved.taken, hb, hu]; rfl) h.same ht hrows
    | inserted t hn hu hfree ht hrows =>
      rw [hex] at hu
      refine .inserted _ (by rw [Saved.taken, hb, hu]; rfl) (by omega) ?_ h.same ht hrows
      intro hsome
      cases hm : recorded users before (v.datastoreId, userId) with
      | none => rfl
      | some v' =>
        obtain ⟨r, hr, hk⟩ := h.map.complete _ _ hm
        exact absurd hk (hfree hsome r hr)
  · rw [if_neg hb]
    exact .refused (by simpa using hb)

/-- A second row under a key with one. -/
theorem not_oneRow {s : Tables} {rows : List DatastoreCredentials} {row : DatastoreCredentials}
    (hrows : s.datastoreCredentials.rows = rows ++ [row]) {r : DatastoreCredentials} (hr : r ∈ rows)
    (hk : credKey r = credKey row) : ¬OneRow s := by
  intro h
  rw [OneRow, hrows] at h
  have hd : (rows.map credKey).Nodup ∧ ∀ r ∈ rows, credKey r ≠ credKey row := by
    simpa [UniqueBy, List.nodup_append] using h
  exact hd.2 r hr hk

theorem agrees_iff {c : CredCall} {x : Answer × Tables} (hx : credStep cipher (credRun cipher users before) c = x) :
    Agrees cipher users before c ↔ x.1 = expected users before c ∧ OneRow x.2 := by
  subst hx
  exact Iff.rfl

theorem Inv.cons {c : CredCall} {x : Answer × Tables} (hx : credStep cipher (credRun cipher users before) c = x)
    (same : x.2.users = users)
    (next : x.2.datastoreCredentials.next = min ((c :: before).countP CredCall.draws) maxInteger + 1)
    (map : Represents credKey (Reads cipher) x.2.datastoreCredentials.rows (recorded users (c :: before))) :
    Inv cipher users (c :: before) := by
  subst hx
  exact ⟨same, next, map⟩

/-- One call keeps to the map just when it fits, and a call that fits keeps the tables and the map together. -/
def StepOk (cipher : Cipher) (users : List Uuid) (before : List CredCall) (c : CredCall) : Prop :=
  (Agrees cipher users before c ↔ Fits users before c) ∧ (Fits users before c → Inv cipher users (c :: before))

theorem save_step (h : Inv cipher users before) (v : Saved) (userId : Option Uuid) (now : Int) (salt : Nat) :
    StepOk cipher users before (.save v userId now salt) := by
  have hgoes := save_goes h v userId now salt
  have hnext := h.next
  have hcount : (CredCall.save v userId now salt :: before).countP CredCall.draws =
      before.countP CredCall.draws + if v.bound then 1 else 0 := List.countP_cons
  have hexp : expected users before (.save v userId now salt) = if v.taken users userId then .done else .raised := rfl
  have hrec : recorded users (.save v userId now salt :: before) =
      if v.taken users userId then setAt (recorded users before) (v.datastoreId, userId) (some v)
      else recorded users before := rfl
  have hbound : v.taken users userId = true → v.bound = true := fun ht => (Bool.and_eq_true _ _ ▸ ht).1
  generalize hx : credStep cipher (credRun cipher users before) (.save v userId now salt) = x at hgoes
  rw [StepOk, agrees_iff hx, hexp]
  cases hgoes with
  | refused hb =>
    have ht : ¬v.taken users userId = true := fun ht => by simp [hbound ht] at hb
    rw [if_neg ht] at hrec ⊢
    refine ⟨iff_of_true ⟨rfl, h.map.one⟩ fun ht' => absurd ht' ht, fun _ => .cons hx h.same ?_ ?_⟩
    · rw [hcount, hb]
      exact hnext
    · rw [hrec]
      exact h.map
  | exhausted hb hn =>
    by_cases ht : v.taken users userId = true
    · have hnot : ¬Fits users before (.save v userId now salt) := fun hf => absurd (hf ht).1 (by omega)
      rw [if_pos ht]
      exact ⟨iff_of_false (fun ha => by cases ha.1) hnot, fun hf => absurd hf hnot⟩
    · rw [if_neg ht] at hrec ⊢
      refine ⟨iff_of_true ⟨rfl, h.map.one⟩ fun ht' => absurd ht' ht, fun _ => .cons hx h.same ?_ ?_⟩
      · rw [hcount, hb]
        simp only [if_true]
        omega
      · rw [hrec]
        exact h.map
  | unknown s' hb hn htf hs hnext' hrows =>
    have ht : ¬v.taken users userId = true := by simp [htf]
    rw [if_neg ht] at hrec ⊢
    have hmap := h.map
    rw [← hrows] at hmap
    refine ⟨iff_of_true ⟨rfl, hmap.one⟩ fun ht' => absurd ht' ht, fun _ => .cons hx hs ?_ ?_⟩
    · rw [hcount, hb, hnext', hnext]
      simp only [if_true]
      omega
    · rw [hrec]
      exact hmap
  | updated s' ht hn hu hm hs hnext' hrows =>
    rw [if_pos ht] at hrec ⊢
    have hmap :=
      h.map.update (k := (v.datastoreId, userId)) (v := v) (f := (v.values cipher salt).set) hm (fun _ => rfl)
      fun r hr => reads_set cipher v salt r (congrArg Prod.fst hr)
    rw [← hrows] at hmap
    refine ⟨iff_of_true ⟨rfl, hmap.one⟩ fun _ => ⟨hn, fun he => absurd he hu⟩, fun _ => .cons hx hs ?_ ?_⟩
    · rw [hcount, hbound ht, hnext', hnext]
      simp only [if_true]
      omega
    · rw [hrec]
      exact hmap
  | inserted s' ht hn hm hs hnext' hrows =>
    rw [if_pos ht] at hrec ⊢
    let row := (v.values cipher salt).row userId now (credRun cipher users before).datastoreCredentials.next
    cases hk : recorded users before (v.datastoreId, userId) with
    | none =>
      have hmap := h.map.insert row (v := v) hk (reads_row cipher v userId now salt _)
      rw [← hrows] at hmap
      have hfits : Fits users before (.save v userId now salt) := fun _ => ⟨hn, fun he => he ▸ hk⟩
      refine ⟨iff_of_true ⟨rfl, hmap.one⟩ hfits, fun _ => .cons hx hs ?_ ?_⟩
      · rw [hcount, hbound ht, hnext', hnext]
        simp only [if_true]
        omega
      · rw [hrec]
        exact hmap
    | some v' =>
      -- Only for no user does the INSERT meet a row of its key: the second one.
      have hnone : userId = none := by
        cases userId with
        | none => rfl
        | some u => rw [hm nofun] at hk; cases hk
      subst hnone
      obtain ⟨r, hr, hrk⟩ := h.map.complete _ _ hk
      have hnot : ¬Fits users before (.save v none now salt) := fun hf => by
        rw [(hf ht).2 rfl] at hk
        cases hk
      exact ⟨iff_of_false (fun ha => not_oneRow hrows hr hrk ha.2) hnot, fun hf => absurd hf hnot⟩

theorem mine_key (datastoreId : String) (userId : Option Uuid) :
    (fun r : DatastoreCredentials => r.datastoreId == datastoreId && ownedBy userId r.userId) =
      fun r => decide (credKey r = (datastoreId, userId)) := by
  funext r
  rw [ownedBy_eq, Bool.eq_iff_iff, Bool.and_eq_true, beq_iff_eq, beq_iff_eq, decide_eq_true_iff, credKey,
    Prod.mk.injEq]

theorem get_step (h : Inv cipher users before) (datastoreId : String) (userId : Option Uuid) :
    StepOk cipher users before (.get datastoreId userId) := by
  have hinv : Inv cipher users (.get datastoreId userId :: before) := ⟨h.same, h.next, h.map⟩
  refine ⟨iff_of_true ⟨?_, h.map.one⟩ trivial, fun _ => hinv⟩
  simp only [credStep, expected, getDatastoreCredentials]
  by_cases ht : isText datastoreId = true
  · rw [if_pos ht, if_pos ht, DatastoreCredentialsRepository.getForDatastoreUser, mine_key, Table.select]
    cases hm : recorded users before (datastoreId, userId) with
    | none =>
      rw [h.map.lookup_none hm]
      rfl
    | some v =>
      obtain ⟨r, hr, -, -, hreads⟩ := h.map.lookup_some hm
      rw [hr]
      simp only [scalarOneOrNone]
      rw [Reads] at hreads
      cases hd : credentialDict cipher r with
      | error e => rw [hd] at hreads; cases hreads
      | ok dict =>
        rw [hd] at hreads
        have hv : dict.toSaved = v := Except.ok.inj hreads
        subst hv
        rfl
  · rw [if_neg ht, if_neg ht]
    rfl

theorem delete_step (h : Inv cipher users before) (datastoreId : String) (userId : Option Uuid) :
    StepOk cipher users before (.delete datastoreId userId) := by
  by_cases ht : isText datastoreId = true
  · have hmap := h.map.delete (datastoreId, userId)
    have hrows : (credRun cipher users (.delete datastoreId userId :: before)).datastoreCredentials.rows =
        (credRun cipher users before).datastoreCredentials.rows.filter
        fun r => !decide (credKey r = (datastoreId, userId)) := by
      simp only [credRun, credStep, deleteDatastoreCredentials, if_pos ht]
      exact List.filter_congr fun r _ => congrArg (!·) (congrFun (mine_key datastoreId userId) r)
    have hsame : (credRun cipher users (.delete datastoreId userId :: before)).users = users := by
      simp only [credRun, credStep, deleteDatastoreCredentials, if_pos ht]
      exact h.same
    have hnext : (credRun cipher users (.delete datastoreId userId :: before)).datastoreCredentials.next =
        min (before.countP CredCall.draws) maxInteger + 1 := by
      simp only [credRun, credStep, deleteDatastoreCredentials, if_pos ht]
      exact h.next
    have hrec : recorded users (.delete datastoreId userId :: before) =
        setAt (recorded users before) (datastoreId, userId) none := if_pos ht
    rw [← hrows] at hmap
    refine ⟨iff_of_true ⟨?_, hmap.one⟩ trivial, fun _ => ⟨hsame, hnext, hrec ▸ hmap⟩⟩
    simp only [credStep, deleteDatastoreCredentials, expected, if_pos ht]
    rfl
  · have hrun : credRun cipher users (.delete datastoreId userId :: before) = credRun cipher users before := by
      simp only [credRun, credStep, deleteDatastoreCredentials, if_neg ht]
      rfl
    have hrec : recorded users (.delete datastoreId userId :: before) = recorded users before := if_neg ht
    refine ⟨iff_of_true ⟨?_, hrun ▸ h.map.one⟩ trivial, fun _ => ⟨hrun ▸ h.same, hrun ▸ h.next, ?_⟩⟩
    · simp only [credStep, deleteDatastoreCredentials, expected, if_neg ht]
      rfl
    · rw [hrun, hrec]
      exact h.map

theorem step_ok (h : Inv cipher users before) (c : CredCall) : StepOk cipher users before c := by
  cases c with
  | save v userId now salt => exact save_step h v userId now salt
  | get datastoreId userId => exact get_step h datastoreId userId
  | delete datastoreId userId => exact delete_step h datastoreId userId

theorem inv_of_fits {calls : List CredCall} (h : ∀ c before, (c :: before) <:+ calls → Fits users before c) :
    Inv cipher users calls := by
  induction calls with
  | nil => exact .nil cipher users
  | cons c before ih =>
    have hinv := ih fun c' before' hs => h c' before' (hs.trans (List.suffix_cons c before))
    exact (step_ok hinv c).2 (h c before (List.suffix_refl _))

/-- Saves, reads and deletes in any order behave as a map if and only if each save fits: it is not one for no user on
top of another, and the sequence has a value for it. -/
theorem behaves_as_map (cipher : Cipher) (users : List Uuid) (calls : List CredCall) :
    BehavesAsMap cipher users calls ↔ ∀ c before, (c :: before) <:+ calls → Fits users before c := by
  induction calls with
  | nil =>
    exact iff_of_true (fun _ _ h => absurd (List.suffix_nil.mp h) nofun)
      fun _ _ h => absurd (List.suffix_nil.mp h) nofun
  | cons c calls ih =>
    constructor
    · intro h
      have hfits := ih.mp fun c' before' hs => h c' before' (hs.trans (List.suffix_cons c calls))
      have hc := ((step_ok (inv_of_fits hfits) c).1).mp (h c calls (List.suffix_refl _))
      intro c' before' hs
      rcases List.suffix_cons_iff.mp hs with he | hs
      · cases he
        exact hc
      · exact hfits c' before' hs
    · intro h c' before' hs
      have hfits : ∀ c'' before'', (c'' :: before'') <:+ before' → Fits users before'' c'' := fun c'' before'' hs' =>
        h c'' before'' (hs'.trans ((List.suffix_cons c' before').trans hs))
      exact ((step_ok (inv_of_fits hfits) c').1).mpr (h c' before' hs)

/-! ## Two saves for no user -/

def putText : List Char → Bytes
  | [] => [0]
  | c :: cs => 1 :: UInt8.ofNat c.toNat :: UInt8.ofNat (c.toNat / 256) :: UInt8.ofNat (c.toNat / 65536) :: putText cs

def takeText : Bytes → Option (List Char × Bytes)
  | 0 :: rest => some ([], rest)
  | 1 :: a :: b :: c :: rest =>
    (takeText rest).map fun x => (Char.ofNat (a.toNat + 256 * b.toNat + 65536 * c.toNat) :: x.1, x.2)
  | _ => none

theorem takeText_putText (cs : List Char) (rest : Bytes) : takeText (putText cs ++ rest) = some (cs, rest) := by
  induction cs with
  | nil => rfl
  | cons c cs ih =>
    have hc : c.toNat % 256 + 256 * (c.toNat / 256 % 256) + 65536 * (c.toNat / 65536 % 256) = c.toNat := by
      have hlt : c.toNat < 1114112 := by
        rcases c.valid with h | h
        · exact Nat.lt_trans h (by decide)
        · exact h.2
      omega
    simp [putText, takeText, ih, hc, Char.ofNat_toNat]

/-- The two texts in the clear, a cipher of a kind. -/
def clear : Cipher where
  encryptCreds _ accessKey secretKey := putText accessKey.toList ++ putText secretKey.toList
  decryptCreds ciphertext :=
    (takeText ciphertext).bind fun x => (takeText x.2).map fun y => (String.ofList x.1, String.ofList y.1)
  roundTrip salt accessKey secretKey := by
    have h := takeText_putText secretKey.toList []
    rw [List.append_nil] at h
    simp [takeText_putText, h]
  encryptSecret _ secretKey := putText secretKey.toList
  decryptSecret ciphertext := (takeText ciphertext).map fun x => String.ofList x.1
  secretRoundTrip salt secretKey := by
    have h := takeText_putText secretKey.toList []
    rw [List.append_nil] at h
    simp [h]

def firstSave : Saved := ⟨"ds", "datastore", "fs", "filespace", "bucket", "AKIA1", "one", none, none⟩

/-- The same datastore with other keys. -/
def secondSave : Saved := { firstSave with accessKey := "AKIA2", secretKey := "two" }

/-- Saved for no user and saved again: two rows, and the read raises. -/
theorem second_save_without_user :
    ¬BehavesAsMap clear [] [.get "ds" none, .save secondSave none 1 0, .save firstSave none 0 0] ∧
      (credStep clear (credRun clear [] [.save secondSave none 1 0, .save firstSave none 0 0])
        (.get "ds" none)).1 = .raised := by
  refine ⟨fun h => ?_, ?_⟩
  · have hget := (h (.get "ds" none) _ (List.suffix_refl _)).1
    revert hget
    decide
  · decide

end Connect.Data
