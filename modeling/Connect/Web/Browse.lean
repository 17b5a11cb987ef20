/-
  Connect.Web.Browse — what a browse reaches, against the credentials stored at that
  moment, over every order in which any number of processes serve the requests.

  A session is `Cache.ReadOnce`'s cache twice over: of the entries, and of the S3 clients,
  which hydrating makes only from keys that are not empty. So a browse goes by what its
  process last learned of the datastore (`browses_agree_iff`): a save or a delete served
  elsewhere after the session was hydrated never reaches it (`stale_after_delete`), and
  a user whose changes are all served by one process is always right there
  (`upToDate_of_own`).
-/

import Connect.Web.Session
import Connect.Cache.ReadOnce

namespace Connect.Web

open Data Sql Cache

/-! ## What a run does to the credentials of a user -/

/-- The arguments of the client a save makes. -/
def client (v : Saved) : ClientKwargs :=
  clientKwargs v.accessKey v.secretKey ((truthy v.region).getD "us-east-1") v.endpoint

def hasKeys (v : Saved) : Bool := v.accessKey != "" && v.secretKey != ""

variable {cipher : Cipher} (boto3Client : ClientKwargs → Bool) (savedToken : Nat → Uuid → Option String)

/-- A save is kept: the bucket is reachable with it, and the INSERT goes through. -/
def goesThrough (s : Tables) (u : Uuid) (v : Saved) (reachable : Bool) : Bool :=
  boto3Client (client v) && reachable &&
    (v.taken s.users (some u) && decide (s.datastoreCredentials.next ≤ maxInteger))

/-- What a request does to the credentials of its user and to the session there, the newest first. -/
def effects (s : Tables) (r : Served) : List (Event Nat String Saved) :=
  match r.request with
  | .save v reachable _ _ =>
    if goesThrough boto3Client s r.userId v reachable then [⟨r.process, .put v.datastoreId v⟩] else []
  | .delete datastoreId => if isText datastoreId then [⟨r.process, .read⟩, ⟨r.process, .drop datastoreId⟩] else []
  | .browse _ _ => [⟨r.process, .read⟩]

def events (start : Start cipher) (u : Uuid) : List Served → List (Event Nat String Saved)
  | [] => []
  | r :: before =>
    (if r.userId = u then effects boto3Client (run boto3Client savedToken start before).tables r else []) ++
      events start u before

/-! ## The statement -/

/-- The bucket and the client that S3 was reached with. -/
def Page.reached : Page → Option (String × ClientKwargs)
  | .listed service bucket _ => some (bucket, service.client)
  | _ => none

/-- S3 was reached exactly when there is a row, and with what is in it. -/
def Agrees (cipher : Cipher) (s : Tables) (u : Uuid) (datastoreId : String) (page : Page) : Prop :=
  (page.reached.isSome = true ↔ ∃ r ∈ s.datastoreCredentials.rows, credKey r = (datastoreId, some u)) ∧
    ∀ r ∈ s.datastoreCredentials.rows, credKey r = (datastoreId, some u) →
      ∃ dict, credentialDict cipher r = .ok dict ∧ page.reached = some (dict.bucketName, client dict.toSaved)

/-- Every browse of a run agrees with the tables at that moment. -/
def BrowsesAgree (start : Start cipher) (requests : List Served) : Prop :=
  ∀ p u datastoreId keyPrefix before, (⟨p, u, .browse datastoreId keyPrefix⟩ :: before) <:+ requests →
    let w := run boto3Client savedToken start before
    Agrees cipher w.tables u datastoreId
      (serve cipher boto3Client savedToken w ⟨p, u, .browse datastoreId keyPrefix⟩).1

/-- What a session offers: the bucket of its entry and the client of its service. -/
def offered : Option Saved → Option Saved → Option (String × ClientKwargs)
  | some entry, some service => some (entry.bucketName, client service)
  | _, _ => none

/-- What the process has learned of the datastore when it browses is what is stored. -/
def UpToDate (start : Start cipher) (before : List Served) (p : Nat) (u : Uuid) (datastoreId : String) : Prop :=
  let h := ⟨p, .read⟩ :: events boto3Client savedToken start u before
  offered (learned (fun _ => true) p datastoreId h) (learned hasKeys p datastoreId h) =
    (stored datastoreId h).map fun v => (v.bucketName, client v)

/-! ## Sessions -/

/-- A session holds what its process has learned. -/
structure Holds (st : UserSession) (p : Nat) (h : List (Event Nat String Saved)) : Prop where
  hydrated : st.hydrated = filled p h
  entries : ∀ d, st.datastoreCredentials d = (learned (fun _ => true) p d h).map cached
  services : ∀ d, (st.s3Services d).map S3Service.client = (learned hasKeys p d h).map client

theorem holds_new (token : String) (p : Nat) :
    Holds { token, apiHost := "", datastoreCredentials := fun _ => none, s3Services := fun _ => none,
            hydrated := false } p [] :=
  ⟨rfl, fun _ => rfl, fun _ => rfl⟩

variable {boto3Client} {savedToken} {p : Nat} {h : List (Event Nat String Saved)} {st : UserSession}

theorem filled_others {later : List (Event Nat String Saved)} (hl : ∀ e ∈ later, e.proc ≠ p) :
    filled p (later ++ h) = filled p h := by
  have hnone : later.any (fun e => decide (e.proc = p) && e.op.isRead) = false := by
    refine List.any_eq_false.mpr fun e he => ?_
    simp [hl e he]
  rw [filled, List.any_append, hnone, Bool.false_or, filled]

theorem Holds.others {later : List (Event Nat String Saved)} (hst : Holds st p h) (hl : ∀ e ∈ later, e.proc ≠ p) :
    Holds st p (later ++ h) where
  hydrated := by rw [filled_others hl, hst.hydrated]
  entries := fun d => by rw [learned_others hl, hst.entries]
  services := fun d => by rw [learned_others hl, hst.services]

theorem Holds.put (hst : Holds st p h) (v : Saved) {service : S3Service} (hc : service.client = client v) :
    Holds { st with
      datastoreCredentials := setAt st.datastoreCredentials v.datastoreId (some (cached v))
      s3Services := setAt st.s3Services v.datastoreId (some service) } p (⟨p, .put v.datastoreId v⟩ :: h) where
  hydrated := by simpa [filled, Op.isRead] using hst.hydrated
  entries := by
    intro d
    by_cases hd : d = v.datastoreId
    · simp [learned, hd]
    · simp [learned, setAt_ne _ _ hd, Ne.symm hd, hst.entries]
  services := by
    intro d
    by_cases hd : d = v.datastoreId
    · simp [learned, hd, hc]
    · simp [learned, setAt_ne _ _ hd, Ne.symm hd, hst.services]

/-- What a delete does to the session of its process: only a row that was there makes it forget. -/
theorem Holds.drop (hst : Holds st p h) (datastoreId : String) (deleted : Bool)
    (hd : deleted = (stored datastoreId h).isSome) :
    Holds (if deleted then
        { st with
          datastoreCredentials := setAt st.datastoreCredentials datastoreId none
          s3Services := setAt st.s3Services datastoreId none }
      else st) p (⟨p, .drop datastoreId⟩ :: h) := by
  cases hs : (stored datastoreId h).isSome with
  | false =>
    rw [hd, hs]
    have hkeep : ∀ usable d, learned usable p d (⟨p, .drop datastoreId⟩ :: h) = learned usable p d h := by
      intro usable d
      have hne : ¬(datastoreId = d ∧ (stored d h).isSome = true) := by
        intro h
        obtain ⟨rfl, he⟩ := h
        rw [hs] at he
        cases he
      simp only [learned, if_true, if_neg hne]
    exact ⟨by simpa [filled, Op.isRead] using hst.hydrated, fun d => by rw [hkeep]; exact hst.entries d,
      fun d => by rw [hkeep]; exact hst.services d⟩
  | true =>
    rw [hd, hs]
    refine ⟨by simpa [filled, Op.isRead] using hst.hydrated, fun d => ?_, fun d => ?_⟩
    · by_cases he : d = datastoreId
      · simp [learned, he, hs]
      · simp [learned, setAt_ne _ _ he, Ne.symm he, hst.entries]
    · by_cases he : d = datastoreId
      · simp [learned, he, hs]
      · simp [learned, setAt_ne _ _ he, Ne.symm he, hst.services]

/-! ## Hydrating -/

variable {s : Tables} {u : Uuid}

/-- `user_id` and `key` are the primary key of a setting, so one row at most. -/
theorem getUserSetting_ok (s : Tables) (u : Uuid) (key : String) :
    ∃ found, getUserSetting s u key = .ok found ∧
      ∀ value, found = some value → ∃ r ∈ s.userSettings.rows, r.key = key ∧ r.value = value := by
  have hmine : UserSettingsRepository.mine (some u) key = fun r => decide (r.pk = (u, key)) := by
    funext r
    simp [UserSettingsRepository.mine, ownedBy, UserSetting.pk, Bool.decide_and, Bool.beq_eq_decide_eq]
  simp only [getUserSetting, UserSettingsRepository.get, hmine, Table.select]
  by_cases hr : ∃ r ∈ s.userSettings.rows, r.pk = (u, key)
  · obtain ⟨r, hr, hk⟩ := hr
    rw [s.userSettings.primary.filter_eq hr hk]
    refine ⟨some r.value, rfl, fun value hv => ⟨r, hr, congrArg Prod.snd hk, Option.some.inj hv⟩⟩
  · have hnone : s.userSettings.rows.filter (fun r => decide (r.pk = (u, key))) = [] :=
      List.filter_eq_nil_iff.mpr fun r hin he => hr ⟨r, hin, of_decide_eq_true he⟩
    rw [hnone]
    exact ⟨none, rfl, fun _ hv => by cases hv⟩

theorem loadLlToken_ok (start : Start cipher) (hs : s.userSettings = start.settings) (u : Uuid) :
    ∃ found, loadLlToken cipher s u = .ok found := by
  obtain ⟨found, hget, hrow⟩ := getUserSetting_ok s u "ll_token_enc"
  unfold loadLlToken
  rw [hget]
  cases ht : truthy found with
  | none => exact ⟨none, by simp only [ht]⟩
  | some text =>
    have hfound : found = some text ∧ text ≠ "" := by
      simpa [truthy, Option.filter_eq_some_iff] using ht
    obtain ⟨r, hr, hkey, hvalue⟩ := hrow text hfound.1
    rw [hs] at hr
    obtain ⟨token, htoken⟩ := start.tokens r hr hkey (by rw [hvalue]; exact hfound.2)
    refine ⟨some token, ?_⟩
    simp only [ht]
    rw [← hvalue, htoken]
    rfl

theorem mapM_ok {α β ε : Type} {f : α → Except ε β} {xs : List α} (hf : ∀ x ∈ xs, ∃ y, f x = .ok y) :
    ∃ ys, xs.mapM f = .ok ys ∧ (∀ y ∈ ys, ∃ x ∈ xs, f x = .ok y) ∧ ∀ x ∈ xs, ∃ y ∈ ys, f x = .ok y := by
  induction xs with
  | nil => exact ⟨[], rfl, nofun, nofun⟩
  | cons x xs ih =>
    obtain ⟨y, hy⟩ := hf x List.mem_cons_self
    obtain ⟨ys, hys, hback, hforth⟩ := ih fun x' hx' => hf x' (List.mem_cons_of_mem _ hx')
    refine ⟨y :: ys, by rw [List.mapM_cons, hy, hys]; rfl, ?_, ?_⟩
    · intro y' hy'
      rcases List.mem_cons.mp hy' with rfl | hy'
      · exact ⟨x, List.mem_cons_self, hy⟩
      · obtain ⟨x', hx', he⟩ := hback y' hy'
        exact ⟨x', List.mem_cons_of_mem _ hx', he⟩
    · intro x' hx'
      rcases List.mem_cons.mp hx' with rfl | hx'
      · exact ⟨y, List.mem_cons_self, hy⟩
      · obtain ⟨y', hy', he⟩ := hforth x' hx'
        exact ⟨y', List.mem_cons_of_mem _ hy', he⟩

/-- The tables hold `m` of the user, and a client can be made of each. -/
structure Stores (cipher : Cipher) (boto3Client : ClientKwargs → Bool) (s : Tables) (u : Uuid)
    (m : String → Option Saved) :
    Prop where
  rows : ∀ r ∈ s.datastoreCredentials.rows, r.userId = some u → ∃ v, m r.datastoreId = some v ∧ Reads cipher r v
  complete : ∀ d v, m d = some v → ∃ r ∈ s.datastoreCredentials.rows, credKey r = (d, some u)
  clients : ∀ d v, m d = some v → boto3Client (client v) = true

theorem credentialDict_of_reads {r : DatastoreCredentials} {v : Saved} (h : Reads cipher r v) :
    ∃ dict, credentialDict cipher r = .ok dict ∧ dict.toSaved = v ∧ dict.datastoreId = r.datastoreId := by
  unfold Reads at h
  cases hd : credentialDict cipher r with
  | error e => rw [hd] at h; cases h
  | ok dict =>
    rw [hd] at h
    refine ⟨dict, rfl, Except.ok.inj h, ?_⟩
    unfold credentialDict at hd
    split at hd
    · cases hd
    · rw [← Except.ok.inj hd]

theorem listAll_ok {m : String → Option Saved} (h : Stores cipher boto3Client s u m) :
    ∃ rows, listAllDatastoreCredentials cipher s u = .ok rows ∧
      (∀ row ∈ rows, m row.datastoreId = some row.toSaved) ∧
      ∀ d v, m d = some v → ∃ row ∈ rows, row.datastoreId = d := by
  have hmem : ∀ r, r ∈ DatastoreCredentialsRepository.listForUser s (some u) ↔
      r ∈ s.datastoreCredentials.rows ∧ r.userId = some u := by
    intro r
    simp [DatastoreCredentialsRepository.listForUser, Table.select]
  have hread : ∀ r ∈ DatastoreCredentialsRepository.listForUser s (some u), ∃ dict,
      credentialDict cipher r = .ok dict ∧ m dict.datastoreId = some dict.toSaved ∧
      dict.datastoreId = r.datastoreId := by
    intro r hr
    obtain ⟨hin, hu⟩ := (hmem r).mp hr
    obtain ⟨v, hm, hv⟩ := h.rows r hin hu
    obtain ⟨dict, hd, rfl, hid⟩ := credentialDict_of_reads hv
    exact ⟨dict, hd, by rw [hid]; exact hm, hid⟩
  obtain ⟨rows, hrows, hback, hforth⟩ := mapM_ok fun r hr => (hread r hr).imp fun _ hd => hd.1
  refine ⟨rows, by rw [listAllDatastoreCredentials, hrows]; rfl, ?_, ?_⟩
  · intro row hrow
    obtain ⟨r, hr, hd⟩ := hback row hrow
    obtain ⟨dict, hd', hm, -⟩ := hread r hr
    rw [hd] at hd'
    cases hd'
    exact hm
  · intro d v hv
    obtain ⟨r, hr, hk⟩ := h.complete d v hv
    have hsel := (hmem r).mpr ⟨hr, congrArg Prod.snd hk⟩
    obtain ⟨row, hrow, hd⟩ := hforth r hsel
    obtain ⟨dict, hd', -, hid⟩ := hread r hsel
    rw [hd] at hd'
    cases hd'
    exact ⟨row, hrow, hid.trans (congrArg Prod.fst hk)⟩

theorem initS3Service_ok (row : CredentialDict) (hb : boto3Client (client row.toSaved) = true) (st : UserSession) :
    ∃ st', initS3ServiceFromKeys boto3Client st row = .ok st' ∧ st'.datastoreCredentials = st.datastoreCredentials ∧
      ∀ d, (st'.s3Services d).map S3Service.client =
        if d = row.datastoreId ∧ hasKeys row.toSaved = true then some (client row.toSaved)
        else (st.s3Services d).map S3Service.client := by
  unfold initS3ServiceFromKeys
  by_cases hempty : row.accessKey = "" ∨ row.secretKey = ""
  · have hno : ¬hasKeys row.toSaved = true := by
      simp only [hasKeys, Bool.and_eq_true, bne_iff_ne]
      intro hkeys
      exact hempty.elim hkeys.1 hkeys.2
    rw [if_pos hempty]
    exact ⟨st, rfl, rfl, fun d => (if_neg fun hd => hno hd.2).symm⟩
  · have hyes : hasKeys row.toSaved = true := by
      simp only [hasKeys, Bool.and_eq_true, bne_iff_ne]
      exact not_or.mp hempty
    have hinit : S3Service.init boto3Client row.accessKey row.secretKey
        ((truthy row.region).getD "us-east-1") row.endpoint =
          some ⟨client row.toSaved⟩ := if_pos hb
    rw [if_neg hempty, hinit]
    refine ⟨_, rfl, rfl, fun d => ?_⟩
    by_cases hd : d = row.datastoreId
    · simp [hd, hyes]
    · simp [hd, setAt_ne _ _ hd]

/-- What some rows are worth to a session. -/
def among (rows : List CredentialDict) (m : String → Option Saved) (d : String) : Option Saved :=
  if rows.any (·.datastoreId = d) then m d else none

theorem among_cons_ne {rows : List CredentialDict} {row : CredentialDict} {m : String → Option Saved} {d : String}
    (hd : d ≠ row.datastoreId) : among (row :: rows) m d = among rows m d := by
  simp [among, Ne.symm hd]

theorem takeRows_ok {m : String → Option Saved} {rows : List CredentialDict}
    (hm : ∀ row ∈ rows, m row.datastoreId = some row.toSaved)
    (hb : ∀ d v, m d = some v → boto3Client (client v) = true) (st : UserSession) :
    ∃ st', takeRows boto3Client rows st = (.ok (), st') ∧
      (∀ d, st'.datastoreCredentials d = ((among rows m d).map cached).or (st.datastoreCredentials d)) ∧
      ∀ d, (st'.s3Services d).map S3Service.client =
        (((among rows m d).filter hasKeys).map client).or ((st.s3Services d).map S3Service.client) := by
  induction rows generalizing st with
  | nil => exact ⟨st, rfl, fun _ => rfl, fun _ => rfl⟩
  | cons row rows ih =>
    have hrow := hm row List.mem_cons_self
    have hhere : among (row :: rows) m row.datastoreId = some row.toSaved := by simp [among, hrow]
    -- A later row of the same datastore would hold the same.
    have hthere : among rows m row.datastoreId = some row.toSaved ∨ among rows m row.datastoreId = none := by
      unfold among
      split
      · exact .inl hrow
      · exact .inr rfl
    let st₁ := { st with
      datastoreCredentials := setAt st.datastoreCredentials row.datastoreId (some (cached row.toSaved)) }
    obtain ⟨st₂, hinit, hentries, hservices⟩ := initS3Service_ok row (hb _ _ hrow) st₁
    obtain ⟨st', htake, hentries', hservices'⟩ := ih (fun r hr => hm r (List.mem_cons_of_mem _ hr)) st₂
    refine ⟨st', ?_, fun d => ?_, fun d => ?_⟩
    · simp only [st₁] at hinit
      simp only [takeRows, hinit, htake]
    · rw [hentries' d, hentries]
      by_cases hd : d = row.datastoreId
      · subst hd
        rw [hhere]
        rcases hthere with ht | ht <;> simp [ht, st₁]
      · rw [among_cons_ne hd]
        simp [st₁, setAt_ne _ _ hd]
    · rw [hservices' d, hservices d]
      by_cases hd : d = row.datastoreId
      · subst hd
        rw [hhere]
        rcases hthere with ht | ht <;> by_cases hk : hasKeys row.toSaved = true <;> simp [ht, hk, st₁, Option.filter]
      · rw [among_cons_ne hd]
        simp [st₁, hd]

/-- A session that is hydrated against what is stored has then learned it. -/
theorem hydrate_ok (start : Start cipher) (hset : s.userSettings = start.settings)
    (hs : Stores cipher boto3Client s u fun d => stored d h) (hst : Holds st p h) :
    ∃ st', st.hydrate cipher boto3Client s u = (.ok (), st') ∧ Holds st' p (⟨p, .read⟩ :: h) := by
  have hfill : filled p (⟨p, .read⟩ :: h) = true := by simp [filled, Op.isRead]
  unfold UserSession.hydrate
  cases hf : filled p h with
  | true =>
    have hkeep : ∀ usable d, learned usable p d (⟨p, .read⟩ :: h) = learned usable p d h := by
      intro usable d
      simp only [learned, if_true, hf]
    rw [if_pos (hst.hydrated.trans hf)]
    exact ⟨st, rfl, by rw [hst.hydrated, hf, hfill], fun d => by rw [hkeep]; exact hst.entries d,
      fun d => by rw [hkeep]; exact hst.services d⟩
  | false =>
    have hnot : ¬st.hydrated = true := by simp [hst.hydrated, hf]
    have hlearn : ∀ usable d, learned usable p d (⟨p, .read⟩ :: h) =
        ((stored d h).filter usable).or (learned usable p d h) := by
      intro usable d
      simp only [learned, if_true, hf, Bool.false_eq_true, if_false]
    obtain ⟨apiHost, hapi, -⟩ := getUserSetting_ok s u "api_host"
    obtain ⟨rows, hrows, hm, hall⟩ := listAll_ok hs
    have hamong : ∀ d, among rows (fun d => stored d h) d = stored d h := by
      intro d
      unfold among
      split
      · rfl
      · rename_i hany
        cases hd : stored d h with
        | none => rfl
        | some v =>
          obtain ⟨row, hrow, hid⟩ := hall d v hd
          exact absurd (List.any_eq_true.mpr ⟨row, hrow, by simp [hid]⟩) hany
    obtain ⟨token, htoken⟩ : ∃ token, (if st.token = "" then loadLlToken cipher s u else .ok none) = .ok token := by
      split
      · exact loadLlToken_ok start hset u
      · exact ⟨none, rfl⟩
    rw [if_neg hnot, hapi]
    simp only [htoken, hrows]
    obtain ⟨st', htake, hentries, hservices⟩ := takeRows_ok hm hs.clients
      { st with apiHost := (truthy apiHost).getD st.apiHost, token := (truthy token).getD st.token }
    rw [htake]
    refine ⟨_, rfl, hfill.symm, fun d => ?_, fun d => ?_⟩
    · have htrue : (stored d h).filter (fun _ => true) = stored d h := by cases stored d h <;> rfl
      simp only [hentries d, hamong, hlearn, hst.entries, Option.map_or, htrue]
    · simp only [hservices d, hamong, hlearn, hst.services, Option.map_or]

/-! ## The tables -/

abbrev History := Uuid → List (Event Nat String Saved)

/-- The histories of all users as one map. -/
def byUser (g : History) : CredKey → Option Saved := fun k => k.2.bind fun u => stored k.1 (g u)

def extend (g : History) (u : Uuid) (later : List (Event Nat String Saved)) : History :=
  fun u' => (if u = u' then later else []) ++ g u'

variable {g : History}

theorem extend_self (g : History) (u : Uuid) (later : List (Event Nat String Saved)) :
    extend g u later u = later ++ g u := by
  simp [extend]

theorem extend_ne (g : History) {u u' : Uuid} (later : List (Event Nat String Saved)) (hu : u' ≠ u) :
    extend g u later u' = g u' := by
  simp [extend, Ne.symm hu]

/-- A change under one key. -/
theorem byUser_extend (g : History) (u : Uuid) {later : List (Event Nat String Saved)} {d : String} {x : Option Saved}
    (hd : stored d (later ++ g u) = x) (hne : ∀ d', d' ≠ d → stored d' (later ++ g u) = stored d' (g u)) :
    byUser (extend g u later) = setAt (byUser g) (d, some u) x := by
  funext k
  obtain ⟨d', owner⟩ := k
  cases owner with
  | none => simp [byUser, setAt]
  | some u' =>
    by_cases hu : u' = u
    · subst hu
      by_cases hk : d' = d
      · subst hk
        simp [byUser, extend_self, hd]
      · simp [byUser, extend_self, setAt, hk, hne d' hk]
    · simp [byUser, extend_ne g later hu, setAt, hu]

theorem byUser_keep (g : History) (u : Uuid) {later : List (Event Nat String Saved)}
    (h : ∀ d, stored d (later ++ g u) = stored d (g u)) : byUser (extend g u later) = byUser g := by
  funext k
  obtain ⟨d', owner⟩ := k
  cases owner with
  | none => rfl
  | some u' =>
    by_cases hu : u' = u
    · subst hu
      simp [byUser, extend_self, h]
    · simp [byUser, extend_ne g later hu]

/-- Every save that went through was of a user there is and a client that can be made. -/
def Possible (boto3Client : ClientKwargs → Bool) (users : List Uuid) (g : History) : Prop :=
  ∀ u, ∀ e ∈ g u, ∀ d v, e.op = .put d v → users.contains u = true ∧ boto3Client (client v) = true

theorem possible_of_stored {users : List Uuid} (hg : Possible boto3Client users g) {d : String} {v : Saved}
    (h : stored d (g u) = some v) : users.contains u = true ∧ boto3Client (client v) = true := by
  obtain ⟨e, he, hop⟩ := put_of_stored h
  exact hg u e he d v hop

theorem Possible.extend {users : List Uuid} (hg : Possible boto3Client users g) (u : Uuid)
    {later : List (Event Nat String Saved)}
    (hl : ∀ e ∈ later, ∀ d v, e.op = .put d v → users.contains u = true ∧ boto3Client (client v) = true) :
    Possible boto3Client users (extend g u later) := by
  intro u' e he d v hop
  by_cases hu : u' = u
  · subst hu
    rw [extend_self] at he
    rcases List.mem_append.mp he with he | he
    · exact hl e he d v hop
    · exact hg u' e he d v hop
  · rw [extend_ne g later hu] at he
    exact hg u' e he d v hop

theorem stores_of {users : List Uuid} (hg : Possible boto3Client users g)
    (hrep : Represents credKey (Reads cipher) s.datastoreCredentials.rows (byUser g)) (u : Uuid) :
    Stores cipher boto3Client s u fun d => stored d (g u) where
  rows := by
    intro r hr hu
    obtain ⟨v, hm, hv⟩ := hrep.sound r hr
    simp only [byUser, credKey, hu, Option.bind_some] at hm
    exact ⟨v, hm, hv⟩
  complete := fun d v hv => hrep.complete (d, some u) v hv
  clients := fun _ _ hv => (possible_of_stored hg hv).2

/-- A save is kept, or leaves the rows as they were. -/
theorem save_spec {m : CredKey → Option Saved}
    (h : Represents credKey (Reads cipher) s.datastoreCredentials.rows m) (v : Saved)
    (u : Uuid) (now : Int) (salt : Nat) (hu : (m (v.datastoreId, some u)).isSome = true → s.users.contains u = true) :
    ∃ reply t, Data.saveDatastoreCredentials cipher now salt s v (some u) =
      (reply, { s with datastoreCredentials := t }) ∧
        if v.taken s.users (some u) = true ∧ s.datastoreCredentials.next ≤ maxInteger then
          (∃ row, reply = .ok row) ∧ Represents credKey (Reads cipher) t.rows (setAt m (v.datastoreId, some u) (some v))
        else (∃ e, reply = .error e) ∧ t.rows = s.datastoreCredentials.rows := by
  have hall : (v.values cipher salt).texts.all isText = v.bound := rfl
  simp only [Data.saveDatastoreCredentials, hall]
  by_cases hb : v.bound = true
  · have htaken : v.taken s.users (some u) = s.users.contains u := by simp [Saved.taken, hb]
    rw [if_pos hb, htaken]
    have hups := upsert_goes now s (v.values cipher salt) (some u)
    generalize DatastoreCredentialsRepository.upsert now s (v.values cipher salt) (some u) = x at hups
    cases hups with
    | exhausted hlim =>
      refine ⟨_, s.datastoreCredentials, rfl, ?_⟩
      rw [if_neg (by omega)]
      exact ⟨⟨_, rfl⟩, rfl⟩
    | updated row t hn _ hr hk ht hrows =>
      obtain ⟨v', hv', -⟩ := h.sound _ hr
      rw [hk] at hv'
      have hm : (m (v.datastoreId, some u)).isSome = true := Option.isSome_iff_exists.mpr ⟨v', hv'⟩
      refine ⟨_, t, rfl, ?_⟩
      rw [if_pos ⟨hu hm, hn⟩, hrows]
      exact ⟨⟨_, rfl⟩, h.update hm (fun _ => rfl) fun r hr' => reads_set cipher v salt r (congrArg Prod.fst hr')⟩
    | unknown t hn hex hfree ht hrows =>
      refine ⟨_, t, rfl, ?_⟩
      rw [if_neg fun hc => by simp [Tables.userExists] at hex; exact absurd hc.1 (by simp [hex])]
      exact ⟨⟨_, rfl⟩, hrows⟩
    | inserted t hn hex hfree ht hrows =>
      have hm : m (v.datastoreId, some u) = none := by
        cases hm : m (v.datastoreId, some u) with
        | none => rfl
        | some v' =>
          obtain ⟨r, hr, hk⟩ := h.complete _ _ hm
          exact absurd hk (hfree (by simp) r hr)
      refine ⟨_, t, rfl, ?_⟩
      rw [if_pos ⟨by simpa [Tables.userExists] using hex, hn⟩, hrows]
      exact ⟨⟨_, rfl⟩, h.insert _ hm (reads_row cipher v (some u) now salt _)⟩
  · refine ⟨_, s.datastoreCredentials, by rw [if_neg hb], ?_⟩
    rw [if_neg fun hc => hb (Bool.and_eq_true _ _ ▸ hc.1).1]
    exact ⟨⟨_, rfl⟩, rfl⟩

theorem delete_spec {m : CredKey → Option Saved} (h : Represents credKey (Reads cipher) s.datastoreCredentials.rows m)
    {d : String} (hd : isText d = true) (u : Uuid) :
    ∃ t, Data.deleteDatastoreCredentials s d (some u) =
      (.ok (m (d, some u)).isSome, { s with datastoreCredentials := t }) ∧
        Represents credKey (Reads cipher) t.rows (setAt m (d, some u) none) := by
  simp only [Data.deleteDatastoreCredentials, if_pos hd,
    DatastoreCredentialsRepository.deleteForDatastoreUser, mine_key]
  refine ⟨_, congrArg (fun b => (Except.ok b, _)) ?_, h.delete (d, some u)⟩
  rw [Bool.eq_iff_iff, decide_eq_true_iff, Table.count, Table.select]
  cases hm : m (d, some u) with
  | none =>
    rw [h.lookup_none hm]
    simp
  | some v =>
    obtain ⟨r, hr, -⟩ := h.lookup_some hm
    rw [hr]
    simp

/-! ## Every run -/

/-- The tables and every session against the histories. -/
structure Inv (start : Start cipher) (boto3Client : ClientKwargs → Bool)
    (savedToken : Nat → Uuid → Option String) (w : World) (g : History) : Prop where
  users : w.tables.users = start.users
  settings : w.tables.userSettings = start.settings
  rows : Represents credKey (Reads cipher) w.tables.datastoreCredentials.rows (byUser g)
  possible : Possible boto3Client start.users g
  sessions : ∀ p u, Holds (w.getSession savedToken p u) p (g u)

theorem Inv.start (start : Start cipher) : Inv start boto3Client savedToken start.world fun _ => [] where
  users := rfl
  settings := rfl
  rows := by
    have hnone : byUser (fun _ => []) = fun _ => none := by
      funext k
      obtain ⟨d, owner⟩ := k
      cases owner <;> rfl
    rw [hnone]
    exact .empty _ _
  possible := fun _ _ he => absurd he List.not_mem_nil
  sessions := fun p u => holds_new _ p

variable {start : Start cipher} {w : World}

theorem getSession_put_self (w : World) (p : Nat) (u : Uuid) (st : UserSession) :
    (w.put p u st).getSession savedToken p u = st := by
  simp [World.getSession, World.put]

theorem getSession_put_ne (w : World) {p p' : Nat} {u u' : Uuid} (st : UserSession) (h : ¬(p' = p ∧ u' = u)) :
    (w.put p u st).getSession savedToken p' u' = w.getSession savedToken p' u' := by
  simp only [World.getSession, World.put, if_neg h]

/-- Serving a request leaves the sessions of other processes and of other users alone. -/
theorem Inv.served (hw : Inv start boto3Client savedToken w g) {p : Nat} {u : Uuid} {t : CredentialsTable}
    {st : UserSession} (later : List (Event Nat String Saved)) (hproc : ∀ e ∈ later, e.proc = p)
    (hrows : Represents credKey (Reads cipher) t.rows (byUser (extend g u later)))
    (hposs : ∀ e ∈ later, ∀ d v, e.op = .put d v → start.users.contains u = true ∧ boto3Client (client v) = true)
    (hst : Holds st p (later ++ g u)) :
    Inv start boto3Client savedToken ({ w with tables := { w.tables with datastoreCredentials := t } }.put p u st)
      (extend g u later) where
  users := hw.users
  settings := hw.settings
  rows := hrows
  possible := hw.possible.extend u hposs
  sessions := by
    intro p' u'
    by_cases hu : u' = u
    · subst hu
      rw [extend_self]
      by_cases hp : p' = p
      · subst hp
        rw [getSession_put_self]
        exact hst
      · rw [getSession_put_ne _ _ fun hc => hp hc.1]
        refine (hw.sessions p' u').others fun e he => ?_
        rw [hproc e he]
        exact Ne.symm hp
    · rw [extend_ne g later hu, getSession_put_ne _ _ fun hc => hu hc.2]
      exact hw.sessions p' u'

theorem extend_nil (g : History) (u : Uuid) : extend g u [] = g := by
  funext u'
  simp [extend]

/-- A request that leaves the session and the rows alone. -/
theorem Inv.idle (hw : Inv start boto3Client savedToken w g) (p : Nat) (u : Uuid) {t : CredentialsTable}
    (ht : t.rows = w.tables.datastoreCredentials.rows) :
    Inv start boto3Client savedToken
      ({ w with tables := { w.tables with datastoreCredentials := t } }.put p u (w.getSession savedToken p u)) g := by
  have hnil := hw.served (p := p) (u := u) (t := t) [] (fun _ he => absurd he List.not_mem_nil)
    (by rw [extend_nil, ht]; exact hw.rows) (fun _ he => absurd he List.not_mem_nil) (hw.sessions p u)
  rwa [extend_nil] at hnil

theorem goesThrough_iff {s : Tables} {u : Uuid} {v : Saved} {reachable : Bool} :
    goesThrough boto3Client s u v reachable = true ↔ boto3Client (client v) = true ∧ reachable = true ∧
      v.taken s.users (some u) = true ∧ s.datastoreCredentials.next ≤ maxInteger := by
  simp only [goesThrough, Bool.and_eq_true, decide_eq_true_iff, and_assoc]

theorem init_client (v : Saved) :
    S3Service.init boto3Client v.accessKey v.secretKey ((truthy v.region).getD "us-east-1") (truthy v.endpoint) =
      if boto3Client (client v) then some ⟨client v⟩ else none := by
  have htt : truthy (truthy v.endpoint) = truthy v.endpoint := by
    cases v.endpoint with
    | none => rfl
    | some e => by_cases he : e = "" <;> simp [truthy, Option.filter, he]
  have hkw : clientKwargs v.accessKey v.secretKey ((truthy v.region).getD "us-east-1") (truthy v.endpoint) =
      client v := by
    simp only [clientKwargs, client, htt]
  unfold S3Service.init
  rw [hkw]

theorem save_step (hw : Inv start boto3Client savedToken w g) (p : Nat) (u : Uuid) (v : Saved)
    (reachable : Bool) (now : Int) (salt : Nat) :
    Inv start boto3Client savedToken
    (saveDatastoreCredentials cipher boto3Client savedToken w p u v reachable now salt).2
      (extend g u (effects boto3Client w.tables ⟨p, u, .save v reachable now salt⟩)) := by
  have huser : (byUser g (v.datastoreId, some u)).isSome = true → w.tables.users.contains u = true := by
    intro hsome
    obtain ⟨v', hv'⟩ := Option.isSome_iff_exists.mp hsome
    rw [hw.users]
    exact (possible_of_stored hw.possible hv').1
  simp only [saveDatastoreCredentials, effects, init_client]
  by_cases hgo : goesThrough boto3Client w.tables u v reachable = true
  · rw [if_pos hgo]
    obtain ⟨hc, rfl, htaken, hn⟩ := goesThrough_iff.mp hgo
    obtain ⟨reply, t, hsave, hout⟩ := save_spec hw.rows v u now salt huser
    rw [if_pos ⟨htaken, hn⟩] at hout
    obtain ⟨⟨row, rfl⟩, hrows⟩ := hout
    rw [if_pos hc]
    simp only [if_true, hsave]
    refine hw.served _ ?_ ?_ ?_ ((hw.sessions p u).put v rfl)
    · intro e he
      rw [List.mem_singleton.mp he]
    · rw [byUser_extend g u (d := v.datastoreId) (x := some v) (by simp [stored]) fun d' hd' => by
        simp [stored, Ne.symm hd']]
      exact hrows
    · intro e he d v' hop
      rw [List.mem_singleton.mp he] at hop
      cases hop
      rw [← hw.users]
      exact ⟨(Bool.and_eq_true _ _ ▸ htaken).2, hc⟩
  · rw [if_neg hgo, extend_nil]
    by_cases hc : boto3Client (client v) = true
    · rw [if_pos hc]
      dsimp only
      by_cases hr : reachable = true
      · have hnot : ¬(v.taken w.tables.users (some u) = true ∧ w.tables.datastoreCredentials.next ≤ maxInteger) :=
          fun ht => hgo (goesThrough_iff.mpr ⟨hc, hr, ht⟩)
        obtain ⟨reply, t, hsave, hout⟩ := save_spec hw.rows v u now salt huser
        rw [if_neg hnot] at hout
        obtain ⟨⟨e, rfl⟩, hrows⟩ := hout
        rw [if_pos hr, hsave]
        exact hw.idle p u hrows
      · rw [if_neg hr]
        exact hw.idle p u rfl
    · rw [if_neg hc]
      exact hw.idle p u rfl

theorem hydrate_step (hw : Inv start boto3Client savedToken w g) {p : Nat} {u : Uuid} {t : CredentialsTable}
    {st : UserSession} (later : List (Event Nat String Saved))
    (hrows : Represents credKey (Reads cipher) t.rows (byUser (extend g u later)))
    (hposs : Possible boto3Client start.users (extend g u later)) (hst : Holds st p (later ++ g u)) :
    ∃ st', st.hydrate cipher boto3Client { w.tables with datastoreCredentials := t } u = (.ok (), st') ∧
      Holds st' p (⟨p, .read⟩ :: (later ++ g u)) := by
  have hs := stores_of (s := { w.tables with datastoreCredentials := t }) hposs hrows u
  rw [extend_self] at hs
  exact hydrate_ok start hw.settings hs hst

theorem delete_step (hw : Inv start boto3Client savedToken w g) (p : Nat) (u : Uuid) (d : String) :
    Inv start boto3Client savedToken (deleteDatastoreCredentials cipher boto3Client savedToken w p u d).2
      (extend g u (effects boto3Client w.tables ⟨p, u, .delete d⟩)) := by
  by_cases hd : isText d = true
  · obtain ⟨t, hdel, hrows⟩ := delete_spec hw.rows hd u
    have hst := (hw.sessions p u).drop d _ (rfl : (byUser g (d, some u)).isSome = _)
    have hdrop : byUser (extend g u [⟨p, .drop d⟩]) = setAt (byUser g) (d, some u) none :=
      byUser_extend g u (by simp [stored]) fun d' hd' => by simp [stored, Ne.symm hd']
    have hread : byUser (extend g u [⟨p, .read⟩, ⟨p, .drop d⟩]) = setAt (byUser g) (d, some u) none :=
      byUser_extend g u (by simp [stored]) fun d' hd' => by simp [stored, Ne.symm hd']
    obtain ⟨st', hhyd, hst'⟩ := hydrate_step hw [⟨p, .drop d⟩] (by rw [hdrop]; exact hrows)
      (hw.possible.extend u fun e he d' v hop => by rw [List.mem_singleton.mp he] at hop; cases hop) hst
    simp only [deleteDatastoreCredentials, hdel, tabSettings, effects, if_pos hd, hhyd]
    refine hw.served _ ?_ (by rw [hread]; exact hrows) ?_ hst'
    · intro e he
      rcases List.mem_cons.mp he with rfl | he
      · rfl
      · rw [List.mem_singleton.mp he]
    · intro e he d' v hop
      rcases List.mem_cons.mp he with rfl | he
      · cases hop
      · rw [List.mem_singleton.mp he] at hop
        cases hop
  · simp only [deleteDatastoreCredentials, Data.deleteDatastoreCredentials, effects, if_neg hd, extend_nil]
    exact hw.idle p u rfl

/-- The page and the session of a browse. -/
theorem browse_goes (hw : Inv start boto3Client savedToken w g) (p : Nat) (u : Uuid) (d keyPrefix : String) :
    let h := ⟨p, .read⟩ :: g u
    Inv start boto3Client savedToken (browseDatastore cipher boto3Client savedToken w p u d keyPrefix).2
        (extend g u [⟨p, .read⟩]) ∧
      (browseDatastore cipher boto3Client savedToken w p u d keyPrefix).1.reached =
        offered (learned (fun _ => true) p d h) (learned hasKeys p d h) := by
  intro h
  have hnil : extend g u [] = g := extend_nil g u
  obtain ⟨st', hhyd, hst'⟩ := hydrate_step hw (t := w.tables.datastoreCredentials) [] (by rw [hnil]; exact hw.rows)
    (by rw [hnil]; exact hw.possible) (hw.sessions p u)
  have hinv : Inv start boto3Client savedToken (w.put p u st') (extend g u [⟨p, .read⟩]) := by
    refine hw.served _ ?_ (by rw [byUser_keep g u fun _ => rfl]; exact hw.rows) ?_ hst'
    · intro e he
      rw [List.mem_singleton.mp he]
    · intro e he d' v hop
      rw [List.mem_singleton.mp he] at hop
      cases hop
  have hentry := hst'.entries d
  have hservice := hst'.services d
  simp only [List.nil_append] at hentry hservice
  simp only [browseDatastore, hhyd]
  cases he : st'.datastoreCredentials d with
  | none =>
    rw [he] at hentry
    rw [Option.map_eq_none_iff.mp hentry.symm]
    exact ⟨hinv, rfl⟩
  | some cred =>
    rw [he] at hentry
    obtain ⟨entry, hl, rfl⟩ := Option.map_eq_some_iff.mp hentry.symm
    rw [hl]
    cases hs : st'.s3Services d with
    | none =>
      rw [hs] at hservice
      rw [Option.map_eq_none_iff.mp hservice.symm]
      exact ⟨hinv, rfl⟩
    | some service =>
      rw [hs] at hservice
      obtain ⟨known, hk, hclient⟩ := Option.map_eq_some_iff.mp hservice.symm
      rw [hk]
      exact ⟨hinv, by simp [Page.reached, offered, cached, hclient]⟩

theorem inv_run (start : Start cipher) (requests : List Served) :
    Inv start boto3Client savedToken (run boto3Client savedToken start requests)
      fun u => events boto3Client savedToken start u requests := by
  induction requests with
  | nil => exact .start start
  | cons r before ih =>
    obtain ⟨p, u, request⟩ := r
    cases request with
    | save v reachable now salt => exact save_step ih p u v reachable now salt
    | delete d => exact delete_step ih p u d
    | browse d keyPrefix => exact (browse_goes ih p u d keyPrefix).1

/-- A browse agrees with the tables exactly when it offers what is stored. -/
theorem agrees_iff {page : Page} {d : String} (hs : Stores cipher boto3Client s u fun d => stored d h) :
    Agrees cipher s u d page ↔ page.reached = (stored d h).map fun v => (v.bucketName, client v) := by
  unfold Agrees
  have hrow : ∀ r ∈ s.datastoreCredentials.rows, credKey r = (d, some u) → ∃ v dict, stored d h = some v ∧
      credentialDict cipher r = .ok dict ∧ dict.toSaved = v := by
    intro r hr hk
    obtain ⟨v, hm, hv⟩ := hs.rows r hr (congrArg Prod.snd hk)
    obtain ⟨dict, hd, he, -⟩ := credentialDict_of_reads hv
    have hid : r.datastoreId = d := congrArg Prod.fst hk
    exact ⟨v, dict, by rw [← hid]; exact hm, hd, he⟩
  cases hd : stored d h with
  | none =>
    have hno : ¬∃ r ∈ s.datastoreCredentials.rows, credKey r = (d, some u) := by
      intro h
      obtain ⟨r, hr, hk⟩ := h
      obtain ⟨v, dict, hv, -⟩ := hrow r hr hk
      rw [hd] at hv
      cases hv
    constructor
    · intro ha
      exact Option.not_isSome_iff_eq_none.mp fun hc => hno (ha.1.mp hc)
    · intro he
      rw [he]
      exact ⟨iff_of_false (by simp) hno, fun r hr hk => absurd ⟨r, hr, hk⟩ hno⟩
  | some v =>
    obtain ⟨r, hr, hk⟩ := hs.complete d v hd
    constructor
    · intro ha
      obtain ⟨dict, hdict, he⟩ := ha.2 r hr hk
      obtain ⟨v', dict', hv', hdict', rfl⟩ := hrow r hr hk
      rw [hdict] at hdict'
      cases hdict'
      rw [hd] at hv'
      cases hv'
      exact he
    · intro he
      rw [he]
      refine ⟨iff_of_true rfl ⟨r, hr, hk⟩, fun r' hr' hk' => ?_⟩
      obtain ⟨v', dict', hv', hdict', rfl⟩ := hrow r' hr' hk'
      rw [hd] at hv'
      cases hv'
      exact ⟨dict', hdict', rfl⟩

/-- Every browse agrees with the tables if and only if each is served by a process that has
    learned of the datastore what is stored when it browses. -/
theorem browses_agree_iff (cipher : Cipher) (boto3Client : ClientKwargs → Bool)
    (savedToken : Nat → Uuid → Option String) (start : Start cipher) (requests : List Served) :
    BrowsesAgree boto3Client savedToken start requests ↔
      ∀ p u d keyPrefix before, (⟨p, u, .browse d keyPrefix⟩ :: before) <:+ requests →
        UpToDate boto3Client savedToken start before p u d := by
  have hone : ∀ p u d keyPrefix before,
      Agrees cipher (run boto3Client savedToken start before).tables u d
          (serve cipher boto3Client savedToken (run boto3Client savedToken start before)
            ⟨p, u, .browse d keyPrefix⟩).1 ↔
        UpToDate boto3Client savedToken start before p u d := by
    intro p u d keyPrefix before
    have hinv : Inv start boto3Client savedToken (run boto3Client savedToken start before) _ := inv_run start before
    rw [agrees_iff (stores_of hinv.possible hinv.rows u), UpToDate]
    simp only [serve]
    rw [(browse_goes hinv p u d keyPrefix).2]
    rfl
  constructor
  · intro hall p u d keyPrefix before hb
    exact (hone p u d keyPrefix before).mp (hall p u d keyPrefix before hb)
  · intro hall p u d keyPrefix before hb
    exact (hone p u d keyPrefix before).mpr (hall p u d keyPrefix before hb)

/-! ## One process, and two -/

/-- A save or a delete of a datastore. -/
def Request.concerns (d : String) : Request → Bool
  | .save v _ _ _ => v.datastoreId = d
  | .delete d' => d' = d
  | .browse _ _ => false

theorem concerns_of_changes {r : Served} {e : Event Nat String Saved} {d : String} (he : e ∈ effects boto3Client s r)
    (hd : e.op.changes d = true) : e.proc = r.process ∧ r.request.concerns d = true := by
  unfold effects at he
  cases hr : r.request with
  | save v reachable now salt =>
    simp only [hr] at he
    split at he
    · rw [List.mem_singleton.mp he] at hd ⊢
      exact ⟨rfl, hd⟩
    · cases he
  | delete d' =>
    simp only [hr] at he
    split at he
    · rcases List.mem_cons.mp he with rfl | he
      · cases hd
      · rw [List.mem_singleton.mp he] at hd ⊢
        exact ⟨rfl, hd⟩
    · cases he
  | browse d' keyPrefix =>
    simp only [hr] at he
    rw [List.mem_singleton.mp he] at hd
    cases hd

theorem request_of_event {before : List Served} {e : Event Nat String Saved} {d : String}
    (he : e ∈ events boto3Client savedToken start u before) (hd : e.op.changes d = true) :
    ∃ r ∈ before, r.userId = u ∧ r.request.concerns d = true ∧ r.process = e.proc := by
  induction before with
  | nil => cases he
  | cons r before ih =>
    simp only [events] at he
    rcases List.mem_append.mp he with he | he
    · split at he
      · rename_i hu
        obtain ⟨hp, hc⟩ := concerns_of_changes he hd
        exact ⟨r, List.mem_cons_self, hu, hc, hp.symm⟩
      · cases he
    · obtain ⟨r', hr', hrest⟩ := ih he
      exact ⟨r', List.mem_cons_of_mem _ hr', hrest⟩

/-- The process that serves every save and delete of a datastore is up to date with it. -/
theorem upToDate_of_own {before : List Served} {d : String}
    (hown : ∀ r ∈ before, r.userId = u → r.request.concerns d = true → r.process = p) :
    UpToDate boto3Client savedToken start before p u d := by
  have hcurrent : ∀ usable, Current usable p d (⟨p, .read⟩ :: events boto3Client savedToken start u before) := by
    intro usable
    refine current_of_own fun e he hd => ?_
    rcases List.mem_cons.mp he with rfl | he
    · rfl
    · obtain ⟨r, hr, hu, hc, hp⟩ := request_of_event he hd
      rw [← hp]
      exact hown r hr hu hc
  simp only [UpToDate]
  rw [hcurrent fun _ => true, hcurrent hasKeys]
  cases stored d (⟨p, .read⟩ :: events boto3Client savedToken start u before) <;> rfl

def somebody : Uuid := ⟨1, by decide⟩

/-- No settings. -/
def oneUser : Start clear where
  users := [somebody]
  settings := (fresh []).userSettings
  tokens := by
    intro r hr
    cases hr

/-- Saved by process 0, browsed by process 1, deleted by process 0. -/
def deletedElsewhere : List Served :=
  [⟨0, somebody, .delete "ds"⟩, ⟨1, somebody, .browse "ds" ""⟩, ⟨0, somebody, .save firstSave true 0 0⟩]

/-- Process 1 still browses with the keys that were deleted. -/
theorem stale_after_delete :
    ¬BrowsesAgree (fun _ => true) (fun _ _ => none) oneUser (⟨1, somebody, .browse "ds" ""⟩ :: deletedElsewhere) := by
  intro h
  have hagrees := h 1 somebody "ds" "" deletedElsewhere (List.suffix_refl _)
  obtain ⟨r, hr, -⟩ := hagrees.1.mp (by decide)
  have hnone : (run (fun _ => true) (fun _ _ => none) oneUser
      deletedElsewhere).tables.datastoreCredentials.rows = [] := by
    decide
  rw [hnone] at hr
  cases hr

end Connect.Web
