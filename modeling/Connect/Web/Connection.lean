/-
  Connect.Web.Connection — the LucidLink side of a `UserSession` and the requests that work
  on it (main.py): filespaces and datastores are loaded, connected to, shown, deleted and
  created.

  A session remembers the datastores of the filespace that was loaded last, and which one
  that was. The requests of a user share it, and each gives way at every await, so two of
  them mix: a load empties the datastores, fills them one lookup at a time and selects the
  filespace at the end. What a coroutine does between two awaits is one `sync`.

  `Reading` are the rules for the requests that name a datastore with a filespace, whatever
  the session is known to hold.

  `LucidLinkClient`'s methods, the tables and S3 answer as they please; the datastores and
  filespaces of an answer have their ids. `S3Service()` is tried along with `head_bucket`.
  The caches of credentials are those of Connect.Web.Session; `state.log`, the activity log
  and the user on the page are left out.
-/

import Connect.Await.Serial
import Connect.Await.Lift
import Connect.Tfvars.Format
import Connect.Web.Session

namespace Connect.Web.Connection

open Await
open Data (Saved)

/-! ## Dictionaries -/

section Dict

variable {β : Type}

/-- `d[k] = v`. -/
def put (d : List (String × β)) (k : String) (v : β) : List (String × β) :=
  if d.any (·.1 == k) then d.map fun e => if e.1 = k then (k, v) else e else d ++ [(k, v)]

/-- `del d[k]`, where it is there. -/
def del (d : List (String × β)) (k : String) : List (String × β) := d.filter (·.1 != k)

theorem mem_put {d : List (String × β)} {k : String} {v : β} {e : String × β} (h : e ∈ put d k v) :
    e = (k, v) ∨ e ∈ d := by
  unfold put at h
  split at h
  · obtain ⟨e', he', rfl⟩ := List.mem_map.mp h
    split
    · exact Or.inl rfl
    · exact Or.inr he'
  · exact (List.mem_append.mp h).symm.imp List.mem_singleton.mp id

theorem mem_lookup {d : List (String × β)} {k : String} {v : β} (h : d.lookup k = some v) : (k, v) ∈ d := by
  induction d with
  | nil => cases h
  | cons e d ih =>
    rw [List.lookup_cons] at h
    split at h
    · rename_i hk
      cases h
      rw [eq_of_beq hk]
      exact List.mem_cons_self
    · exact List.mem_cons_of_mem _ (ih h)

end Dict

/-! ## The session -/

structure Filespace where
  name : String
  id : String
  deriving DecidableEq, Repr

structure Datastore where
  id : String
  name : Option String
  kind : Option String
  bucketName : Option String
  region : Option String
  endpoint : Option String
  useVirtualAddressing : Option Bool
  urlExpirationMinutes : Option Int
  deriving DecidableEq, Repr

/-- `ds.get("name", ds_id)`. -/
def Datastore.key (ds : Datastore) : String := ds.name.getD ds.id

structure Lucid where
  filespaces : List (String × String)
  datastores : List (String × Datastore)
  selectedFilespace : String
  deriving DecidableEq, Repr

structure Session where
  lucid : Lucid
  token : String
  apiHost : String
  selectedDatastore : String
  deriving DecidableEq, Repr

def Session.set (s : Session) (f : Lucid → Lucid) : Session := { s with lucid := f s.lucid }

/-- `state.filespaces.get(state.selected_filespace)`. -/
def Lucid.filespaceId (l : Lucid) : Option String := l.filespaces.lookup l.selectedFilespace

/-- The first datastore with this id. -/
def Lucid.datastore (l : Lucid) (datastoreId : String) : Option (String × Datastore) :=
  l.datastores.find? (·.2.id = datastoreId)

theorem datastore_mem {l : Lucid} {datastoreId : String} {e : String × Datastore}
    (h : l.datastore datastoreId = some e) :
    e ∈ l.datastores ∧ e.2.id = datastoreId :=
  ⟨List.mem_of_find?_eq_some h, by simpa using List.find?_some h⟩

def Lucid.clear (l : Lucid) : Lucid := { l with datastores := [] }

def Lucid.add (ds : Datastore) (l : Lucid) : Lucid := { l with datastores := put l.datastores ds.key ds }

def Lucid.select (filespace : String) (l : Lucid) : Lucid := { l with selectedFilespace := filespace }

/-! ## Pages -/

structure DatastoreRow where
  id : String
  name : String
  bucket : String
  hasCredentials : Bool
  deriving DecidableEq, Repr

structure CredentialsForm where
  datastoreId : String
  datastoreName : String
  filespaceId : String
  filespaceName : String
  bucketName : String
  region : String
  endpoint : String
  deriving DecidableEq, Repr

inductive Page where
  | filespaceSelect (error : Option String) (filespaces : List String) (selected : Option String)
      (datastores : List DatastoreRow)
  | datastoreList (datastores : List DatastoreRow) (error success : Option String)
  | browser (activeDatastoreId : String)
  | credentialsModal (form : CredentialsForm)
  | connectionError (error : String)
  | datastoreInfoModal (datastore : Except String (String × String × Datastore))
  | createDatastoreError (error : String)
  | datastoreCreateSuccess (datastores : List DatastoreRow) (success : String)

def credentialsForm (ds : Datastore) (datastoreId datastoreName filespaceId filespaceName : String) :
    CredentialsForm where
  datastoreId := datastoreId
  datastoreName := datastoreName
  filespaceId := filespaceId
  filespaceName := filespaceName
  bucketName := ds.bucketName.getD ""
  region := ds.region.getD ""
  endpoint := ds.endpoint.getD ""

/-! ## Operations -/

structure NewDatastore where
  token : String
  filespaceId : String
  name : String
  bucket : String
  region : String
  endpoint : Option String
  accessKey : String
  secretKey : String
  apiHost : String
  useVirtualAddressing : Bool
  urlExpirationMinutes : Int
  deriving DecidableEq, Repr

inductive Op where
  /-- What is done between two awaits; it answers with the session before. -/
  | sync (f : Session → Session)
  | listFilespaces (token apiHost : String)
  | listDatastores (token filespaceId apiHost : String)
  | getDatastore (token filespaceId datastoreId apiHost : String)
  | deleteDatastore (token filespaceId datastoreId apiHost : String)
  | createS3Datastore (new : NewDatastore)
  /-- `ValueError`s are an answer. -/
  | headBucket (client : ClientKwargs) (bucket : String)
  /-- Whether there is a row. -/
  | getForDatastoreUser (datastoreId : String)
  | saveDatastoreCredentials (row : Saved)
  | deleteDatastoreCredentials (datastoreId : String)
  | saveLlToken (token : String)
  | setApiHost (apiHost : String)
  | commit
  /-- The page goes out. -/
  | respond (page : Page)

abbrev Op.Ret : Op → Type
  | .sync _ => Session
  | .listFilespaces _ _ => Except String (List Filespace)
  | .listDatastores _ _ _ => List Datastore
  | .getDatastore _ _ _ _ => Except String Datastore
  | .deleteDatastore _ _ _ _ | .createS3Datastore _ => String
  | .headBucket _ _ => Except String Unit
  | .getForDatastoreUser _ | .deleteDatastoreCredentials _ => Bool
  | .saveDatastoreCredentials _ | .saveLlToken _ | .setApiHost _ | .commit | .respond _ => Unit

abbrev connectionSig : Sig := ⟨Op, Op.Ret⟩

abbrev ConnectionProg := Prog connectionSig Exc

def ask (o : Op) : ConnectionProg o.Ret := @Prog.await connectionSig Exc o

/-- A segment that changes what LucidLink answered. -/
def update (f : Lucid → Lucid) : ConnectionProg Session := ask (.sync fun s => s.set f)

def read : ConnectionProg Session := update id

/-! ## Requests -/

def saveToken (s : Session) : ConnectionProg Unit := if s.token = "" then return () else ask (.saveLlToken s.token)

def saveApiHost (s : Session) : ConnectionProg Unit :=
  if s.apiHost = "" then return () else ask (.setApiHost s.apiHost)

def datastoreRow (ds : Datastore) (name : String) (hasCredentials : Bool) : DatastoreRow :=
  ⟨ds.id, name, ds.bucketName.getD "", hasCredentials⟩

/-- The loop that fills `state.datastores`. `pending` is what this segment has done already,
    `done` what follows the loop; for the `known` nothing is looked up. -/
def fill (known : Datastore → Bool) (done : Lucid → Lucid) (pending : Lucid → Lucid) :
    List Datastore → ConnectionProg (List DatastoreRow × Session)
  | [] => do
    let s ← update (done ∘ pending)
    return ([], s)
  | ds :: rest =>
    if known ds then do
      let (rows, s) ← fill known done (Lucid.add ds ∘ pending) rest
      return (datastoreRow ds ds.key true :: rows, s)
    else do
      let _ ← update (Lucid.add ds ∘ pending)
      let hasCreds ← ask (.getForDatastoreUser ds.id)
      let (rows, s) ← fill known done id rest
      return (datastoreRow ds ds.key hasCreds :: rows, s)

/-- `api_host.strip() if api_host else state.api_host`. -/
def effectiveHost (apiHost : Option String) (s : Session) : String :=
  match truthy apiHost with
  | some host => String.ofList (Tfvars.strip host.toList)
  | none => s.apiHost

def loadFilespaces (token : String) (apiHost : Option String) : ConnectionProg Page := do
  let s ← read
  let effectiveHost := effectiveHost apiHost s
  match ← ask (.listFilespaces token effectiveHost) with
  | .error text => return .filespaceSelect (some text) [] none []
  | .ok result =>
    let filespaces := result.foldl (fun d fs => put d fs.name fs.id) []
    let _ ← ask (.sync fun s => { s with lucid.filespaces := filespaces, token := token, apiHost := effectiveHost })
    saveToken { s with token := token }
    saveApiHost (← read)
    ask .commit
    let s ← read
    match s.lucid.filespaces with
    | [] => return .filespaceSelect none [] none []
    | (selected, filespaceId) :: _ =>
      let dsResult ← ask (.listDatastores token filespaceId effectiveHost)
      let (rows, s) ← fill (fun _ => false) (Lucid.select selected) Lucid.clear dsResult
      return .filespaceSelect none (s.lucid.filespaces.map (·.1)) (some selected) rows

def loadDatastores (filespace : String) : ConnectionProg Page := do
  let s ← read
  match s.lucid.filespaces.lookup filespace with
  | none => return .datastoreList [] (some "Invalid filespace") none
  | some filespaceId =>
    let result ← ask (.listDatastores s.token filespaceId s.apiHost)
    let (rows, _) ← fill (fun _ => false) (Lucid.select filespace) Lucid.clear result
    return .datastoreList rows none none

def connect (datastore : String) : ConnectionProg Page :=
  (do
    let s ← read
    match s.lucid.datastores.lookup datastore with
    | none => return .connectionError ("DataStore '" ++ datastore ++ "' not found")
    | some ds =>
      let filespaceId := s.lucid.filespaceId.getD ""
      if filespaceId = "" then return .connectionError "Please select a filespace first"
      else if ← ask (.getForDatastoreUser ds.id) then
        let s ← ask (.sync fun s => { s with selectedDatastore := datastore })
        saveToken s
        ask .commit
        return .browser ds.id
      else
        let s ← read
        return .credentialsModal (credentialsForm ds ds.id datastore filespaceId s.lucid.selectedFilespace)
    : ConnectionProg Page).catching fun e =>
      if e.isException then return .connectionError e.text else .raise e

def datastoreCredentialsModal (datastoreId : String) : ConnectionProg Page := do
  let s ← read
  match s.lucid.datastore datastoreId with
  | none => return .connectionError ("DataStore " ++ datastoreId ++ " not found")
  | some (dsName, ds) =>
    return .credentialsModal (credentialsForm ds datastoreId dsName
      (s.lucid.filespaceId.getD "") s.lucid.selectedFilespace)

def datastoreInfo (datastoreId : String) : ConnectionProg Page := do
  let s ← read
  match s.lucid.datastore datastoreId, truthy s.lucid.filespaceId with
  | some (dsName, _), some filespaceId =>
    match ← ask (.getDatastore s.token filespaceId datastoreId s.apiHost) with
    | .error text => return .datastoreInfoModal (.error text)
    | .ok result => return .datastoreInfoModal (.ok (result.name.getD dsName, result.kind.getD "Unknown", result))
  | _, _ => return .datastoreInfoModal (.error "DataStore or filespace not found")

/-- The rows of the datastores in the session; where another request changes them meanwhile,
    the loop raises. -/
def currentRows : List (String × Datastore) → ConnectionProg (List DatastoreRow)
  | [] => return []
  | (name, ds) :: rest => do
    let hasCreds ← ask (.getForDatastoreUser ds.id)
    let rows ← currentRows rest
    return datastoreRow ds name hasCreds :: rows

def deleteDatastore (datastoreId : String) : ConnectionProg Page := do
  let s ← read
  match s.lucid.datastore datastoreId, truthy s.lucid.filespaceId with
  | some (dsName, _), some filespaceId =>
    let result ← ask (.deleteDatastore s.token filespaceId datastoreId s.apiHost)
    if result ≠ "SUCCESS" then
      let s ← read
      let rows ← currentRows s.lucid.datastores
      return .datastoreList rows (some result) none
    else
      let _ ← update fun l => { l with datastores := del l.datastores dsName }
      let _ ← ask (.deleteDatastoreCredentials datastoreId)
      ask .commit
      let s ← read
      let rows ← currentRows s.lucid.datastores
      return .datastoreList rows none (some ("DataStore '" ++ dsName ++ "' deleted"))
  | _, _ => return .datastoreList [] (some "DataStore or filespace not found") none

structure CreateForm where
  name : String
  bucket : String
  accessKey : String
  secretKey : String
  region : String
  endpoint : Option String
  useVirtualAddressing : Option String
  urlExpirationMinutes : Option Int
  deriving DecidableEq, Repr

def CreateForm.client (form : CreateForm) : ClientKwargs :=
  clientKwargs form.accessKey form.secretKey form.region (truthy form.endpoint)

def CreateForm.new (form : CreateForm) (token filespaceId apiHost : String) : NewDatastore where
  token := token
  filespaceId := filespaceId
  name := form.name
  bucket := form.bucket
  region := form.region
  endpoint := form.endpoint
  accessKey := form.accessKey
  secretKey := form.secretKey
  apiHost := apiHost
  useVirtualAddressing := match truthy form.useVirtualAddressing with
    | some text => text == "true"
    | none => true
  urlExpirationMinutes := match form.urlExpirationMinutes with
    | none | some 0 => 10080
    | some minutes => minutes

def CreateForm.saved (form : CreateForm) (datastoreId filespaceId filespaceName : String) : Saved where
  datastoreId := datastoreId
  datastoreName := form.name
  filespaceId := filespaceId
  filespaceName := filespaceName
  bucketName := form.bucket
  accessKey := form.accessKey
  secretKey := form.secretKey
  region := some form.region
  endpoint := form.endpoint

/-- The last datastore of the name. -/
def newDatastoreId (name : String) (datastores : List Datastore) : Option String :=
  (datastores.reverse.find? (·.key = name)).map (·.id)

def validateS3 (form : CreateForm) : ConnectionProg (Except String Unit) :=
  (do
    match ← ask (.headBucket form.client form.bucket) with
    | .error text => return .error ("S3 access failed: " ++ text)
    | .ok () => return .ok ()
    : ConnectionProg (Except String Unit)).catching fun e =>
      if e.isException then return .error ("Failed to validate S3 access: " ++ e.text) else .raise e

def createDatastore (form : CreateForm) : ConnectionProg Page := do
  match ← validateS3 form with
  | .error text => return .createDatastoreError text
  | .ok () =>
    let s ← read
    match s.lucid.filespaceId with
    | none => .raise (.exception ("'" ++ s.lucid.selectedFilespace ++ "'"))
    | some filespaceId =>
      let result ← ask (.createS3Datastore (form.new s.token filespaceId s.apiHost))
      if result ≠ "SUCCESS" then return .createDatastoreError result
      else
        let s ← read
        let datastores ← ask (.listDatastores s.token filespaceId s.apiHost)
        let (rows, s) ← fill (fun ds => ds.key == form.name) id Lucid.clear datastores
        let success := Page.datastoreCreateSuccess rows ("DataStore '" ++ form.name ++ "' created successfully")
        match truthy (newDatastoreId form.name datastores) with
        | none => return success
        | some datastoreId =>
          ask (.saveDatastoreCredentials (form.saved datastoreId filespaceId s.lucid.selectedFilespace))
          ask .commit
          return success

/-! ## The requests of a user -/

inductive Request where
  | loadFilespaces (token : String) (apiHost : Option String)
  | loadDatastores (filespace : String)
  | connect (datastore : String)
  | credentialsModal (datastoreId : String)
  | info (datastoreId : String)
  | delete (datastoreId : String)
  | create (form : CreateForm)
  deriving DecidableEq, Repr

def Request.page : Request → ConnectionProg Page
  | .loadFilespaces token apiHost => Connection.loadFilespaces token apiHost
  | .loadDatastores filespace => Connection.loadDatastores filespace
  | .connect datastore => Connection.connect datastore
  | .credentialsModal datastoreId => datastoreCredentialsModal datastoreId
  | .info datastoreId => datastoreInfo datastoreId
  | .delete datastoreId => deleteDatastore datastoreId
  | .create form => createDatastore form

def exec (s : Session) : (o : Op) → Except Exc o.Ret → Option Session
  | .sync f, .ok old => if old = s then some (f s) else none
  | .sync _, .error _ => none
  | _, _ => some s

/-- What the user's other requests change: `hydrate` the token and the host, the browser tab the datastore. -/
structure Others where
  token : String
  apiHost : String
  selectedDatastore : String

/-- A `UserSession` from its first request on. -/
def connection : System connectionSig Exc Unit where
  State := Session
  Env := Others
  Task := Request
  init s := s.lucid = ⟨[], [], ""⟩
  exec _ := exec
  env s e := some ⟨s.lucid, e.token, e.apiHost, e.selectedDatastore⟩
  starts _ _ := true
  code _ request := request.page.bind fun page => ask (.respond page)

abbrev ConnectionWorld := Await.World connection

abbrev History := List (Event connectionSig Exc)

/-! ## What LucidLink listed -/

def ListedIn (hist : History) (filespaceId datastoreId : String) : Prop :=
  ∃ pid token apiHost datastores, ∃ ds : Datastore,
    ⟨pid, Op.listDatastores token filespaceId apiHost, .ok datastores⟩ ∈ hist ∧ ds ∈ datastores ∧ ds.id = datastoreId

def FilespaceListed (hist : History) (filespaceId : String) : Prop :=
  ∃ pid token apiHost filespaces, ∃ fs : Filespace,
    ⟨pid, Op.listFilespaces token apiHost, .ok (.ok filespaces)⟩ ∈ hist ∧ fs ∈ filespaces ∧ fs.id = filespaceId

/-- An operation names a datastore with a filespace: LucidLink is asked about them, or a form holds them. -/
inductive Names : Event connectionSig Exc → String → String → Prop
  | get (pid : Nat) (token apiHost filespaceId datastoreId : String) (r) :
      Names ⟨pid, .getDatastore token filespaceId datastoreId apiHost, r⟩ filespaceId datastoreId
  | delete (pid : Nat) (token apiHost filespaceId datastoreId : String) (r) :
      Names ⟨pid, .deleteDatastore token filespaceId datastoreId apiHost, r⟩ filespaceId datastoreId
  | form (pid : Nat) (form : CredentialsForm) (r) : form.filespaceId ≠ "" →
      Names ⟨pid, .respond (.credentialsModal form), r⟩ form.filespaceId form.datastoreId

theorem ListedIn.mono {h h' : History} (hs : h <:+ h') {filespaceId datastoreId : String}
    (hl : ListedIn h filespaceId datastoreId) :
    ListedIn h' filespaceId datastoreId := by
  obtain ⟨pid, token, apiHost, datastores, ds, he, hrest⟩ := hl
  exact ⟨pid, token, apiHost, datastores, ds, hs.mem he, hrest⟩

theorem FilespaceListed.mono {h h' : History} (hs : h <:+ h') {filespaceId : String}
    (hl : FilespaceListed h filespaceId) :
    FilespaceListed h' filespaceId := by
  obtain ⟨pid, token, apiHost, filespaces, fs, he, hrest⟩ := hl
  exact ⟨pid, token, apiHost, filespaces, fs, hs.mem he, hrest⟩

/-! ## Requests that name what the session holds -/

/-- An operation that leaves the session as it is and names nothing. -/
def Plain : Op → Prop
  | .sync _ | .getDatastore _ _ _ _ | .deleteDatastore _ _ _ _ | .saveDatastoreCredentials _ | .respond _ => False
  | _ => True

/-- Under this law `J` of the session holds between the segments, and gives the `Fact` of
    every pair that is named. -/
structure Reading (pid : Nat) (Γ : Law ConnectionWorld connectionSig Exc) (J : History → Lucid → Prop)
    (Fact : History → String → String → Prop) : Prop where
  rely : ∀ a b, Γ.rely a b → a.hist <:+ b.hist ∧ (J a.hist a.st.lucid → J b.hist b.st.lucid)
  act : ∀ a o r b, Γ.act a o r b → exec a.st o r = some b.st ∧ b.hist = ⟨pid, o, r⟩ :: a.hist
  guar : ∀ a o r b, Γ.act a o r b → (J a.hist a.st.lucid → J b.hist b.st.lucid) →
    (∀ filespaceId datastoreId, Names ⟨pid, o, r⟩ filespaceId datastoreId → Fact a.hist filespaceId datastoreId) →
    (∀ row, o ≠ .saveDatastoreCredentials row) → Γ.guar a b
  mono : ∀ h h' l, h <:+ h' → J h l → J h' l
  fact : ∀ h h' filespaceId datastoreId, h <:+ h' → Fact h filespaceId datastoreId → Fact h' filespaceId datastoreId
  del : ∀ h l name, J h l → J h { l with datastores := del l.datastores name }
  pair : ∀ h l filespaceId e, J h l → l.filespaceId = some filespaceId → e ∈ l.datastores → Fact h filespaceId e.2.id

theorem exec_sync {f : Session → Session} {s s' : Session} {r : Except Exc Session}
    (h : exec s (.sync f) r = some s') :
    r = .ok s ∧ s' = f s := by
  cases r with
  | error e => cases h
  | ok old =>
    by_cases ho : old = s
    · exact ⟨by rw [ho], (Option.some.inj ((if_pos ho).symm.trans h)).symm⟩
    · cases (if_neg ho).symm.trans h

theorem exec_plain {o : Op} (ho : Plain o) {s s' : Session} {r : Except Exc o.Ret}
    (h : exec s o r = some s') : s' = s := by
  cases o <;> first | exact ho.elim | exact (Option.some.inj h).symm

theorem plain_saveToken (s : Session) : (saveToken s).Uses Plain := by
  unfold saveToken
  split
  · trivial
  · exact .await trivial

theorem plain_saveApiHost (s : Session) : (saveApiHost s).Uses Plain := by
  unfold saveApiHost
  split
  · trivial
  · exact .await trivial

theorem plain_currentRows (datastores : List (String × Datastore)) : (currentRows datastores).Uses Plain := by
  induction datastores with
  | nil => trivial
  | cons e rest ih => exact .bind (.await trivial) fun _ => .bind ih fun _ => trivial

namespace Reading

variable {pid : Nat} {Γ : Law ConnectionWorld connectionSig Exc} {J : History → Lucid → Prop}
    {Fact : History → String → String → Prop}

/-- `J` still holds, and the page names what it may. -/
def Done (J : History → Lucid → Prop) (Fact : History → String → String → Prop) (x : Except Exc Page)
    (w : ConnectionWorld) : Prop :=
  J w.hist w.st.lucid ∧ ∀ form, x = .ok (.credentialsModal form) → form.filespaceId ≠ "" →
    Fact w.hist form.filespaceId form.datastoreId

theorem done_page {page : Page} {w : ConnectionWorld} (hJ : J w.hist w.st.lucid)
    (hp : ∀ form, page ≠ .credentialsModal form) :
    Done J Fact (.ok page) w := ⟨hJ, fun form he => absurd (Except.ok.inj he) (hp form)⟩

/-- A part that keeps `J`, then the rest. -/
theorem seq {α : Type} {p : ConnectionProg α} {f : α → ConnectionProg Page} {P : α → ConnectionWorld → Prop}
    {w : ConnectionWorld} (hp : wp Γ p (fun x w' => J w'.hist w'.st.lucid ∧ ∀ a, x = .ok a → P a w') w)
    (hf : ∀ a w', J w'.hist w'.st.lucid → P a w' → wp Γ (f a) (Done J Fact) w') :
    wp Γ (p.bind f) (Done J Fact) w := by
  refine wp_bind.mpr (wp_mono (fun x w' ⟨hJ, h⟩ => ?_) hp)
  cases x with
  | ok a => exact hf a w' hJ (h a rfl)
  | error e => exact ⟨hJ, fun _ he => by cases he⟩

section Rules

variable (R : Reading pid Γ J Fact)
include R

/-- What holds after the segments of a request that began in `w`. -/
theorem step_plain {o : Op} (ho : Plain o) {a b : ConnectionWorld} {r : Except Exc o.Ret} (ha : Γ.act a o r b)
    (hJ : J a.hist a.st.lucid) : Γ.guar a b ∧ J b.hist b.st.lucid := by
  obtain ⟨hx, hh⟩ := R.act a o r b ha
  have hJb : J b.hist b.st.lucid := by
    rw [exec_plain ho hx, hh]
    exact R.mono _ _ _ (List.suffix_cons _ _) hJ
  refine ⟨R.guar a o r b ha (fun _ => hJb) (fun _ _ hn => ?_) fun row he => ?_, hJb⟩
  · cases hn <;> exact ho.elim
  · subst he
    exact ho

theorem ask {o : Op} (ho : Plain o) {w : ConnectionWorld} (hJ : J w.hist w.st.lucid) :
    wp Γ (ask o) (fun x w' => J w'.hist w'.st.lucid ∧ ∃ h, w'.hist = ⟨pid, o, x⟩ :: h ∧ w.hist <:+ h) w := by
  refine wp_await fun w₁ hr _ r w₂ ha => ?_
  obtain ⟨hs, hkeep⟩ := R.rely _ _ hr
  obtain ⟨hg, hJ₂⟩ := R.step_plain ho ha (hkeep hJ)
  exact ⟨hg, hJ₂, w₁.hist, (R.act _ _ _ _ ha).2, hs⟩

theorem plain {α : Type} {p : ConnectionProg α} (hp : p.Uses Plain) {w : ConnectionWorld} (hJ : J w.hist w.st.lucid) :
    wp Γ p (fun _ w' => J w'.hist w'.st.lucid ∧ w.hist <:+ w'.hist) w := by
  refine wp_uses (fun a b hr ⟨hJ, hs⟩ => ?_) (fun a o r b ho ⟨hJ, hs⟩ _ ha => ?_) hp ⟨hJ, List.suffix_refl _⟩
  · obtain ⟨hs', hkeep⟩ := R.rely _ _ hr
    exact ⟨hkeep hJ, hs.trans hs'⟩
  · obtain ⟨hg, hJ₂⟩ := R.step_plain ho ha hJ
    exact ⟨hg, hJ₂, (R.act _ _ _ _ ha).2 ▸ hs.trans (List.suffix_cons _ _)⟩

/-- A segment whose change keeps `J`. -/
theorem sync {f : Session → Session} {w : ConnectionWorld}
    (hf : ∀ h s, w.hist <:+ h → J h s.lucid → J h (f s).lucid) (hJ : J w.hist w.st.lucid) :
    wp Γ (Connection.ask (.sync f)) (fun x w' => J w'.hist w'.st.lucid ∧ w.hist <:+ w'.hist ∧
      ∀ s, x = .ok s → J w'.hist s.lucid) w := by
  refine wp_await fun w₁ hr _ r w₂ ha => ?_
  obtain ⟨hs, hkeep⟩ := R.rely _ _ hr
  obtain ⟨hx, hh⟩ := R.act _ _ _ _ ha
  have hs₂ : w₁.hist <:+ w₂.hist := hh ▸ List.suffix_cons _ _
  obtain ⟨rfl, hst⟩ := exec_sync hx
  have hJ₂ : J w₂.hist w₂.st.lucid := R.mono _ _ _ hs₂ (hst ▸ hf _ _ hs (hkeep hJ))
  refine ⟨R.guar _ _ _ _ ha (fun _ => hJ₂) (fun _ _ hn => by cases hn) (fun _ he => by cases he), hJ₂,
    hs.trans hs₂, fun s he => ?_⟩
  cases he
  exact R.mono _ _ _ hs₂ (hkeep hJ)

/-- An operation that names pairs whose `Fact` is known. -/
theorem named {o : Op} (ho : ∀ s r s', exec s o r = some s' → s' = s)
    (hsave : ∀ row, o ≠ .saveDatastoreCredentials row) {w : ConnectionWorld}
    (hn : ∀ r filespaceId datastoreId, Names ⟨pid, o, r⟩ filespaceId datastoreId →
      Fact w.hist filespaceId datastoreId)
    (hJ : J w.hist w.st.lucid) : wp Γ (Connection.ask o)
      (fun _ w' => J w'.hist w'.st.lucid ∧ w.hist <:+ w'.hist) w := by
  refine wp_await fun w₁ hr _ r w₂ ha => ?_
  obtain ⟨hs, hkeep⟩ := R.rely _ _ hr
  obtain ⟨hx, hh⟩ := R.act _ _ _ _ ha
  have hs₂ : w₁.hist <:+ w₂.hist := hh ▸ List.suffix_cons _ _
  have hJ₂ : J w₂.hist w₂.st.lucid := ho _ _ _ hx ▸ R.mono _ _ _ hs₂ (hkeep hJ)
  exact ⟨R.guar _ _ _ _ ha (fun _ => hJ₂) (fun _ _ hname => R.fact _ _ _ _ hs (hn _ _ _ hname)) hsave, hJ₂,
    hs.trans hs₂⟩

/-- A request, up to its page going out. -/
theorem respond {p : ConnectionProg Page} {Q : Except Exc Unit → ConnectionWorld → Prop} {w : ConnectionWorld}
    (hp : wp Γ p (fun x w' => (∃ e, x = .error e ∧ Q (.error e) w') ∨ ∃ page, x = .ok page ∧
      Done J Fact (.ok page) w') w)
    (hQ : ∀ x w', J w'.hist w'.st.lucid → Q x w') : wp Γ (p.bind fun page => Connection.ask (.respond page)) Q w := by
  refine wp_bind.mpr (wp_mono (fun x w' h => ?_) hp)
  rcases h with ⟨e, rfl, h⟩ | ⟨page, rfl, hJ, hform⟩
  · exact h
  · refine wp_mono (fun x w' h => hQ x w' h.1)
      (R.named (o := .respond page) (fun _ _ _ hx => (Option.some.inj hx).symm)
      (fun _ he => by cases he) (fun r fs id hn => ?_) hJ)
    cases hn with
    | form _ form _ hne => exact hform form rfl hne

theorem seq_plain {α : Type} {p : ConnectionProg α} {f : α → ConnectionProg Page} {w : ConnectionWorld}
    (hp : p.Uses Plain)
    (hJ : J w.hist w.st.lucid) (hf : ∀ a w', J w'.hist w'.st.lucid → w.hist <:+ w'.hist →
      wp Γ (f a) (Done J Fact) w') :
    wp Γ (p.bind f) (Done J Fact) w :=
  seq (wp_mono (fun _ _ h => ⟨h.1, fun _ _ => h.2⟩) (R.plain hp hJ)) hf

theorem seq_ask {o : Op} (ho : Plain o) {f : o.Ret → ConnectionProg Page} {w : ConnectionWorld}
    (hJ : J w.hist w.st.lucid)
    (hf : ∀ a w' h, J w'.hist w'.st.lucid → w'.hist = ⟨pid, o, .ok a⟩ :: h → w.hist <:+ h →
      wp Γ (f a) (Done J Fact) w') :
    wp Γ ((Connection.ask o).bind f) (Done J Fact) w := by
  refine seq (P := fun a w' => ∃ h, w'.hist = ⟨pid, o, .ok a⟩ :: h ∧ w.hist <:+ h) ?_
    fun a w' hJ ⟨h, hw', hs⟩ => hf a w' h hJ hw' hs
  exact wp_mono (fun x w' ⟨hJ, h⟩ => ⟨hJ, fun a he => he ▸ h⟩) (R.ask ho hJ)

theorem seq_read {f : Session → ConnectionProg Page} {w : ConnectionWorld} (hJ : J w.hist w.st.lucid)
    (hf : ∀ s w', J w'.hist w'.st.lucid → w.hist <:+ w'.hist → J w'.hist s.lucid → wp Γ (f s) (Done J Fact) w') :
    wp Γ (read.bind f) (Done J Fact) w :=
  seq (wp_mono (fun _ _ h => ⟨h.1, fun s he => And.intro h.2.1 (h.2.2 s he)⟩) (R.sync (fun _ _ _ h => h) hJ))
    fun s w' hJ' h => hf s w' hJ' h.1 h.2

theorem connect {datastore : String} {w : ConnectionWorld} (hJ : J w.hist w.st.lucid) :
    wp Γ (Connection.connect datastore) (Done J Fact) w := by
  refine wp_catching.mpr (wp_mono (fun x w' (h : Done J Fact x w') => ?_) (R.seq_read hJ fun s w₁ hJ₁ _ hs₁ => ?_))
  · cases x with
    | ok page => exact h
    | error e =>
      simp only []
      split
      · exact done_page h.1 (fun _ he => by cases he)
      · exact ⟨h.1, fun _ he => by cases he⟩
  cases hds : s.lucid.datastores.lookup datastore with
  | none => exact done_page hJ₁ (fun _ he => by cases he)
  | some ds =>
    simp only []
    split
    · exact done_page hJ₁ (fun _ he => by cases he)
    rename_i hne
    -- the pair is read in this segment, and named after the lookup
    have hfact : Fact w₁.hist (s.lucid.filespaceId.getD "") ds.id := by
      cases hfs : s.lucid.filespaceId with
      | none => exact absurd (by rw [hfs]; rfl) hne
      | some filespaceId => exact R.pair _ _ _ (datastore, ds) hs₁ hfs (mem_lookup hds)
    refine R.seq_plain (.await trivial) hJ₁ fun (existing : Bool) w₂ hJ₂ hs₂ => ?_
    split
    · refine seq (wp_mono (fun _ _ h => ⟨h.1, fun _ _ => trivial⟩) (R.sync (fun _ _ _ h => h) hJ₂))
        fun s w₃ hJ₃ _ => ?_
      refine R.seq_plain (plain_saveToken _) hJ₃ fun _ w₄ hJ₄ _ => ?_
      exact R.seq_plain (.await trivial) hJ₄ fun _ w₅ hJ₅ _ => done_page hJ₅ (fun _ he => by cases he)
    · refine R.seq_read hJ₂ fun s w₃ hJ₃ hs₃ _ => ⟨hJ₃, fun form he _ => ?_⟩
      cases he
      exact R.fact _ _ _ _ (hs₂.trans hs₃) hfact

theorem datastoreCredentialsModal {datastoreId : String} {w : ConnectionWorld} (hJ : J w.hist w.st.lucid) :
    wp Γ (Connection.datastoreCredentialsModal datastoreId) (Done J Fact) w := by
  refine R.seq_read hJ fun s w₁ hJ₁ _ hs₁ => ?_
  cases hds : s.lucid.datastore datastoreId with
  | none => exact done_page hJ₁ (fun _ he => by cases he)
  | some e =>
    obtain ⟨hmem, hid⟩ := datastore_mem hds
    refine ⟨hJ₁, fun form he hne => ?_⟩
    cases he
    change s.lucid.filespaceId.getD "" ≠ "" at hne
    show Fact _ (s.lucid.filespaceId.getD "") datastoreId
    cases hfs : s.lucid.filespaceId with
    | none => exact absurd (by rw [hfs]; rfl) hne
    | some filespaceId => exact hid ▸ R.pair _ _ _ e hs₁ hfs hmem

theorem datastoreInfo {datastoreId : String} {w : ConnectionWorld} (hJ : J w.hist w.st.lucid) :
    wp Γ (Connection.datastoreInfo datastoreId) (Done J Fact) w := by
  refine R.seq_read hJ fun s w₁ hJ₁ _ hs₁ => ?_
  split
  · rename_i dsName ds filespaceId hds hfs
    obtain ⟨hmem, hid⟩ := datastore_mem hds
    have hfact : Fact w₁.hist filespaceId datastoreId :=
      hid ▸ R.pair _ _ _ _ hs₁ (Option.filter_eq_some_iff.mp hfs).1 hmem
    refine seq (wp_mono (fun _ _ h => ⟨h.1, fun _ _ => trivial⟩)
      (R.named (o := .getDatastore s.token filespaceId datastoreId s.apiHost)
        (fun _ _ _ hx => (Option.some.inj hx).symm) (fun _ he => by cases he)
        (fun _ _ _ hn => by cases hn; exact hfact) hJ₁)) fun result w₂ hJ₂ _ => ?_
    cases result <;> exact done_page hJ₂ (fun _ he => by cases he)
  · exact done_page hJ₁ (fun _ he => by cases he)

theorem deleteDatastore {datastoreId : String} {w : ConnectionWorld} (hJ : J w.hist w.st.lucid) :
    wp Γ (Connection.deleteDatastore datastoreId) (Done J Fact) w := by
  have hrows : ∀ {w : ConnectionWorld} (page : List DatastoreRow → Page),
      (∀ rows form, page rows ≠ .credentialsModal form) →
      J w.hist w.st.lucid → wp Γ (read.bind fun s => (currentRows s.lucid.datastores).bind
        fun rows => .ret (page rows)) (Done J Fact) w :=
    fun page hp hJ => R.seq_read hJ fun s _ hJ _ _ => R.seq_plain (plain_currentRows _) hJ
      fun rows _ hJ _ => done_page hJ (hp rows)
  refine R.seq_read hJ fun s w₁ hJ₁ _ hs₁ => ?_
  split
  · rename_i dsName ds filespaceId hds hfs
    obtain ⟨hmem, hid⟩ := datastore_mem hds
    have hfact : Fact w₁.hist filespaceId datastoreId :=
      hid ▸ R.pair _ _ _ _ hs₁ (Option.filter_eq_some_iff.mp hfs).1 hmem
    refine seq (wp_mono (fun _ _ h => ⟨h.1, fun _ _ => trivial⟩)
      (R.named (o := .deleteDatastore s.token filespaceId datastoreId s.apiHost)
        (fun _ _ _ hx => (Option.some.inj hx).symm) (fun _ he => by cases he)
        (fun _ _ _ hn => by cases hn; exact hfact) hJ₁)) fun (result : String) w₂ hJ₂ _ => ?_
    split
    · exact hrows (fun rows => .datastoreList rows (some result) none) (fun _ _ he => by cases he) hJ₂
    refine seq (wp_mono (fun _ _ h => ⟨h.1, fun _ _ => trivial⟩)
      (R.sync (fun h s _ hJ => R.del h s.lucid dsName hJ) hJ₂))
      fun _ w₃ hJ₃ _ => ?_
    refine R.seq_plain (.await trivial) hJ₃ fun _ w₄ hJ₄ _ => ?_
    refine R.seq_plain (.await trivial) hJ₄ fun _ w₅ hJ₅ _ => ?_
    exact hrows (fun rows => .datastoreList rows none (some ("DataStore '" ++ dsName ++ "' deleted")))
      (fun _ _ he => by cases he) hJ₅
  · exact done_page hJ₁ (fun _ he => by cases he)

theorem fill {known : Datastore → Bool} {done pending : Lucid → Lucid} {datastores : List Datastore}
    {w : ConnectionWorld} (hadd : ∀ ds ∈ datastores, ∀ h l, w.hist <:+ h → J h l → J h (l.add ds))
    (hpending : ∀ h l, w.hist <:+ h → J h l → J h (pending l)) (hdone : ∀ h l, w.hist <:+ h → J h l → J h (done l))
    (hJ : J w.hist w.st.lucid) :
    wp Γ (Connection.fill known done pending datastores)
      (fun x w' => J w'.hist w'.st.lucid ∧ ∀ a, x = .ok a → w.hist <:+ w'.hist) w := by
  induction datastores generalizing pending w with
  | nil =>
    refine wp_bind.mpr (wp_mono (fun x w' ⟨hJ', hs, _⟩ => ?_)
      (R.sync (fun h s hs hJ => hdone h _ hs (hpending h _ hs hJ)) hJ))
    cases x with
    | ok s => exact ⟨hJ', fun _ _ => hs⟩
    | error e => exact ⟨hJ', fun _ he => by cases he⟩
  | cons ds rest ih =>
    have hnext : ∀ h l, w.hist <:+ h → J h l → J h (Lucid.add ds (pending l)) :=
      fun h l hs hJ => hadd ds List.mem_cons_self h _ hs (hpending h l hs hJ)
    unfold Connection.fill
    split
    · refine wp_bind.mpr (wp_mono (fun x w' h => ?_)
        (ih (fun d hd => hadd d (List.mem_cons_of_mem _ hd)) hnext hdone hJ))
      cases x with
      | ok a => exact ⟨h.1, fun _ _ => h.2 a rfl⟩
      | error e => exact ⟨h.1, fun _ he => by cases he⟩
    · refine wp_bind.mpr (wp_mono (fun x w₁ ⟨hJ₁, hs₁, _⟩ => ?_) (R.sync (fun h s => hnext h s.lucid) hJ))
      cases x with
      | error e => exact ⟨hJ₁, fun _ he => by cases he⟩
      | ok s => ?_
      refine wp_bind.mpr (wp_mono (fun x w₂ ⟨hJ₂, hs₂⟩ => ?_)
        (R.plain (p := Connection.ask (.getForDatastoreUser ds.id)) (.await trivial) hJ₁))
      cases x with
      | error e => exact ⟨hJ₂, fun _ he => by cases he⟩
      | ok hasCreds => ?_
      have hs := hs₁.trans hs₂
      refine wp_bind.mpr (wp_mono (fun x w' h => ?_)
        (@ih id _ (fun d hd h l hh => hadd d (List.mem_cons_of_mem _ hd) h l (hs.trans hh))
        (fun _ _ _ h => h) (fun h l hh => hdone h l (hs.trans hh)) hJ₂))
      cases x with
      | ok a => exact ⟨h.1, fun _ _ => hs.trans (h.2 a rfl)⟩
      | error e => exact ⟨h.1, fun _ he => by cases he⟩

end Rules

end Reading

end Connect.Web.Connection
