/-
  Connect.Web.Session — a web process's `UserSession` (services/user_state.py) and the
  requests that save, delete and browse with the credentials of a datastore (main.py).

  Each process keeps a session a user, made on the user's first request there. It is filled
  from the tables once, by the first request that hydrates it (a browse, or the page that a
  delete answers with); a save or a delete also changes the session of the process that
  serves it, and no other. A request is one step: it reads and writes the tables and the
  session with nothing in between.

  The Back button's route is not among the requests: `browse_datastore_back` calls
  `browse_datastore` as a function and passes no database session, so it answers 500 on a
  process that has not hydrated the user's session, and browses like `browse_datastore` on
  one that has.
-/

import Connect.Data.Credentials
import Connect.Py

namespace Connect.Web

open Data Sql

/-! ## S3Service -/

/-- The arguments of `boto3.client("s3", ...)`; without keys the process's own credentials are used. -/
structure ClientKwargs where
  regionName : String
  endpointUrl : Option String
  keys : Option (String × String)
  deriving DecidableEq, Repr

structure S3Service where
  client : ClientKwargs
  deriving DecidableEq, Repr

def clientKwargs (accessKey secretKey region : String) (endpointUrl : Option String) : ClientKwargs where
  regionName := region
  endpointUrl := truthy endpointUrl
  keys := if accessKey != "" && secretKey != "" then some (accessKey, secretKey) else none

/-- `boto3Client`: whether boto3 makes a client of the arguments; it raises on a region or an
    endpoint it cannot use. -/
def S3Service.init (boto3Client : ClientKwargs → Bool) (accessKey secretKey region : String)
    (endpointUrl : Option String) :
    Option S3Service :=
  let client := clientKwargs accessKey secretKey region endpointUrl
  if boto3Client client then some ⟨client⟩ else none

/-! ## UserSession -/

/-- An entry of `datastore_credentials`. -/
structure CachedCredentials where
  datastoreId : String
  datastoreName : String
  filespaceId : String
  filespaceName : String
  bucketName : String
  region : Option String
  endpoint : Option String
  deriving DecidableEq, Repr

structure UserSession where
  token : String
  apiHost : String
  datastoreCredentials : String → Option CachedCredentials
  s3Services : String → Option S3Service
  hydrated : Bool

inductive WebError where
  | call (e : CallError)
  | unicodeEncode
  /-- `boto3.client` raised. -/
  | client
  deriving DecidableEq, Repr

def cached (v : Saved) : CachedCredentials :=
  ⟨v.datastoreId, v.datastoreName, v.filespaceId, v.filespaceName, v.bucketName, v.region, v.endpoint⟩

def getUserSetting (s : Tables) (userId : Uuid) (key : String) : Except WebError (Option String) :=
  (UserSettingsRepository.get s (some userId) key).mapError fun e => .call (.sql e)

/-- `s.encode("ascii")`. -/
def encodeAscii (s : String) : Option Bytes :=
  if s.toList.all (·.toNat < 128) then some (s.toList.map fun c => UInt8.ofNat c.toNat) else none

variable (cipher : Cipher) (boto3Client : ClientKwargs → Bool)

def decryptToken (ciphertext : String) : Except WebError String :=
  match encodeAscii ciphertext with
  | none => .error .unicodeEncode
  | some bytes =>
    match cipher.decryptSecret bytes with
    | none => .error (.call .invalidToken)
    | some token => .ok token

def loadLlToken (s : Tables) (userId : Uuid) : Except WebError (Option String) :=
  match getUserSetting s userId "ll_token_enc" with
  | .error e => .error e
  | .ok ciphertext =>
    match truthy ciphertext with
    | none => .ok none
    | some text => (decryptToken cipher text).map some

def listAllDatastoreCredentials (s : Tables) (userId : Uuid) : Except WebError (List CredentialDict) :=
  ((DatastoreCredentialsRepository.listForUser s (some userId)).mapM (credentialDict cipher)).mapError .call

def initS3ServiceFromKeys (st : UserSession) (row : CredentialDict) : Except WebError UserSession :=
  if row.accessKey = "" ∨ row.secretKey = "" then .ok st
  else
    match S3Service.init boto3Client row.accessKey row.secretKey
      ((truthy row.region).getD "us-east-1") row.endpoint with
    | none => .error .client
    | some service => .ok { st with s3Services := setAt st.s3Services row.datastoreId (some service) }

/-- The loop of `hydrate`; what it did stays done when a later row raises. -/
def takeRows : List CredentialDict → UserSession → Except WebError Unit × UserSession
  | [], st => (.ok (), st)
  | row :: rows, st =>
    let st := { st with
      datastoreCredentials := setAt st.datastoreCredentials row.datastoreId (some (cached row.toSaved)) }
    match initS3ServiceFromKeys boto3Client st row with
    | .error e => (.error e, st)
    | .ok st => takeRows rows st

def UserSession.hydrate (s : Tables) (userId : Uuid) (st : UserSession) : Except WebError Unit × UserSession :=
  if st.hydrated then (.ok (), st)
  else
    match getUserSetting s userId "api_host" with
    | .error e => (.error e, st)
    | .ok savedApiHost =>
      let st := { st with apiHost := (truthy savedApiHost).getD st.apiHost }
      match if st.token = "" then loadLlToken cipher s userId else .ok none with
      | .error e => (.error e, st)
      | .ok savedToken =>
        let st := { st with token := (truthy savedToken).getD st.token }
        match listAllDatastoreCredentials cipher s userId with
        | .error e => (.error e, st)
        | .ok rows =>
          match takeRows boto3Client rows st with
          | (.error e, st) => (.error e, st)
          | (.ok (), st) => (.ok (), { st with hydrated := true })

/-! ## Requests -/

inductive Request where
  /-- `reachable`: `head_bucket` goes through; `now` and `salt` are the server's. -/
  | save (v : Saved) (reachable : Bool) (now : Int) (salt : Nat)
  | delete (datastoreId : String)
  | browse (datastoreId keyPrefix : String)
  deriving DecidableEq, Repr

/-- A request of a user that a process serves. -/
structure Served where
  process : Nat
  userId : Uuid
  request : Request
  deriving DecidableEq, Repr

inductive Page where
  | browser
  | settings
  | connectionError (error : String)
  | failedToConnect
  /-- `list_objects` was called. -/
  | listed (service : S3Service) (bucket keyPrefix : String)
  /-- The route raised. -/
  | serverError
  deriving DecidableEq, Repr

structure World where
  tables : Tables
  sessions : Nat → Uuid → Option UserSession

variable (savedToken : Nat → Uuid → Option String)

/-- `get_session`; `load_from_db` reads the token the `services.secrets` of the process has for the user. -/
def World.getSession (w : World) (p : Nat) (u : Uuid) : UserSession :=
  (w.sessions p u).getD
    { token := (truthy (savedToken p u)).getD ""
      apiHost := ""
      datastoreCredentials := fun _ => none
      s3Services := fun _ => none
      hydrated := false }

def World.put (w : World) (p : Nat) (u : Uuid) (st : UserSession) : World :=
  { w with sessions := fun p' u' => if p' = p ∧ u' = u then some st else w.sessions p' u' }

def saveDatastoreCredentials (w : World) (p : Nat) (u : Uuid) (v : Saved) (reachable : Bool) (now : Int)
    (salt : Nat) :
    Page × World :=
  let st := w.getSession savedToken p u
  match S3Service.init boto3Client v.accessKey v.secretKey ((truthy v.region).getD "us-east-1")
    (truthy v.endpoint) with
  | none => (.failedToConnect, w.put p u st)
  | some service =>
    if reachable then
      match Data.saveDatastoreCredentials cipher now salt w.tables v (some u) with
      | (.error _, s) => (.failedToConnect, { w with tables := s }.put p u st)
      | (.ok _, s) =>
        (.browser, { w with tables := s }.put p u
          { st with
            datastoreCredentials := setAt st.datastoreCredentials v.datastoreId (some (cached v))
            s3Services := setAt st.s3Services v.datastoreId (some service) })
    else (.failedToConnect, w.put p u st)

/-- `tab_settings`; the page lists what the tables and the session hold. -/
def tabSettings (w : World) (p : Nat) (u : Uuid) (st : UserSession) : Page × World :=
  match st.hydrate cipher boto3Client w.tables u with
  | (.error _, st) => (.serverError, w.put p u st)
  | (.ok (), st) => (.settings, w.put p u st)

def deleteDatastoreCredentials (w : World) (p : Nat) (u : Uuid) (datastoreId : String) : Page × World :=
  let st := w.getSession savedToken p u
  match Data.deleteDatastoreCredentials w.tables datastoreId (some u) with
  | (.error _, s) => (.serverError, { w with tables := s }.put p u st)
  | (.ok deleted, s) =>
    let popped :=
      { st with
        datastoreCredentials := setAt st.datastoreCredentials datastoreId none
        s3Services := setAt st.s3Services datastoreId none }
    tabSettings cipher boto3Client { w with tables := s } p u (if deleted then popped else st)

def browseDatastore (w : World) (p : Nat) (u : Uuid) (datastoreId keyPrefix : String) : Page × World :=
  match (w.getSession savedToken p u).hydrate cipher boto3Client w.tables u with
  | (.error _, st) => (.serverError, w.put p u st)
  | (.ok (), st) =>
    match st.datastoreCredentials datastoreId with
    | none =>
      (.connectionError "DataStore credentials not found. Please add credentials in Settings.", w.put p u st)
    | some cred =>
      match st.s3Services datastoreId with
      | none => (.connectionError "S3 service not initialized for this DataStore", w.put p u st)
      | some service => (.listed service cred.bucketName keyPrefix, w.put p u st)

def serve (w : World) (r : Served) : Page × World :=
  match r.request with
  | .save v reachable now salt =>
    saveDatastoreCredentials cipher boto3Client savedToken w r.process r.userId v reachable now salt
  | .delete datastoreId => deleteDatastoreCredentials cipher boto3Client savedToken w r.process r.userId datastoreId
  | .browse datastoreId keyPrefix =>
    browseDatastore cipher boto3Client savedToken w r.process r.userId datastoreId keyPrefix

/-- The users there are and their settings; a LucidLink token among them was encrypted under the server's key. -/
structure Start where
  users : List Uuid
  settings : Table UserSetting.pk
  tokens : ∀ r ∈ settings.rows, r.key = "ll_token_enc" → r.value ≠ "" →
    ∃ token, decryptToken cipher r.value = .ok token

variable {cipher}

/-- No credentials yet, and no process with a session. -/
def Start.world (start : Start cipher) : World where
  tables := { fresh start.users with userSettings := start.settings }
  sessions _ _ := none

/-- The world after some requests, the newest first. -/
def run (start : Start cipher) : List Served → World
  | [] => start.world
  | r :: before => (serve cipher boto3Client savedToken (run start before) r).2

end Connect.Web
