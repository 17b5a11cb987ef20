/-
  Connect.LucidLink.Meaning — `LucidLinkClient.import_file` (services/lucidlink.py), the
  route `/api/import/file` (main.py), and what the code and text of an import are taken for.

  Three callers read the pair that `import_file` returns: the folder job counts it
  (`Worker.outcomeOf`), the event processor writes it to the event (`Sqs.importOutcome`),
  the route logs it (`importLine`). They agree on a pair exactly when a 400 or a 409 comes
  with a text that says the file already exists (`one_meaning_iff`). For any other text
  the job and the route take a 409 for a file that is there, the route a 400 as well, and
  the event processor takes both for failures.

  What httpx knows of an exception's class and of a body is a parameter. Closing the
  client at the end of the route is left out.
-/

import Connect.LucidLink.Sound
import Connect.Sqs.Poller
import Connect.Web.Session
import Connect.Worker.Batches

namespace Connect.LucidLink

open Await
open Sqs (EventStatus importOutcome)
open Web (CachedCredentials)
open Worker (ImportOutcome outcomeOf)

/-! ## import_file -/

structure Httpx where
  /-- `isinstance(e, httpx.TimeoutException)`. -/
  isTimeout : Exc → Bool
  isConnectError : Exc → Bool
  /-- `type(e).__name__`. -/
  typeName : Exc → String
  /-- `resp.text`, or what reading it raises. -/
  text : Response → Read String

def errorMsg (httpx : Httpx) (resp : Response) : String :=
  if 400 ≤ resp.statusCode then
    match httpx.text resp with
    | .ok text => if text ≠ "" then pyTake 500 text else s!"HTTP {resp.statusCode} (no body)"
    | .error _ => s!"HTTP {resp.statusCode}"
  else ""

def importPayload (datastoreId s3Key llPath : String) : List (String × Json) :=
  [("path", .str llPath), ("kind", .str "SingleObjectFile"), ("dataStoreId", .str datastoreId),
    ("singleObjectFileParams", .obj [("objectId", .str s3Key)])]

/-- The three handlers. -/
def importRaised (httpx : Httpx) (e : Exc) : Nat × String :=
  if httpx.isTimeout e then (500, "Request timeout")
  else if httpx.isConnectError e then (500, s!"Connection error: {e.text}")
  else (500, s!"Exception: {httpx.typeName e}: {e.text}")

def importFile (httpx : Httpx) (c : Client) (datastoreId s3Key llPath : String) : HttpProg (Nat × String) :=
  if c.baseUrl = "" then return (500, "No base URL configured")
  else if datastoreId = "" then return (500, "No datastore ID configured")
  else (do
    let resp ← post (c.baseUrl ++ "/external/entries") c.getHeaders (importPayload datastoreId s3Key llPath)
    return (resp.statusCode, errorMsg httpx resp) :
      HttpProg (Nat × String)).catching (onException (importRaised httpx))

/-! ## /api/import/file -/

inductive RouteLine where
  | importing (key : String)
  | success (name : String)
  | alreadyExists (name : String)
  | error (code : Nat) (name errorMsg : String)
  | noStructure (key structureError : String)
  | exception (text : String)
  deriving DecidableEq, Repr

def RouteLine.text : RouteLine → String
  | .importing key => s!"Importing: {key}"
  | .success name => s!"Success: {name}"
  | .alreadyExists name => s!"Already exists: {name}"
  | .error code name errorMsg => s!"Error ({code}): {name} - {errorMsg}"
  | .noStructure key structureError => s!"Failed to create folder structure for: {key} - {structureError}"
  | .exception text => s!"Exception: {text}"

inductive RouteReply where
  | complete
  | error (message : String)
  deriving DecidableEq, Repr

/-- `key.split('/')[-1]`. -/
def fileName (key : String) : String := (Path.split key).getLast (Path.split_ne_nil key)

def importLine (key : String) : Nat × String → RouteLine
  | (code, errorMsg) =>
    if code = 200 ∨ code = 201 then .success (fileName key)
    else if code = 400 ∨ code = 409 then .alreadyExists (fileName key)
    else .error code (fileName key) errorMsg

def importInto (httpx : Httpx) (c : Client) (datastoreId key llPath : String) : HttpProg RouteLine := do
  match ← ensureStructure c llPath with
  | (true, _) => importLine key <$> importFile httpx c datastoreId key llPath
  | (false, structureError) => return .noStructure key structureError

/-- What the hydrated session gives the route; `llHost` is the default of LL_API_HOST. -/
structure RouteState where
  llHost : String
  apiHost : String
  token : String
  cred : Option CachedCredentials

def RouteState.client (st : RouteState) (filespaceId : String) : Client :=
  .configure (if st.apiHost = "" then st.llHost else st.apiHost) st.token filespaceId

/-- The `try` of the route. -/
def routeBody (httpx : Httpx) (st : RouteState) (key datastoreId : String) : HttpProg RouteLine :=
  match st.cred with
  | none => .raise (.exception "DataStore credentials not found")
  | some cred =>
    if cred.bucketName = "" then .raise (.exception "No bucket specified")
    else importInto httpx (st.client cred.filespaceId) datastoreId key ("/" ++ cred.bucketName ++ "/" ++ key)

/-- The lines it logs, and its reply. -/
def importFileRoute (httpx : Httpx) (st : RouteState) (key datastoreId : String) :
    HttpProg (List RouteLine × RouteReply) :=
  (do
    let line ← routeBody httpx st key datastoreId
    return ([.importing key, line], .complete) : HttpProg (List RouteLine × RouteReply)).catching
    (onException fun e => ([.importing key, .exception e.text], .error e.text))

/-! ## What can be returned -/

section ImportReturns

variable {httpx : Httpx} {c : Client} {datastoreId key llPath : String}

/-- Without a configuration it says so; otherwise the pair is made of the response or of the exception. -/
inductive ImportReturns (httpx : Httpx) (c : Client) (datastoreId : String) : Nat × String → Prop
  | noBase : c.baseUrl = "" → ImportReturns httpx c datastoreId (500, "No base URL configured")
  | noDatastore : c.baseUrl ≠ "" → datastoreId = "" →
      ImportReturns httpx c datastoreId (500, "No datastore ID configured")
  | response (resp : Response) : c.baseUrl ≠ "" → datastoreId ≠ "" →
      ImportReturns httpx c datastoreId (resp.statusCode, errorMsg httpx resp)
  | raised (e : Exc) : c.baseUrl ≠ "" → datastoreId ≠ "" → e.isException = true →
      ImportReturns httpx c datastoreId (importRaised httpx e)

theorem plays_importFile {pair : Nat × String} :
    (∃ calls, Plays (importFile httpx c datastoreId key llPath) calls (.ok pair)) ↔
    ImportReturns httpx c datastoreId pair := by
  unfold importFile
  split
  · rename_i hbase
    constructor
    · intro h
      obtain ⟨_, _, hp, _⟩ := h
      cases hp
      exact .noBase hbase
    · intro h
      cases h with
      | noBase => exact ⟨[], rfl, rfl, rfl⟩
      | noDatastore h | response _ h | raised _ h => exact absurd hbase h
  · rename_i hbase
    split
    · rename_i hdatastore
      constructor
      · intro h
        obtain ⟨_, _, hp, _⟩ := h
        cases hp
        exact .noDatastore hbase hdatastore
      · intro h
        cases h with
        | noDatastore => exact ⟨[], rfl, rfl, rfl⟩
        | noBase h => exact absurd h hbase
        | response _ _ h | raised _ _ h => exact absurd hdatastore h
    · rename_i hdatastore
      constructor
      · intro h
        obtain ⟨calls, _, r, _, rest, _, _, _, hk⟩ := h
        rcases r with e | resp
        · have hk : Plays (onException (importRaised httpx) e) rest (.ok pair) := hk
          unfold onException at hk
          split at hk
          · rename_i he
            obtain ⟨_, hp, _⟩ := hk
            cases hp
            exact .raised e hbase hdatastore he
          · cases hk.2.1
        · obtain ⟨_, hp, _⟩ := hk
          cases hp
          exact .response resp hbase hdatastore
      · intro h
        cases h with
        | noBase h => exact absurd h hbase
        | noDatastore _ h => exact absurd h hdatastore
        | response resp => exact ⟨_, (), .ok resp, (), [], rfl, rfl, rfl, rfl, rfl, rfl⟩
        | raised e _ _ he =>
          refine ⟨_, (), .error e, (), [], rfl, rfl, rfl, ?_⟩
          show Plays (onException (importRaised httpx) e) [] _
          rw [onException, if_pos he]
          exact ⟨rfl, rfl, rfl⟩

end ImportReturns

/-! ## What the callers take a pair for -/

/-- A status that an import ends in. -/
def statusOutcome : EventStatus → Option ImportOutcome
  | .completed => some .imported
  | .skipped => some .existing
  | .failed => some .failed
  | .pending | .processing => none

/-- A line that tells how an import ended. -/
def RouteLine.outcome : RouteLine → Option ImportOutcome
  | .success _ => some .imported
  | .alreadyExists _ => some .existing
  | .error _ _ _ => some .failed
  | .importing _ | .noStructure _ _ | .exception _ => none

/-- Job, event processor and route take the pair for the same. -/
def OneMeaning (key : String) (pair : Nat × String) : Prop :=
  statusOutcome (importOutcome pair.1 pair.2).1 = some (outcomeOf (.ok pair)) ∧
    (importLine key pair).outcome = some (outcomeOf (.ok pair))

theorem eventOutcome_eq (code : Nat) (errorMsg : String) :
    statusOutcome (importOutcome code errorMsg).1 =
      some (if code = 200 ∨ code = 201 then .imported
        else if (code = 400 ∨ code = 409) ∧ inLower "already exists" errorMsg = true then .existing
        else .failed) := by
  unfold importOutcome
  split
  · rfl
  · split <;> rfl

theorem routeOutcome_eq (key : String) (code : Nat) (errorMsg : String) :
    (importLine key (code, errorMsg)).outcome =
      some (if code = 200 ∨ code = 201 then .imported else if code = 400 ∨
        code = 409 then .existing else .failed) := by
  simp only [importLine]
  split
  · rfl
  · split <;> rfl

/-- The three agree when a 400 or a 409 says that the file already exists, and on every other code. -/
theorem one_meaning_iff (key : String) (code : Nat) (errorMsg : String) :
    OneMeaning key (code, errorMsg) ↔ (code = 400 ∨ code = 409 → inLower "already exists" errorMsg = true) := by
  unfold OneMeaning
  rw [eventOutcome_eq, routeOutcome_eq, Option.some_inj, Option.some_inj, outcomeOf]
  by_cases hok : code = 200 ∨ code = 201
  · have hother : ¬ (code = 400 ∨ code = 409) := by omega
    simp [hok, hother]
  · by_cases hsays : inLower "already exists" errorMsg = true
    · by_cases h400 : code = 400 <;> by_cases h409 : code = 409 <;> simp [hok, hsays, h400, h409]
    · by_cases h400 : code = 400 <;> by_cases h409 : code = 409 <;> simp [hok, hsays, h400, h409]

/-! ### Two refusals -/

/-- An httpx that reads every body. -/
def plainHttpx : Httpx := ⟨fun _ => false, fun _ => false, fun _ => "Exception", fun resp => .ok resp.text⟩

def plainClient : Client := ⟨"token", "https://host/filespaces/fs"⟩

/-- A 409 that names another conflict is a duplicate to the job and the route, and a failure to
    the event processor; a 400 that names a bad request is a duplicate to the route alone. -/
theorem meanings_differ :
    ((∃ calls, Plays (importFile plainHttpx plainClient "ds" "k" "/b/k") calls (.ok (409, "Conflict"))) ∧
      outcomeOf (.ok (409, "Conflict")) = .existing ∧ statusOutcome (importOutcome 409 "Conflict").1 = some .failed ∧
      (importLine "k" (409, "Conflict")).outcome = some .existing) ∧
    (∃ calls, Plays (importFile plainHttpx plainClient "ds" "k" "/b/k") calls (.ok (400, "Bad request"))) ∧
      outcomeOf (.ok (400, "Bad request")) = .failed ∧
      statusOutcome (importOutcome 400 "Bad request").1 = some .failed ∧
      (importLine "k" (400, "Bad request")).outcome = some .existing := by
  have hconflict : (409, "Conflict") = ((409 : Nat), errorMsg plainHttpx ⟨409, "Conflict", .ok .null⟩) := by decide
  have hrequest : (400, "Bad request") = ((400 : Nat), errorMsg plainHttpx ⟨400, "Bad request", .ok .null⟩) := by
    decide
  refine ⟨⟨plays_importFile.mpr ?_, by decide, by decide, by decide⟩, plays_importFile.mpr ?_,
    by decide, by decide, by decide⟩
  · rw [hconflict]
    exact .response ⟨409, "Conflict", .ok .null⟩ (by decide) (by decide)
  · rw [hrequest]
    exact .response ⟨400, "Bad request", .ok .null⟩ (by decide) (by decide)

/-! ### The line of a run -/

section Route

variable {httpx : Httpx} {st : RouteState} {key datastoreId : String} {calls : List HttpCall}

theorem plays_importInto {c : Client} {llPath : String} {line : RouteLine} {o : ImportOutcome}
    (h : Plays (importInto httpx c datastoreId key llPath) calls (.ok line)) (ho : line.outcome = some o) :
    ∃ pair, ImportReturns httpx c datastoreId pair ∧ line = importLine key pair := by
  obtain ⟨⟨made, structureError⟩, _, first, rest, _, _, h⟩ := exec_bind_ok (fun _ => rfl) h
  cases made with
  | false =>
    obtain ⟨_, he, _⟩ := h
    cases he
    cases ho
  | true =>
    obtain ⟨pair, _, calls', _, _, himport, hret⟩ := exec_bind_ok (fun _ => rfl) h
    obtain ⟨_, he, _⟩ := hret
    cases he
    exact ⟨pair, plays_importFile.mp ⟨calls', himport⟩, rfl⟩

/-- A line of the route that tells how the import ended is the one for what `import_file` returned. -/
theorem route_logs {lines : List RouteLine} {reply : RouteReply} {line : RouteLine} {o : ImportOutcome}
    (h : Plays (importFileRoute httpx st key datastoreId) calls (.ok (lines, reply))) (hl : line ∈ lines)
    (ho : line.outcome = some o) :
    ∃ cred pair, st.cred = some cred ∧ ImportReturns httpx (st.client cred.filespaceId) datastoreId pair ∧
    line = importLine key pair := by
  rcases exec_catching (fun _ => rfl) h with ⟨_, he, hp⟩ | ⟨e, _, _, rest, _, _, hp⟩
  · cases he
    obtain ⟨last, _, calls', _, _, hbody, hret⟩ := exec_bind_ok (fun _ => rfl) hp
    obtain ⟨_, he, _⟩ := hret
    cases he
    simp only [List.mem_cons, List.not_mem_nil, or_false] at hl
    rcases hl with rfl | rfl
    · cases ho
    · unfold routeBody at hbody
      split at hbody
      · cases hbody.2.1
      · rename_i cred hcred
        split at hbody
        · cases hbody.2.1
        · obtain ⟨pair, hpair, hline⟩ := plays_importInto hbody ho
          exact ⟨cred, pair, hcred, hpair, hline⟩
  · unfold onException at hp
    split at hp
    · obtain ⟨_, he, _⟩ := hp
      cases he
      simp only [List.mem_cons, List.not_mem_nil, or_false] at hl
      rcases hl with rfl | rfl <;> cases ho
    · cases hp.2.1

end Route

end Connect.LucidLink
