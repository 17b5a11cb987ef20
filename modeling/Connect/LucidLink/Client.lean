/-
  Connect.LucidLink.Client — `LucidLinkClient` (services/lucidlink.py): `get_id_by_path`,
  `create_folder` and `ensure_structure`.

  A request is one operation, and its answer any response or exception. Of a response the
  code reads the status, the text, and what `resp.json()` gives or raises. An id is
  whatever JSON stands in the body under "id"; None is JSON null.
-/

import Connect.Await.Exec
import Connect.Json
import Connect.Path

namespace Connect.LucidLink

open Await

/-- What `configure` leaves in the client; the token comes without its `Bearer` prefix. -/
structure Client where
  token : String
  baseUrl : String
  deriving DecidableEq, Repr

def Client.configure (apiHost token filespaceId : String) : Client :=
  ⟨token, apiHost ++ "/filespaces/" ++ filespaceId⟩

def Client.getHeaders (c : Client) : List (String × String) :=
  [("Authorization", "Bearer " ++ c.token), ("Content-Type", "application/json"), ("accept", "application/json")]

structure Response where
  statusCode : Nat
  text : String
  /-- `resp.json()`, or the text of what it raises. -/
  json : Except String Json

inductive HttpOp where
  | get (url : String) (headers : List (String × String)) (path : String)
  | post (url : String) (headers : List (String × String)) (payload : List (String × Json))
  /-- `asyncio.sleep`, in ms. -/
  | sleep (ms : Nat)

abbrev HttpOp.Ret : HttpOp → Type
  | .get _ _ _ | .post _ _ _ => Response
  | .sleep _ => Unit

abbrev httpSig : Sig := ⟨HttpOp, HttpOp.Ret⟩

abbrev HttpProg := Prog httpSig Exc

/-! ## Bodies -/

/-- What reading a body raises comes as an `Exception` with its text. -/
abbrev Read := Except String

def attributeError (v : Json) : String := "'" ++ v.typeName ++ "' object has no attribute 'get'"

/-- `v.get(key, default)`. -/
def get (v : Json) (key : String) (default : Json) : Read Json :=
  match v with
  | .obj fields => .ok (Json.getD fields key default)
  | v => .error (attributeError v)

/-- `"data" in v`. -/
def hasData : Json → Read Bool
  | .obj fields => .ok (fields.any (·.1 == "data"))
  | .arr items => .ok (items.any fun
    | .str s => s == "data"
    | _ => false)
  | .str s => .ok (containsChars "data".toList s.toList)
  | v => .error ("argument of type '" ++ v.typeName ++ "' is not iterable")

/-- `v["data"]`, where it is in `v`. -/
def data : Json → Read Json
  | .obj fields => .ok (Json.getD fields "data" .null)
  | .arr _ => .error "list indices must be integers or slices, not str"
  | _ => .error "string indices must be integers, not 'str'"

/-- The id in the body of a resolve. -/
def entryId (body : Json) : Read Json := do
  if ← hasData body then get (← data body) "id" .null
  else get body "id" .null

/-- The id in the body of a create. -/
def folderId (body : Json) : Read Json := do
  let id ← get body "id" .null
  if id.truthy then return id
  else get (← get body "data" (.obj [])) "id" .null

def isConflict : Json → Bool
  | .str s => s == "CONFLICT"
  | _ => false

/-! ## Requests -/

def send (url : String) (headers : List (String × String)) (path : String) : HttpProg Response :=
  @Prog.await httpSig Exc (HttpOp.get url headers path)

def post (url : String) (headers : List (String × String)) (payload : List (String × Json)) : HttpProg Response :=
  @Prog.await httpSig Exc (HttpOp.post url headers payload)

def sleep (ms : Nat) : HttpProg Unit := @Prog.await httpSig Exc (HttpOp.sleep ms)

def raising {α : Type} : Read α → HttpProg α
  | .ok a => return a
  | .error text => .raise (.exception text)

/-- `except Exception as e: return f(e)`. -/
def onException {α : Type} (f : Exc → α) (e : Exc) : HttpProg α := if e.isException then return f e else .raise e

def resolved (resp : Response) : Read Json :=
  if resp.statusCode = 200 then resp.json.bind entryId else .ok .null

def getIdByPath (c : Client) (path : String) : HttpProg Json :=
  if c.baseUrl = "" then return .null
  else (do
    let resp ← send (c.baseUrl ++ "/entries/resolve") c.getHeaders path
    raising (resolved resp) : HttpProg Json).catching (onException fun _ => .null)

def folderPayload (name : String) (parentId : Json) : List (String × Json) :=
  [("name", .str name), ("type", .str "dir")] ++ if parentId.truthy then [("parentId", parentId)] else []

/-- The id and the error message. -/
def created (resp : Response) : Read (Json × String) :=
  if resp.statusCode = 200 ∨ resp.statusCode = 201 then (resp.json.bind folderId).map fun id => (id, "")
  else if resp.statusCode = 409 then .ok (.str "CONFLICT", "")
  else .ok (.null, "HTTP " ++ toString resp.statusCode ++ ": " ++ resp.text)

def createFolder (c : Client) (name : String) (parentId : Json) : HttpProg (Json × String) :=
  if c.baseUrl = "" then return (.null, "No base URL configured")
  else (do
    let resp ← post (c.baseUrl ++ "/entries") c.getHeaders (folderPayload name parentId)
    raising (created resp) : HttpProg (Json × String)).catching (onException fun e => (.null, e.text))

/-! ## ensure_structure -/

/-- The folders of a key; a key that does not end with a slash has a filename to pop. -/
def folderParts (fullKey : String) : Read (List String) :=
  let parts := Path.named (Path.split fullKey)
  if Path.endsSlash fullKey then .ok parts
  else if parts = [] then .error "pop from empty list"
  else .ok parts.dropLast

/-- Only the empty key has no filename to pop; of any other key, all names but the last count. -/
theorem folderParts_eq {fullKey : String} (h : fullKey ≠ "") :
    folderParts fullKey = .ok (Path.named (Path.split fullKey).dropLast) := by
  obtain ⟨base, hsplit, hbase⟩ := Path.split_last fullKey
  generalize (Path.split fullKey).dropLast = front at hsplit
  rw [folderParts, hsplit, Path.named_append]
  by_cases hend : Path.endsSlash fullKey = true
  · rw [if_pos hend, hbase.mpr (Or.inr hend), Path.named_empty]
    exact congrArg Except.ok (List.append_nil _)
  · have hne : base ≠ "" := fun he => (hbase.mp he).elim h hend
    have hn : Path.named [base] = [base] := Path.named_self.mpr (by simpa using hne)
    rw [if_neg hend, hn, if_neg (by simp), List.dropLast_concat]

structure Tried where
  /-- The id the segment was found or made under; none when no attempt succeeded. -/
  id : Option Json
  lastError : String

/-- `attempts` more rounds of `for attempt in range(3)`. -/
def tryFolder (c : Client) (folder checkPath : String) (currId : Json) : Nat → String → HttpProg Tried
  | 0, lastError => return ⟨none, lastError⟩
  | attempts + 1, lastError => do
    let eid ← getIdByPath c checkPath
    if eid.truthy then return ⟨some eid, lastError⟩
    else do
      let made ← createFolder c folder currId
      if isConflict made.1 then do
        sleep 200
        tryFolder c folder checkPath currId attempts lastError
      else if made.1.truthy then return ⟨some made.1, lastError⟩
      else do
        sleep 500
        tryFolder c folder checkPath currId attempts
          (if made.2 = "" then "Failed to create folder: " ++ folder else made.2)

def ensureFolders (c : Client) : List String → String → Json → String → HttpProg (Bool × String)
  | [], _, _, _ => return (true, "")
  | folder :: rest, checkPath, currId, lastError => do
    let checkPath := checkPath ++ "/" ++ folder
    let tried ← tryFolder c folder checkPath currId 3 lastError
    match tried.id with
    | none => return (false, "Failed to create " ++ checkPath ++ ": " ++ tried.lastError)
    | some id => ensureFolders c rest checkPath id tried.lastError

def ensureParts (c : Client) (parts : List String) : HttpProg (Bool × String) :=
  if parts = [] then return (true, "")
  else do
    let rootId ← getIdByPath c "/"
    if rootId.truthy then ensureFolders c parts "" rootId ""
    else return (false, "Could not resolve root folder ID")

def ensureStructure (c : Client) (fullKey : String) : HttpProg (Bool × String) := do
  let parts ← raising (folderParts fullKey)
  ensureParts c parts

/-! ## How long a call is -/

section Within

variable (c : Client)

theorem within_raising {α : Type} {n : Nat} (r : Read α) : (raising r).Within n := by
  cases r <;> trivial

theorem within_onException {α : Type} {n : Nat} (f : Exc → α) (e : Exc) : (onException f e).Within n := by
  unfold onException
  split <;> trivial

theorem within_getIdByPath (path : String) : (getIdByPath c path).Within 1 := by
  unfold getIdByPath
  split
  · trivial
  · exact (Prog.Within.bind (m := 0) (.await _) fun _ => within_raising _).catching (m := 0)
      fun _ => within_onException _ _

theorem within_createFolder (name : String) (parentId : Json) : (createFolder c name parentId).Within 1 := by
  unfold createFolder
  split
  · trivial
  · exact (Prog.Within.bind (m := 0) (.await _) fun _ => within_raising _).catching (m := 0)
      fun _ => within_onException _ _

/-- An attempt is a resolve, a create and a pause. -/
theorem within_tryFolder (folder checkPath : String) (currId : Json) (attempts : Nat) (lastError : String) :
    (tryFolder c folder checkPath currId attempts lastError).Within (3 * attempts) := by
  induction attempts generalizing lastError with
  | zero => trivial
  | succ n ih =>
    have hpause : ∀ ms message, ((sleep ms).bind
        fun _ => tryFolder c folder checkPath currId n message).Within (1 + 3 * n) :=
      fun _ message => .bind (.await _) fun _ => ih message
    refine Prog.Within.mono (by omega)
      (Prog.Within.bind (n := 1) (m := 1 + (1 + 3 * n)) (within_getIdByPath c checkPath) fun eid => ?_)
    split
    · trivial
    · refine .bind (within_createFolder c folder currId) fun made => ?_
      split
      · exact hpause _ _
      · split
        · trivial
        · exact hpause _ _

theorem within_ensureFolders (names : List String) (checkPath : String) (currId : Json) (lastError : String) :
    (ensureFolders c names checkPath currId lastError).Within (9 * names.length) := by
  induction names generalizing checkPath currId lastError with
  | nil => trivial
  | cons name names ih =>
    refine Prog.Within.mono (by rw [List.length_cons]; omega)
      (Prog.Within.bind (n := 9) (m := 9 * names.length) (within_tryFolder c name _ currId 3 lastError)
        fun tried => ?_)
    cases tried.id with
    | none => trivial
    | some id => exact ih _ id tried.lastError

theorem within_ensureStructure (fullKey : String) : ∃ n, (ensureStructure c fullKey).Within n := by
  unfold ensureStructure
  cases folderParts fullKey with
  | error text => exact ⟨0, trivial⟩
  | ok names =>
    refine ⟨1 + 9 * names.length, ?_⟩
    show (ensureParts c names).Within _
    unfold ensureParts
    split
    · trivial
    · refine .bind (within_getIdByPath c "/") fun rootId => ?_
      split
      · exact within_ensureFolders c names "" rootId ""
      · trivial

end Within

end Connect.LucidLink
