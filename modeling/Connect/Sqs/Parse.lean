/-
  Connect.Sqs.Parse — `SQSService.parse_s3_events` and `is_create_event`
  (services/sqs_service.py).

  The body of a message is JSON of any shape, and the code takes it apart with `in`,
  `.get`, a `for` and `unquote_plus`, each of which raises on a value of another type than
  it expects. Only a JSONDecodeError is caught, and then nothing was collected yet.
-/

import Connect.Json
import Connect.Url

namespace Connect.Sqs

open Json (LoadsError)

/-- What a piece of the code raises: the JSONDecodeError it catches, or anything else. -/
abbrev Parse := Except LoadsError

def typeError (text : String) : LoadsError := .raised text

def attributeError (v : Json) (name : String) : LoadsError :=
  .raised ("'" ++ v.typeName ++ "' object has no attribute '" ++ name ++ "'")

/-- `v == s`. -/
def isStr (s : String) : Json → Bool
  | .str t => t == s
  | _ => false

/-- `s in v`. -/
def pyIn (s : String) : Json → Parse Bool
  | .obj fields => .ok (fields.any (·.1 == s))
  | .arr items => .ok (items.any (isStr s))
  | .str t => .ok (containsChars s.toList t.toList)
  | v => .error (typeError ("argument of type '" ++ v.typeName ++ "' is not iterable"))

/-- `v.get(key, default)`. -/
def pyGet (v : Json) (key : String) (default : Json) : Parse Json :=
  match v with
  | .obj fields => .ok (Json.getD fields key default)
  | v => .error (attributeError v "get")

/-- The items of `for x in v`. -/
def pyIter : Json → Parse (List Json)
  | .arr items => .ok items
  | .obj fields => .ok (fields.map fun f => .str f.1)
  | .str s => .ok (s.toList.map fun c => .str (String.singleton c))
  | v => .error (typeError ("'" ++ v.typeName ++ "' object is not iterable"))

/-- `unquote_plus(v)`. -/
def pyUnquotePlus : Json → Parse String
  | .str s => .ok (unquotePlus s)
  | v => .error (attributeError v "replace")

structure S3Event where
  eventType : Json
  bucket : Json
  key : String
  size : Json
  eventTime : Json
  awsRegion : Json
  deriving Repr

/-- One record; other sources, test events and records without a key are left out. -/
def parseRecord (record : Json) : Parse (Option S3Event) := do
  if !isStr "aws:s3" (← pyGet record "eventSource" .null) then return none
  else do
    let eventName ← pyGet record "eventName" (.str "")
    let s3Info ← pyGet record "s3" (.obj [])
    let bucketInfo ← pyGet s3Info "bucket" (.obj [])
    let objectInfo ← pyGet s3Info "object" (.obj [])
    let objectKey ← pyUnquotePlus (← pyGet objectInfo "key" (.str ""))
    if isStr "s3:TestEvent" eventName || objectKey == "" then return none
    else
      return some
        { eventType := eventName
          bucket := ← pyGet bucketInfo "name" (.str "")
          key := objectKey
          size := ← pyGet objectInfo "size" .null
          eventTime := ← pyGet record "eventTime" .null
          awsRegion := ← pyGet record "awsRegion" .null }

/-- The records of a body, unwrapped from SNS. -/
def parseRecords (room : Nat) (body : String) : Parse (List S3Event) := do
  let data ← Json.loads room body
  let data ←
    if ← pyIn "Message" data then
      match ← pyGet data "Message" .null with
      | .str message => Json.loads room message
      | _ => pure data
    else pure data
  let records ← pyIter (← pyGet data "Records" (.arr []))
  records.filterMapM parseRecord

def parseS3Events (room : Nat) (messageBody : String) : Except Exc (List S3Event) :=
  match parseRecords room messageBody with
  | .ok events => .ok events
  | .error .decodeError => .ok []
  | .error (.raised text) => .error (.exception text)

def isCreateEvent (eventType : Json) : Bool :=
  ["ObjectCreated:Put", "ObjectCreated:Post", "ObjectCreated:Copy",
    "ObjectCreated:CompleteMultipartUpload"].any fun p =>
      isStr p eventType

/-- The create events of a body; none if it does not parse. -/
def createEvents (room : Nat) (body : String) : List S3Event :=
  match parseS3Events room body with
  | .ok events => events.filter fun event => isCreateEvent event.eventType
  | .error _ => []

example : parseS3Events 9 "[]" = .error (.exception "'list' object has no attribute 'get'") := by rfl

end Connect.Sqs
