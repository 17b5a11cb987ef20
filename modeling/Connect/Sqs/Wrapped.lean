/-
  Connect.Sqs.Wrapped — what `parse_s3_events` makes of a notification.

  `created` says it on the notification itself: the records of S3 that are no test events
  and name a key, in their order, each with its six fields and their defaults.
  `sns_transparent`: for every notification of the right types and every text that Python
  reads as it, the parser gives that list, for the text itself and for the envelope of an
  SNS topic that has the text as its message.
-/

import Connect.Json.Dumps
import Connect.Sqs.SameImports

namespace Connect.Sqs

/-! ## The notification -/

/-- `v.get(key, default)` on an object. -/
def field (v : Json) (key : String) (default : Json) : Json :=
  match v with
  | .obj fields => Json.getD fields key default
  | _ => default

def Json.IsObj (v : Json) : Prop := ∃ fields, v = .obj fields

def Json.IsStr (v : Json) : Prop := ∃ s, v = .str s

def s3Of (record : Json) : Json := field record "s3" (.obj [])
def bucketOf (record : Json) : Json := field (s3Of record) "bucket" (.obj [])
def objectOf (record : Json) : Json := field (s3Of record) "object" (.obj [])

/-- What is there under "s3", "bucket" and "object" is an object, under "key" a string. -/
structure WellTyped (record : Json) : Prop where
  isObj : Json.IsObj record
  s3 : Json.IsObj (s3Of record)
  bucket : Json.IsObj (bucketOf record)
  object : Json.IsObj (objectOf record)
  key : Json.IsStr (field (objectOf record) "key" (.str ""))

/-- The object of the notification, with its records. -/
structure Notification (fields : List (String × Json)) (records : List Json) : Prop where
  direct : fields.any (·.1 == "Message") = false
  listed : Json.getD fields "Records" (.arr []) = .arr records
  wellTyped : ∀ record ∈ records, WellTyped record

def decodedKey (record : Json) : String :=
  match field (objectOf record) "key" (.str "") with
  | .str s => unquotePlus s
  | _ => ""

def wanted (record : Json) : Bool :=
  isStr "aws:s3" (field record "eventSource" .null) &&
    !isStr "s3:TestEvent" (field record "eventName" (.str "")) && decodedKey record != ""

def eventOf (record : Json) : S3Event where
  eventType := field record "eventName" (.str "")
  bucket := field (bucketOf record) "name" (.str "")
  key := decodedKey record
  size := field (objectOf record) "size" .null
  eventTime := field record "eventTime" .null
  awsRegion := field record "awsRegion" .null

def created (records : List Json) : List S3Event := (records.filter wanted).map eventOf

/-! ## The parser -/

theorem pyGet_field {v : Json} (h : Json.IsObj v) (key : String) (default : Json) :
    pyGet v key default = .ok (field v key default) := by
  obtain ⟨fields, rfl⟩ := h
  rfl

theorem parseRecord_wanted {record : Json} (h : WellTyped record) :
    parseRecord record = .ok (if wanted record then some (eventOf record) else none) := by
  obtain ⟨encoded, hkey⟩ := h.key
  have hdecoded : decodedKey record = unquotePlus encoded := by simp [decodedKey, hkey]
  unfold parseRecord
  simp only [pyGet_field h.isObj, bind, Except.bind, pure, Except.pure]
  by_cases hsource : isStr "aws:s3" (field record "eventSource" .null) = true
  · have hs3 := pyGet_field h.s3
    have hbucket := pyGet_field h.bucket
    have hobject := pyGet_field h.object
    simp only [s3Of, bucketOf, objectOf] at hs3 hbucket hobject hkey
    simp only [hsource, hs3, hbucket, hobject, hkey, pyUnquotePlus, Bool.not_true, Bool.false_eq_true, if_false]
    by_cases hskip : isStr "s3:TestEvent" (field record "eventName" (.str "")) = true
    · simp [wanted, hskip]
    · by_cases hempty : unquotePlus encoded = ""
      · simp [wanted, hdecoded, hempty]
      · simp [wanted, hsource, hskip, hdecoded, hempty, eventOf, bucketOf, objectOf, s3Of]
  · simp [wanted, hsource]

theorem parse_created {records : List Json} (h : ∀ record ∈ records, WellTyped record) :
    records.filterMapM parseRecord = .ok (created records) := by
  induction records with
  | nil => rfl
  | cons record records ih =>
    have hrest := ih fun r hr => h r (List.mem_cons_of_mem _ hr)
    rw [List.filterMapM_cons, parseRecord_wanted (h record List.mem_cons_self)]
    by_cases hw : wanted record = true
    · simp only [hw, if_true, bind, Except.bind, hrest, pure, Except.pure, created, List.filter_cons_of_pos,
        List.map_cons]
    · simp only [hw, if_false, bind, Except.bind, hrest, created, List.filter_cons_of_neg,
        Bool.false_eq_true, not_false_eq_true]

theorem any_of_lookup {fields : List (String × Json)} {key : String} {v : Json} (h : fields.lookup key = some v) :
    fields.any (·.1 == key) = true := by
  induction fields with
  | nil => cases h
  | cons f rest ih =>
    rw [List.lookup_cons] at h
    by_cases hf : key = f.1
    · simp [← hf]
    · have hne : (key == f.1) = false := by simpa using hf
      rw [hne] at h
      simp [ih h]

/-- A notification parses to its records, and so does the message of an SNS topic that has its
    text. The text is any that `json.loads` reads as the notification, and the envelope any that
    it reads as a dict with the text under "Message". What `json.dumps` writes is such a text:
    of the notification, and of a dict of strings for the envelope. -/
theorem sns_transparent {room : Nat} {fields : List (String × Json)} {records : List Json}
    (hN : Notification fields records) :
    (∀ text, Json.loads room text = .ok (.obj fields) →
      parseS3Events room text = .ok (created records) ∧
        ∀ body envelope, Json.loads room body = .ok (.obj envelope) → envelope.lookup "Message" = some (.str text) →
          parseS3Events room body = .ok (created records)) ∧
      (Json.Readable room (.obj fields) →
        parseS3Events room (Json.dumps (.obj fields)) = .ok (created records) ∧
          ∀ envelope : List (String × String), (envelope.map (·.1)).Nodup →
            envelope.lookup "Message" = some (Json.dumps (.obj fields)) →
            parseS3Events room (Json.dumps (.obj (Json.textFields envelope))) = .ok (created records)) := by
  have hrecords := parse_created hN.wellTyped
  have hany : ∀ text, Json.loads room text = .ok (.obj fields) →
      parseS3Events room text = .ok (created records) ∧
        ∀ body envelope, Json.loads room body = .ok (.obj envelope) → envelope.lookup "Message" = some (.str text) →
          parseS3Events room body = .ok (created records) := by
    intro text htext
    refine ⟨parse_carries (.direct htext hN.direct hN.listed) hrecords, fun body envelope hbody hmessage => ?_⟩
    have hget : Json.getD envelope "Message" .null = .str text := by rw [Json.getD, hmessage]; rfl
    exact parse_carries (.sns hbody (any_of_lookup hmessage) hget htext hN.listed) hrecords
  refine ⟨hany, fun hfits => ?_⟩
  obtain ⟨hdirect, hwrapped⟩ := hany _ (Json.loads_dumps hfits)
  refine ⟨hdirect, fun envelope hkeys hmessage => hwrapped _ _
    (Json.loads_dumps (Json.readable_textFields ?_ hkeys)) ?_⟩
  · cases hfits
    omega
  · rw [Json.lookup_textFields, hmessage]
    rfl

/-! ### Puts among a test event, a record of another source and one without a key -/

def testRecord : Json := .obj [("eventSource", .str "aws:s3"), ("eventName", .str "s3:TestEvent")]

def otherRecord : Json := .obj [("eventSource", .str "aws:sns")]

def severalRecords : List Json :=
  [testRecord, .obj (putRecord "a%2Bb+c"), otherRecord, .obj (putRecord ""), .obj (putRecord "d/")]

def severalBody : String := Json.dumps (.obj [("Records", .arr severalRecords)])

def envelope : List (String × String) := [("Type", "Notification"), ("Message", severalBody)]

theorem several_notification : Notification [("Records", .arr severalRecords)] severalRecords where
  direct := by decide
  listed := rfl
  wellTyped record h := by
    simp only [severalRecords, List.mem_cons, List.not_mem_nil, or_false] at h
    rcases h with rfl | rfl | rfl | rfl | rfl
    all_goals exact ⟨⟨_, rfl⟩, ⟨_, rfl⟩, ⟨_, rfl⟩, ⟨_, rfl⟩, ⟨_, rfl⟩⟩

theorem readable_put (room : Nat) (key : String) : Json.Readable (room + 3) (.obj (putRecord key)) := by
  have hbucket : Json.Readable (room + 1) (.obj [("name", .str "b")]) :=
    @Json.readable_textFields _ (Nat.succ_pos room) [("name", "b")] (by decide)
  have hobject : Json.Readable (room + 1) (.obj [("key", .str key)]) :=
    @Json.readable_textFields _ (Nat.succ_pos room) [("key", key)] (show ["key"].Nodup by decide)
  have hs3 : Json.Readable (room + 2)
      (.obj [("bucket", .obj [("name", .str "b")]), ("object", .obj [("key", .str key)])]) :=
    .obj (show ["bucket", "object"].Nodup by decide) (by simp [hbucket, hobject])
  refine .obj (show ["eventSource", "eventName", "s3"].Nodup by decide) ?_
  simp [putRecord, hs3, Json.Readable.str]

theorem readable_several : Json.Readable 5 (.obj [("Records", .arr severalRecords)]) := by
  have htest : Json.Readable 3 testRecord :=
    @Json.readable_textFields _ (by decide) [("eventSource", "aws:s3"), ("eventName", "s3:TestEvent")] (by decide)
  have hother : Json.Readable 3 otherRecord :=
    @Json.readable_textFields _ (by decide) [("eventSource", "aws:sns")] (by decide)
  have hrecords : Json.Readable 4 (.arr severalRecords) :=
    .arr (by simp [severalRecords, htest, hother, readable_put 0])
  exact .obj (by decide) (by simp [hrecords])

theorem sns_transparent_several :
    parseS3Events 5 severalBody =
        .ok [⟨.str "ObjectCreated:Put", .str "b", "a+b c", .null, .null, .null⟩,
          ⟨.str "ObjectCreated:Put", .str "b", "d/", .null, .null, .null⟩] ∧
      parseS3Events 5 (Json.dumps (.obj (Json.textFields envelope))) =
        .ok [⟨.str "ObjectCreated:Put", .str "b", "a+b c", .null, .null, .null⟩,
          ⟨.str "ObjectCreated:Put", .str "b", "d/", .null, .null, .null⟩] := by
  obtain ⟨hdirect, hwrapped⟩ := (sns_transparent several_notification).2 readable_several
  exact ⟨hdirect, hwrapped envelope (by decide) rfl⟩

end Connect.Sqs
