/-
  Connect.Sqs.SameImports — the imports of a queue's events next to those of a folder job
  over the same bucket.

  The job asks `list_all_objects`, which leaves out the keys that end with a slash; the
  event path imports whatever was created. An event whose key or bucket PostgreSQL cannot
  store as text raises out of its poll, and what was received behind it is not handled.

  `same_imports_iff`: against services that accept everything, and with S3 having announced
  every object of the bucket, both paths make the same imports exactly when the events that
  are reached are those of the keys that do not end with a slash.
-/

import Connect.Worker.Listing

namespace Connect.Sqs

open Await
open LucidLink (imported JobCall)
open Worker (JobDict JobResult Ctx Resolved llPath importJobBody Page paginate mem_paginate Lists JobAccepts
  job_imports)

/-! ## Notices -/

/-- The record S3 sends for a new object of the bucket, its key encoded. -/
inductive Announces (bucket : String) : Json → String → Prop
  | put {record s3Info bucketInfo objectInfo : List (String × Json)} {encoded : String} :
      Json.getD record "eventSource" .null = .str "aws:s3" →
      Json.getD record "eventName" (.str "") = .str "ObjectCreated:Put" →
      Json.getD record "s3" (.obj []) = .obj s3Info → Json.getD s3Info "bucket" (.obj []) = .obj bucketInfo →
      Json.getD bucketInfo "name" (.str "") = .str bucket → Json.getD s3Info "object" (.obj []) = .obj objectInfo →
      Json.getD objectInfo "key" (.str "") = .str encoded →
      (toBigint (Json.getD objectInfo "size" .null)).isSome = true →
      Announces bucket (.obj record) (unquotePlus encoded)

/-- The body has these records, directly or in the notification of an SNS topic. -/
inductive Carries (room : Nat) (records : List Json) : String → Prop
  | direct {body : String} {data : List (String × Json)} : Json.loads room body = .ok (.obj data) →
      (data.any (·.1 == "Message")) = false →
      Json.getD data "Records" (.arr []) = .arr records → Carries room records body
  | sns {body message : String} {data inner : List (String × Json)} : Json.loads room body = .ok (.obj data) →
      (data.any (·.1 == "Message")) = true → Json.getD data "Message" .null = .str message →
      Json.loads room message = .ok (.obj inner) →
      Json.getD inner "Records" (.arr []) = .arr records → Carries room records body

/-- A message that announces new objects, with their records and keys. -/
structure Notice (room : Nat) (bucket : String) where
  message : Message
  records : List (Json × String)
  carries : Carries room (records.map (·.1)) (message.body.getD "")
  announces : ∀ r ∈ records, Announces bucket r.1 r.2
  /-- SQS gives its messages ids that are text. -/
  idText : (toText (.str (message.messageId.getD ""))).isSome = true

/-- What parsing makes of a record of the bucket. -/
structure Created (bucket : String) (event : S3Event) : Prop where
  eventType : event.eventType = .str "ObjectCreated:Put"
  bucket : event.bucket = .str bucket
  size : (toBigint event.size).isSome = true

/-- The keys that are not dropped; S3 has no empty ones. -/
def nonempty (keys : List String) : List String := keys.filter (· != "")

theorem parse_record {bucket key : String} {record : Json} (h : Announces bucket record key) :
    ∃ event, Created bucket event ∧ event.key = key ∧
    parseRecord record = .ok (if key = "" then none else some event) := by
  cases h with
  | @put record s3Info bucketInfo objectInfo encoded hsource hname hs3 hbucket hb hobject hkey hsize =>
    refine ⟨⟨.str "ObjectCreated:Put", .str bucket, unquotePlus encoded, Json.getD objectInfo "size" .null,
      Json.getD record "eventTime" .null, Json.getD record "awsRegion" .null⟩, ⟨rfl, rfl, hsize⟩, rfl, ?_⟩
    simp only [parseRecord, pyGet, hsource, hname, hs3, hbucket, hb, hobject, hkey, pyUnquotePlus, bind,
      Except.bind, pure, Except.pure]
    by_cases hempty : unquotePlus encoded = ""
    · simp [isStr, hempty]
    · simp [isStr, hempty]

theorem parse_records {bucket : String} {records : List (Json × String)}
    (h : ∀ r ∈ records, Announces bucket r.1 r.2) :
    ∃ events, (records.map (·.1)).filterMapM parseRecord = .ok events ∧ (∀ event ∈ events, Created bucket event) ∧
      events.map (·.key) = nonempty (records.map (·.2)) := by
  induction records with
  | nil => exact ⟨[], rfl, fun _ h => (nomatch h), rfl⟩
  | cons r records ih =>
    obtain ⟨events, hparse, hcreated, hkeys⟩ := ih fun r hr => h r (List.mem_cons_of_mem _ hr)
    obtain ⟨event, hevent, hkey, hrecord⟩ := parse_record (h r List.mem_cons_self)
    by_cases hempty : r.2 = ""
    · refine ⟨events, ?_, hcreated, ?_⟩
      · rw [List.map_cons, List.filterMapM_cons, hrecord, if_pos hempty, hparse]
        rfl
      · rw [hkeys]
        simp [nonempty, hempty]
    · refine ⟨event :: events, ?_, ?_, ?_⟩
      · rw [List.map_cons, List.filterMapM_cons, hrecord, if_neg hempty, hparse]
        rfl
      · intro e he
        rcases List.mem_cons.mp he with rfl | he
        · exact hevent
        · exact hcreated e he
      · rw [List.map_cons, hkey, hkeys]
        simp [nonempty, hempty]

theorem parse_carries {room : Nat} {records : List Json} {body : String} {events : List S3Event}
    (h : Carries room records body)
    (hrecords : records.filterMapM parseRecord = .ok events) : parseS3Events room body = .ok events := by
  have hall : parseRecords room body = .ok events := by
    cases h with
    | direct hloads hno hr =>
      simp only [parseRecords, hloads, pyIn, hno, pyGet, hr, pyIter, bind, Except.bind, pure, Except.pure,
        Bool.false_eq_true, if_false]
      exact hrecords
    | sns hloads hyes hm hinner hr =>
      simp only [parseRecords, hloads, pyIn, hyes, pyGet, hm, hinner, hr, pyIter, bind, Except.bind, pure,
        Except.pure, if_true]
      exact hrecords
  rw [parseS3Events, hall]

def Notice.keys {room : Nat} {bucket : String} (notice : Notice room bucket) : List String := notice.records.map (·.2)

theorem Notice.parses {room : Nat} {bucket : String} (notice : Notice room bucket) :
    ∃ events, parseS3Events room (notice.message.body.getD "") = .ok events ∧
    (∀ event ∈ events, Created bucket event) ∧
      events.map (·.key) = nonempty notice.keys := by
  obtain ⟨events, hparse, hcreated, hkeys⟩ := parse_records notice.announces
  exact ⟨events, parse_carries notice.carries hparse, hcreated, hkeys⟩

/-! ## The event path -/

def imports : SqsOp → Option (String × String)
  | .importFile s3Key llPath => some (s3Key, llPath)
  | _ => none

theorem beside_imports (o : SqsOp) (h : Beside o) : imports o = none := by
  cases o <;> first | rfl | cases h

/-- An INSERT takes the event. -/
def inserted (queueId : Nat) (messageId : String) (event : S3Event) : Bool :=
  (newRow ⟨0, 0⟩ queueId messageId event .pending none).isSome

/-- The answers to a poll that nothing goes wrong for but the INSERTs that PostgreSQL refuses. -/
def Accepts : (o : SqsOp) → Except Exc o.Ret → Prop
  | .createEvent queueId messageId event, r | .recordFailed queueId messageId event _, r =>
    if inserted queueId messageId event = true then ∃ id, r = .ok id else ∃ text, r = .error (.exception text)
  | .getForDatastoreUser _ _, r => r = .ok true
  | .getUserToken _, r | .getLucidlinkToken, r => ∃ token, token ≠ "" ∧ r = .ok (some token)
  | .ensureStructure _, r => ∃ error, r = .ok (true, error)
  | .importFile _ _, r => ∃ code error, (code = 200 ∨ code = 201) ∧ r = .ok (code, error)
  | _, r => ∃ v, r = .ok v

/-- PostgreSQL stores both as text. -/
def recordable (bucket key : String) : Bool := (toText (.str bucket)).isSome && (toText (.str key)).isSome

/-- The keys that are reached: an INSERT that is refused ends the poll. -/
def reached (bucket : String) (keys : List String) : List String := keys.takeWhile (recordable bucket)

theorem inserted_created {bucket messageId : String} {queueId : Nat} {event : S3Event} (h : Created bucket event)
    (hid : (toText (.str messageId)).isSome = true) :
    inserted queueId messageId event = recordable bucket event.key := by
  obtain ⟨m, hm⟩ := Option.isSome_iff_exists.mp hid
  obtain ⟨size, hsize⟩ := Option.isSome_iff_exists.mp h.size
  have htype : toText (.str "ObjectCreated:Put") = some "ObjectCreated:Put" := by decide
  simp only [inserted, newRow, recordable, hm, h.eventType, htype, h.bucket, hsize, Option.bind_eq_bind,
    Option.bind_some]
  cases toText (.str bucket) <;> cases toText (.str event.key) <;> rfl

section Poll

variable {room pid : Nat} {queue : SqsQueue} {bucket messageId : String} {ids : List String} {done : List String}
  {s s' : Store} {calls : List SqsCall}

/-- Every row of these messages is of one of these keys. -/
def Known (queue : SqsQueue) (bucket : String) (ids done : List String) (s : Store) : Prop :=
  ∀ row ∈ s.events, row.queueId = queue.id → row.messageId ∈ ids →
    row.objectKey ∈ done ∧ recordable bucket row.objectKey = true

/-- Nobody else records these messages. -/
def Elsewhere (queue : SqsQueue) (ids : List String) (s s' : Store) : Prop :=
  ∀ row ∈ s'.events, row.queueId = queue.id → row.messageId ∈ ids → ∃ old ∈ s.events, old.key = row.key

theorem Elsewhere.refl (queue : SqsQueue) (ids : List String) (s : Store) : Elsewhere queue ids s s :=
  fun row hrow _ _ => ⟨row, hrow, rfl⟩

theorem Known.elsewhere (h : Known queue bucket ids done s) (he : Elsewhere queue ids s s') :
    Known queue bucket ids done s' := by
  intro row hrow hq hm
  obtain ⟨old, hold, hkey⟩ := he row hrow hq hm
  have hobject : old.objectKey = row.objectKey := congrArg EventKey.objectKey hkey
  rw [← hobject]
  exact h old hold ((congrArg EventKey.queueId hkey).trans hq)
    (by rw [show old.messageId = row.messageId from congrArg EventKey.messageId hkey]; exact hm)

theorem Known.mono {more : List String} (h : Known queue bucket ids done s) (hsub : ∀ key ∈ done, key ∈ more) :
    Known queue bucket ids more s :=
  fun row hrow hq hm => ⟨hsub _ (h row hrow hq hm).1, (h row hrow hq hm).2⟩

theorem known_insert {event : S3Event} {id : EventId} {row : SqsEvent} (h : Known queue bucket ids done s)
    (hrow : newRow id queue.id messageId event .pending none = some row) (hr : recordable bucket event.key = true) :
    Known queue bucket ids (done ++ [event.key]) (s.insert row) := by
  intro row' hrow' hq hm
  rcases List.mem_cons.mp hrow' with rfl | hold
  · rw [show row'.objectKey = event.key from congrArg EventKey.objectKey (newRow_some hrow).2.1]
    exact ⟨List.mem_append_right _ List.mem_cons_self, hr⟩
  · exact h.mono (fun _ => List.mem_append_left _) row' hold hq hm

/-- What neither inserts nor takes a row away leaves the keys as they are. -/
theorem did_elsewhere {o : SqsOp} {r : Except Exc o.Ret} {id : EventId} (ho : FinishOp id o) (h : Did pid s o r s') :
    Elsewhere queue ids s s' := by
  rcases finish_outside ho with hout | ⟨st, msg, rfl⟩
  · rw [did_outside hout h]
    exact .refl queue ids s
  · cases h with
    | updated =>
      intro row hrow _ _
      obtain ⟨old, hold, rfl⟩ := List.mem_map.mp hrow
      exact ⟨old, hold, (patch_key ..).symm⟩
    | raised | answered => exact .refl queue ids s

/-- The run of a part of the poll that alone records these messages. -/
abbrev Records (room pid : Nat) (queue : SqsQueue) (ids : List String) {α : Type} (p : SqsProg α)
    (s : Store) (calls : List SqsCall) (x : Except Exc α) (s' : Store) : Prop :=
  Exec (pollers room) (Elsewhere queue ids) pid p s calls x s'

theorem finish_known {α : Type} {id : EventId} {p : SqsProg α} {x : Except Exc α} (hp : p.Uses (FinishOp id))
    (h : Records room pid queue ids p s calls x s') (hk : Known queue bucket ids done s) :
    Known queue bucket ids done s' :=
  exec_keeps (fun _ _ hk he => hk.elsewhere he)
    (fun _ _ _ _ ho hk hx => hk.elsewhere (did_elsewhere ho (poller_did hx))) hp h hk

theorem outside_known {α : Type} {p : SqsProg α} {x : Except Exc α} (hp : p.Uses fun o : SqsOp => o.outside = true)
    (h : Records room pid queue ids p s calls x s') (hk : Known queue bucket ids done s) :
    Known queue bucket ids done s' := by
  refine exec_keeps (fun _ _ hk he => hk.elsewhere he) (fun s s' o r ho hk hx => ?_) hp h hk
  have hs : s' = s := did_outside ho (poller_did hx)
  rw [hs]
  exact hk

/-- What a part of the poll has done with these keys, after those. -/
structure Went {α : Type} (queue : SqsQueue) (bucket : String) (ids done keys : List String)
    (calls : List SqsCall) (x : Except Exc α) (s' : Store) : Prop where
  sound : ∀ p ∈ picked imports calls, ∃ key ∈ reached bucket keys, p = (key, llPath bucket key)
  complete : ∀ key ∈ reached bucket keys, key ∈ done ∨ (key, llPath bucket key) ∈ picked imports calls
  known : Known queue bucket ids (done ++ (picked imports calls).map (·.1)) s'
  returns : (∃ a, x = .ok a) ↔ ∀ key ∈ keys, recordable bucket key = true

theorem reached_append {xs ys : List String} (h : ∀ key ∈ xs, recordable bucket key = true) :
    reached bucket (xs ++ ys) = xs ++ reached bucket ys := List.takeWhile_append_of_pos h

theorem reached_all {xs : List String} (h : ∀ key ∈ xs, recordable bucket key = true) : reached bucket xs = xs := by
  have : reached bucket (xs ++ []) = xs ++ reached bucket [] := reached_append h
  rwa [List.append_nil, show reached bucket [] = [] from rfl, List.append_nil] at this

theorem reached_stops {xs ys : List String} (h : ¬∀ key ∈ xs, recordable bucket key = true) :
    reached bucket (xs ++ ys) = reached bucket xs := by
  induction xs with
  | nil => exact absurd (fun _ h => nomatch h) h
  | cons x xs ih =>
    by_cases hx : recordable bucket x = true
    · have htail : ¬∀ key ∈ xs, recordable bucket key = true := fun hall => h (List.forall_mem_cons.mpr ⟨hx, hall⟩)
      simp only [reached, List.cons_append, List.takeWhile_cons, hx, if_true] at ih ⊢
      rw [ih htail]
    · simp [reached, hx]

/-- One part after another. -/
theorem Went.append {α β : Type} {xs ys : List String} {first rest : List SqsCall} {a : α}
    {x : Except Exc β} {s₁ : Store} (h : Went queue bucket ids done xs first (.ok a : Except Exc α) s₁)
    (h' : Went queue bucket ids (done ++ (picked imports first).map (·.1)) ys rest x s') :
    Went queue bucket ids done (xs ++ ys) (first ++ rest) x s' := by
  have hall := h.returns.mp ⟨a, rfl⟩
  have hxs := reached_all hall
  refine ⟨fun p hp => ?_, fun key hkey => ?_, ?_, ?_⟩
  · rw [reached_append hall]
    rw [picked_append] at hp
    rcases List.mem_append.mp hp with hp | hp
    · obtain ⟨key, hkey, rfl⟩ := h.sound p hp
      rw [hxs] at hkey
      exact ⟨key, List.mem_append_left _ hkey, rfl⟩
    · obtain ⟨key, hkey, rfl⟩ := h'.sound p hp
      exact ⟨key, List.mem_append_right _ hkey, rfl⟩
  · rw [picked_append, List.mem_append]
    rw [reached_append hall] at hkey
    rcases List.mem_append.mp hkey with hkey | hkey
    · exact (h.complete key (by rw [hxs]; exact hkey)).imp id Or.inl
    · rcases h'.complete key hkey with hdone | hp
      · rcases List.mem_append.mp hdone with hdone | hdone
        · exact Or.inl hdone
        · obtain ⟨p, hp, rfl⟩ := List.mem_map.mp hdone
          obtain ⟨key, _, rfl⟩ := h.sound p hp
          exact Or.inr (Or.inl hp)
      · exact Or.inr (Or.inr hp)
  · rw [picked_append, List.map_append, ← List.append_assoc]
    exact h'.known
  · rw [h'.returns, List.forall_mem_append]
    exact ⟨fun hys => ⟨hall, hys⟩, And.right⟩

/-- The first part raises, and what would follow is not reached. -/
theorem Went.stop {α β : Type} {xs : List String} (ys : List String) {first : List SqsCall} {e : Exc}
    (h : Went queue bucket ids done xs first (.error e : Except Exc α) s') :
    Went queue bucket ids done (xs ++ ys) first (.error e : Except Exc β) s' := by
  have hnot : ¬∀ key ∈ xs, recordable bucket key = true := fun hall => by
    obtain ⟨_, he⟩ := h.returns.mpr hall
    cases he
  refine ⟨?_, ?_, h.known, ⟨fun ⟨_, he⟩ => (nomatch he), fun hall => absurd (List.forall_mem_append.mp hall).1 hnot⟩⟩
  · rw [reached_stops hnot]
    exact h.sound
  · rw [reached_stops hnot]
    exact h.complete

theorem yields_eventStatus (id : EventId) (st : EventStatus) (msg : Option String) :
    Yields Accepts (fun _ => True) (updateStatus id st msg) :=
  .bind (.returns fun _ h => h) fun _ _ => trivial

/-- There are credentials and a token, so the event goes on to LucidLink. -/
theorem yields_ready (id : EventId) (queue : SqsQueue) :
    Yields Accepts (fun ready => ready.isSome = true) (prepare id queue) := by
  refine .bind (Q := (· = true)) (.await fun _ hr => ⟨_, hr, rfl⟩) fun dsCred hds => ?_
  cases hds
  have hload : Yields Accepts (fun _ => True) (loadLlToken queue.userId) := by
    cases queue.userId with
    | none => trivial
    | some u => exact .returns fun _ h => h
  have hlegacy : ∀ token, Yields Accepts (fun token => (truthy token).isSome = true)
      (orLegacyToken queue.userId token) := by
    intro token
    have htoken : ∀ t : String, t ≠ "" → (truthy (some t)).isSome = true :=
      fun t ht => by simp [truthy, Option.filter, ht]
    unfold orLegacyToken
    split
    · assumption
    · cases queue.userId with
      | none => exact .await fun _ ⟨t, ht, hr⟩ => ⟨_, hr, htoken t ht⟩
      | some u => exact .await fun _ ⟨t, ht, hr⟩ => ⟨_, hr, htoken t ht⟩
  have hsetting : Yields Accepts (fun _ => True) (getUserSetting queue.userId "api_host") := by
    cases queue.userId with
    | none => trivial
    | some u => exact .returns fun _ h => h
  refine .bind hload fun token _ => .bind (hlegacy token) fun token htoken => ?_
  cases ht : truthy token with
  | none =>
    rw [ht] at htoken
    cases htoken
  | some t => exact .bind hsetting fun _ _ => .bind (yields_eventStatus _ _ _) fun _ _ => rfl

theorem yields_importEvent (id : EventId) (event : S3Event) (queue : SqsQueue) (r : Ready) :
    Yields Accepts (fun _ => True) (importEvent id event queue r) := by
  refine .bind (.returns fun _ h => h) fun _ _ => ?_
  refine .bind (Q := fun made => made.1 = true) (.await fun _ ⟨error, hr⟩ => ⟨_, hr, rfl⟩) fun made hmade => ?_
  obtain ⟨made, error⟩ := made
  cases hmade
  refine .bind (Q := fun _ => True) ?_ fun _ _ => .returns fun _ h => h
  exact .bind (Q := fun _ => True) (.await fun _ ⟨code, error, _, hr⟩ => ⟨_, hr, trivial⟩)
    fun _ _ => yields_eventStatus _ _ _

/-- It is imported, and to the path of its key. -/
theorem importEvent_imports {id : EventId} {event : S3Event} {r : Ready} {x : Except Exc Unit}
    (h : Records room pid queue ids (importEvent id event queue r) s calls x s')
    (hok : ∀ call ∈ calls, Accepts call.op call.ans) :
    picked imports calls = [(event.key, eventPath queue event)] := by
  obtain ⟨_, ans, _, rest, _, _, rfl, h⟩ := h
  obtain ⟨_, rfl⟩ : ∃ v, ans = .ok v := hok _ List.mem_cons_self
  have hok := fun call hc => hok call (List.mem_cons_of_mem _ hc)
  obtain ⟨_, ans, _, rest, _, _, rfl, h⟩ := h
  obtain ⟨_, rfl⟩ : ∃ error, ans = .ok (true, error) := hok _ List.mem_cons_self
  have hok := fun call hc => hok call (List.mem_cons_of_mem _ hc)
  obtain ⟨_, ans, _, rest, _, _, rfl, h⟩ := h
  obtain ⟨code, error, _, rfl⟩ : ∃ code error, (code = 200 ∨ code = 201) ∧ ans = .ok (code, error) :=
    hok _ List.mem_cons_self
  have hlast : ((updateStatus id (importOutcome code error).1 (importOutcome code error).2).bind
      fun _ => await .close).Uses
      (imports · = none) := .bind (uses_updateStatus rfl) fun _ => .await rfl
  exact congrArg ((event.key, eventPath queue event) :: ·) (picked_none hlast h)

theorem finishEvent_went {event : S3Event} {id : EventId} {x : Except Exc Unit}
    (hqueue : queue.importPrefix = "") (he : Created bucket event)
    (hr : recordable bucket event.key = true)
    (h : Records room pid queue ids (finishEvent id event queue) s calls x s')
    (hok : ∀ call ∈ calls, Accepts call.op call.ans) (hk : Known queue bucket ids (done ++ [event.key]) s) :
    Went queue bucket ids done [event.key] calls x s' := by
  have hpath : eventPath queue event = llPath bucket event.key := by
    rw [eventPath, if_pos hqueue, he.bucket]
    rfl
  have hkeys : ∀ key ∈ [event.key], recordable bucket key = true :=
    fun key hkey => by rw [List.mem_singleton.mp hkey, hr]
  have hknown := finish_known (uses_finishEvent id event queue) h hk
  obtain ⟨ready, s₁, first, rest, rfl, hready, hp, hgo, hrest⟩ :=
    (yields_ready id queue).goes_on (Elsewhere.refl queue ids) h hok
  cases ready with
  | none => cases hready
  | some r =>
    have hfirst : picked imports first = [] := picked_none ((uses_prepare_beside id queue).mono beside_imports) hp
    rcases exec_catching (Elsewhere.refl queue ids) hgo with ⟨_, rfl, hi⟩ | ⟨e, _, body, _, rfl, hi, _⟩
    · have himports : picked imports (first ++ rest) = [(event.key, llPath bucket event.key)] := by
        rw [picked_append, hfirst, importEvent_imports hi hrest, hpath]
        rfl
      refine ⟨fun p hp => ?_, fun key hkey => ?_, ?_, ⟨fun _ => hkeys, fun _ => ⟨(), rfl⟩⟩⟩
      · rw [himports] at hp
        exact ⟨event.key, by rw [reached_all hkeys]; exact List.mem_singleton_self _, List.mem_singleton.mp hp⟩
      · rw [reached_all hkeys] at hkey
        rw [himports, List.mem_singleton.mp hkey]
        exact Or.inr (List.mem_singleton_self _)
      · rw [himports]
        exact hknown
    · obtain ⟨_, hx, _⟩ :=
        (yields_importEvent id event queue r).ends hi fun call hc => hrest call (List.mem_append_left _ hc)
      cases hx

/-- An event that was recorded before is known, one that cannot be recorded raises, and
    any other is imported. -/
theorem processS3Event_went {event : S3Event} {x : Except Exc Unit} (hqueue : queue.importPrefix = "")
    (he : Created bucket event) (hid : (toText (.str messageId)).isSome = true) (hmem : messageId ∈ ids)
    (h : Records room pid queue ids (processS3Event event queue messageId) s calls x s')
    (hok : ∀ call ∈ calls, Accepts call.op call.ans) (hk : Known queue bucket ids done s) :
    Went queue bucket ids done [event.key] calls x s' ∧ ∀ e, x = .error e → e.isException = true := by
  obtain ⟨s₁, ans, s₂, rest, hs, hx, rfl, h⟩ := h
  obtain ⟨found, rfl⟩ : ∃ found, ans = .ok found := hok _ List.mem_cons_self
  obtain ⟨rfl, rfl⟩ := exec_probe pid hx
  have hk := hk.elsewhere hs
  by_cases hfound : s₂.existsForMessage ⟨messageId, queue.id, event.key⟩ = true
  · rw [hfound] at h
    obtain ⟨rfl, rfl, hs'⟩ := h
    obtain ⟨row, hrow, hkey⟩ := exists_iff.mp hfound
    have hobject : row.objectKey = event.key := congrArg EventKey.objectKey hkey
    have hold := hk row hrow (congrArg EventKey.queueId hkey)
      (by rw [show row.messageId = messageId from congrArg EventKey.messageId hkey]; exact hmem)
    rw [hobject] at hold
    have hkeys : ∀ key ∈ [event.key], recordable bucket key = true :=
      fun key hkey => by rw [List.mem_singleton.mp hkey, hold.2]
    refine ⟨⟨fun p hp => (nomatch hp), fun key hkey => ?_, ?_, ⟨fun _ => hkeys, fun _ => ⟨(), rfl⟩⟩⟩,
      fun e he => (nomatch he)⟩
    · rw [reached_all hkeys] at hkey
      exact Or.inl (by rw [List.mem_singleton.mp hkey]; exact hold.1)
    · exact (hk.elsewhere hs').mono fun _ => List.mem_append_left _
  rw [Bool.eq_false_iff.mpr hfound] at h
  obtain ⟨s₃, ans, s₄, rest, hs, hx, rfl, h⟩ := h
  have hk := hk.elsewhere hs
  have hinsert := hok _ (List.mem_cons_of_mem _ List.mem_cons_self)
  simp only [Accepts, inserted_created he hid] at hinsert
  by_cases hr : recordable bucket event.key = true
  · rw [if_pos hr] at hinsert
    obtain ⟨id, rfl⟩ := hinsert
    cases poller_did hx with
    | answered hout => cases hout
    | created hrow hf =>
      have hwent : Went queue bucket ids done [event.key] _ x s' := finishEvent_went hqueue he hr h
        (fun call hc => hok call (List.mem_cons_of_mem _ (List.mem_cons_of_mem _ hc))) (known_insert hk hrow hr)
      refine ⟨⟨hwent.sound, hwent.complete, hwent.known, hwent.returns⟩, fun e hx => ?_⟩
      obtain ⟨_, hret⟩ := hwent.returns.mpr fun key hkey => by rw [List.mem_singleton.mp hkey, hr]
      rw [hx] at hret
      cases hret
  · rw [if_neg hr] at hinsert
    obtain ⟨text, rfl⟩ := hinsert
    obtain ⟨rfl, rfl, hs'⟩ := h
    rw [did_raised (poller_did hx)] at hs'
    have hnone : reached bucket [event.key] = [] := by simp [reached, hr]
    refine ⟨⟨fun p hp => (nomatch hp), fun key hkey => ?_, ?_,
      ⟨fun ⟨_, hx⟩ => (nomatch hx), fun hall => ?_⟩⟩, fun e hx => ?_⟩
    · rw [hnone] at hkey
      cases hkey
    · exact (hk.elsewhere hs').mono fun _ => List.mem_append_left _
    · exact absurd (hall event.key (List.mem_singleton_self _)) hr
    · cases hx
      rfl

theorem Went.calls_eq {α β : Type} {keys : List String} {more : List SqsCall} {x : Except Exc α}
    {y : Except Exc β} {s₁ : Store}
    (h : Went queue bucket ids done keys calls x s₁) (hmore : picked imports more = [])
    (hs : Known queue bucket ids (done ++ (picked imports calls).map (·.1)) s')
    (hxy : (∃ a, x = .ok a) ↔ ∃ b, y = .ok b) : Went queue bucket ids done keys (calls ++ more) y s' := by
  have hsame : picked imports (calls ++ more) = picked imports calls := by rw [picked_append, hmore, List.append_nil]
  refine ⟨?_, ?_, ?_, ?_⟩
  · rw [hsame]
    exact h.sound
  · rw [hsame]
    exact h.complete
  · rw [hsame]
    exact hs
  · rw [← hxy]
    exact h.returns

theorem handleEvent_went {event : S3Event} {n : Nat} {x : Except Exc Nat} (hqueue : queue.importPrefix = "")
    (he : Created bucket event) (hid : (toText (.str messageId)).isSome = true) (hmem : messageId ∈ ids)
    (h : Records room pid queue ids (handleEvent event queue messageId n) s calls x s')
    (hok : ∀ call ∈ calls, Accepts call.op call.ans)
    (hk : Known queue bucket ids done s) : Went queue bucket ids done [event.key] calls x s' := by
  rcases exec_catching (Elsewhere.refl queue ids) h with ⟨n', rfl, hp⟩ | ⟨e, s₁, first, rest, rfl, hp, hh⟩
  · obtain ⟨_, _, first, rest, rfl, hprocess, hret⟩ := exec_bind_ok (Elsewhere.refl queue ids) hp
    obtain ⟨rfl, _, hs⟩ := hret
    have hwent :=
      (processS3Event_went hqueue he hid hmem hprocess (fun call hc => hok call (List.mem_append_left _ hc)) hk).1
    exact hwent.calls_eq rfl (hwent.known.elsewhere hs) ⟨fun _ => ⟨n', rfl⟩, fun _ => ⟨(), rfl⟩⟩
  · rcases exec_bind (Elsewhere.refl queue ids) hp with ⟨_, hx, hp⟩ | ⟨_, _, _, _, _, _, hret⟩
    · cases hx
      obtain ⟨hwent, hexception⟩ :=
        processS3Event_went hqueue he hid hmem hp (fun call hc => hok call (List.mem_append_left _ hc)) hk
      have hrefused : ¬recordable bucket event.key = true := fun hr => by
        obtain ⟨_, hx⟩ := hwent.returns.mpr fun key hkey => by rw [List.mem_singleton.mp hkey, hr]
        cases hx
      -- the recorder's INSERT is refused like the first
      rw [eventFailed, if_pos (hexception e rfl)] at hh
      obtain ⟨s₂, ans, s₃, more, hs, hx, rfl, hh⟩ := hh
      have hinsert := hok _ (List.mem_append_right _ List.mem_cons_self)
      simp only [Accepts, inserted_created he hid, if_neg hrefused] at hinsert
      obtain ⟨text, rfl⟩ := hinsert
      obtain ⟨rfl, rfl, hs'⟩ := hh
      rw [did_raised (poller_did hx)] at hs'
      exact hwent.calls_eq rfl ((hwent.known.elsewhere hs).elsewhere hs')
        ⟨fun ⟨_, hx⟩ => (nomatch hx), fun ⟨_, hx⟩ => (nomatch hx)⟩
    · cases hret.2.1

theorem handleEvents_went {events : List S3Event} {n : Nat} {x : Except Exc Nat} (hqueue : queue.importPrefix = "")
    (he : ∀ event ∈ events, Created bucket event) (hid : (toText (.str messageId)).isSome = true)
    (hmem : messageId ∈ ids)
    (h : Records room pid queue ids (handleEvents queue messageId events n) s calls x s')
    (hok : ∀ call ∈ calls, Accepts call.op call.ans)
    (hk : Known queue bucket ids done s) : Went queue bucket ids done (events.map (·.key)) calls x s' := by
  induction events generalizing s calls n done with
  | nil =>
    obtain ⟨rfl, rfl, hs⟩ := h
    refine ⟨fun p hp => (nomatch hp), fun key hkey => (nomatch hkey), ?_,
      ⟨fun _ _ hkey => (nomatch hkey), fun _ => ⟨_, rfl⟩⟩⟩
    exact (hk.elsewhere hs).mono fun _ => List.mem_append_left _
  | cons event events ih =>
    have hevent := he event List.mem_cons_self
    have hcreate : isCreateEvent event.eventType = true := by
      rw [hevent.eventType]
      decide
    rw [handleEvents, if_pos hcreate] at h
    rcases exec_bind (Elsewhere.refl queue ids) h with ⟨e, rfl, hp⟩ | ⟨n', s₁, first, rest, rfl, hp, hgo⟩
    · exact (handleEvent_went hqueue hevent hid hmem hp hok hk).stop _
    · have hfirst :=
        handleEvent_went hqueue hevent hid hmem hp (fun call hc => hok call (List.mem_append_left _ hc)) hk
      exact hfirst.append (ih (fun e hmem => he e (List.mem_cons_of_mem _ hmem)) hgo
        (fun call hc => hok call (List.mem_append_right _ hc)) hfirst.known)

theorem yields_deleteMessage (queue : SqsQueue) (receiptHandle : String) :
    Yields Accepts (fun _ => True) (deleteMessage queue receiptHandle) := by
  intro r ⟨v, hr⟩
  rw [hr]
  trivial

theorem handleMessage_went {notice : Notice room bucket} {n : Nat} {x : Except Exc Nat}
    (hqueue : queue.importPrefix = "")
    (hmem : notice.message.messageId.getD "" ∈ ids)
    (h : Records room pid queue ids (handleMessage room queue notice.message n) s calls x s')
    (hok : ∀ call ∈ calls, Accepts call.op call.ans) (hk : Known queue bucket ids done s) :
    Went queue bucket ids done (nonempty notice.keys) calls x s' := by
  obtain ⟨events, hparse, hcreated, hkeys⟩ := notice.parses
  rw [handleMessage, hparse] at h
  rw [← hkeys]
  rcases exec_bind (Elsewhere.refl queue ids) h with ⟨e, rfl, hp⟩ | ⟨n', s₁, first, rest, rfl, hp, hgo⟩
  · exact handleEvents_went hqueue hcreated notice.idText hmem hp hok hk
  have hwent := handleEvents_went hqueue hcreated notice.idText hmem hp
    (fun call hc => hok call (List.mem_append_left _ hc)) hk
  have hrest := fun call hc => hok call (List.mem_append_right first hc)
  obtain ⟨_, s₂, delete, last, rfl, _, hdelete, hret, _⟩ :=
    (yields_deleteMessage _ _).goes_on (Elsewhere.refl queue ids) hgo hrest
  obtain ⟨rfl, rfl, hs⟩ := hret
  rw [List.append_nil]
  refine hwent.calls_eq (picked_none (uses_deleteMessage rfl) hdelete) ?_ ⟨fun _ => ⟨_, rfl⟩, fun _ => ⟨_, rfl⟩⟩
  exact (outside_known (uses_deleteMessage rfl) hdelete hwent.known).elsewhere hs

/-- One poll, from the messages it was handed. -/
theorem handleMessages_went {notices : List (Notice room bucket)} {n : Nat} {x : Except Exc Nat}
    (hqueue : queue.importPrefix = "") (hmem : ∀ notice ∈ notices, notice.message.messageId.getD "" ∈ ids)
    (h : Records room pid queue ids (handleMessages room queue (notices.map (·.message)) n) s calls x s')
    (hok : ∀ call ∈ calls, Accepts call.op call.ans) (hk : Known queue bucket ids done s) :
    Went queue bucket ids done (notices.flatMap fun notice => nonempty notice.keys) calls x s' := by
  induction notices generalizing s calls n done with
  | nil =>
    obtain ⟨rfl, rfl, hs⟩ := h
    refine ⟨fun p hp => (nomatch hp), fun key hkey => (nomatch hkey), ?_,
      ⟨fun _ _ hkey => (nomatch hkey), fun _ => ⟨_, rfl⟩⟩⟩
    exact (hk.elsewhere hs).mono fun _ => List.mem_append_left _
  | cons notice notices ih =>
    have hnotice := hmem notice List.mem_cons_self
    rcases exec_bind (Elsewhere.refl queue ids) h with ⟨e, rfl, hp⟩ | ⟨n', s₁, first, rest, rfl, hp, hgo⟩
    · exact (handleMessage_went hqueue hnotice hp hok hk).stop _
    · have hfirst := handleMessage_went hqueue hnotice hp (fun call hc => hok call (List.mem_append_left _ hc)) hk
      exact hfirst.append (ih (fun m hm => hmem m (List.mem_cons_of_mem _ hm)) hgo
        (fun call hc => hok call (List.mem_append_right _ hc)) hfirst.known)

end Poll

/-! ## Polls -/

/-- Polls of the queue one after another, and the notices each was handed. -/
inductive Polls {room : Nat} {bucket : String} (pid : Nat) (queue : SqsQueue) (ids : List String) :
    Store → List (List (Notice room bucket)) → List SqsCall → Store → Prop
  | nil (s : Store) : Polls pid queue ids s [] [] s
  | cons {s s₁ s' : Store} {notices : List (Notice room bucket)} {rest : List (List (Notice room bucket))}
      {first later : List SqsCall}
      {x : Except Exc Nat} :
      Records room pid queue ids (pollSingleQueue room queue) s
        (⟨.receiveMessages queue, .ok (notices.map (·.message))⟩ :: first) x s₁ →
      Polls pid queue ids s₁ rest later s' →
      Polls pid queue ids s (notices :: rest)
        (⟨.receiveMessages queue, .ok (notices.map (·.message))⟩ :: first ++ later) s'

/-- The keys of the events that are reached in some poll. -/
def Reached {room : Nat} {bucket : String} (polls : List (List (Notice room bucket))) (key : String) : Prop :=
  ∃ notices ∈ polls, key ∈ reached bucket (notices.flatMap fun notice => nonempty notice.keys)

/-- The polls import what they reach. -/
theorem event_imports {room pid : Nat} {bucket : String} {queue : SqsQueue} {ids done : List String}
    {polls : List (List (Notice room bucket))}
    {s s' : Store} {calls : List SqsCall} (hqueue : queue.importPrefix = "")
    (hmem : ∀ notices ∈ polls, ∀ notice ∈ notices, notice.message.messageId.getD "" ∈ ids)
    (h : Polls pid queue ids s polls calls s')
    (hok : ∀ call ∈ calls, Accepts call.op call.ans) (hk : Known queue bucket ids done s) :
    (∀ p ∈ picked imports calls, ∃ key, Reached polls key ∧ p = (key, llPath bucket key)) ∧
      ∀ key, Reached polls key → key ∈ done ∨ (key, llPath bucket key) ∈ picked imports calls := by
  induction h generalizing done with
  | nil s => exact ⟨fun p hp => (nomatch hp), fun key ⟨_, hn, _⟩ => (nomatch hn)⟩
  | @cons s s₁ s' notices rest first later x hpoll _ ih =>
    obtain ⟨s₂, _, s₃, _, hs, hx, hcalls, hgo⟩ := hpoll
    cases hcalls
    have hk₃ : Known queue bucket ids done s₃ := by
      cases poller_did hx with
      | received _ => exact hk.elsewhere hs
      | answered hout => cases hout
    have hpicked : picked imports ((⟨.receiveMessages queue, .ok (notices.map (·.message))⟩ : SqsCall) ::
        first ++ later) =
          picked imports first ++ picked imports later := picked_append imports first later
    have hwent := handleMessages_went hqueue (fun notice hn => hmem notices List.mem_cons_self notice hn) hgo
      (fun call hc => hok call (List.mem_cons_of_mem _ (List.mem_append_left _ hc))) hk₃
    obtain ⟨hsound, hcomplete⟩ := ih (fun ns hns => hmem ns (List.mem_cons_of_mem _ hns))
      (fun call hc => hok call (List.mem_append_right _ hc)) hwent.known
    rw [hpicked]
    constructor
    · intro p hp
      rcases List.mem_append.mp hp with hp | hp
      · obtain ⟨key, hkey, rfl⟩ := hwent.sound p hp
        exact ⟨key, ⟨notices, List.mem_cons_self, hkey⟩, rfl⟩
      · obtain ⟨key, ⟨ns, hns, hkey⟩, rfl⟩ := hsound p hp
        exact ⟨key, ⟨ns, List.mem_cons_of_mem _ hns, hkey⟩, rfl⟩
    · intro key h
      obtain ⟨ns, hns, hkey⟩ := h
      rcases List.mem_cons.mp hns with rfl | hns
      · exact (hwent.complete key hkey).imp id (List.mem_append_left _)
      · rcases hcomplete key ⟨ns, hns, hkey⟩ with hdone | hp
        · rcases List.mem_append.mp hdone with hdone | hdone
          · exact Or.inl hdone
          · obtain ⟨p, hp, rfl⟩ := List.mem_map.mp hdone
            obtain ⟨key, _, rfl⟩ := hwent.sound p hp
            exact Or.inr (List.mem_append_left _ hp)
        · exact Or.inr (List.mem_append_right _ hp)

theorem reached_key {room : Nat} {bucket key : String} {polls : List (List (Notice room bucket))}
    (h : Reached polls key) :
    ∃ notices ∈ polls, ∃ notice ∈ notices, key ∈ notice.keys := by
  obtain ⟨notices, hnotices, hkey⟩ := h
  obtain ⟨notice, hnotice, hkey⟩ := List.mem_flatMap.mp ((List.takeWhile_sublist _).mem hkey)
  exact ⟨notices, hnotices, notice, hnotice, (List.mem_filter.mp hkey).1⟩

def messageIds {room : Nat} {bucket : String} (polls : List (List (Notice room bucket))) : List String :=
  polls.flatMap fun notices => notices.map fun notice => notice.message.messageId.getD ""

/-- Where every object of the bucket is announced, the polls of a queue without a prefix
    and a job over the bucket import the same exactly when the events reached are those of
    the keys that do not end with a slash. -/
theorem same_imports_iff {room pid jobId : Nat} {bucket : String} {queue : SqsQueue} {keys : List String}
    {polls : List (List (Notice room bucket))} {pages : List Page} {s s' : Store} {calls : List SqsCall}
    {ctx : Ctx} {job : JobDict} {r : Resolved} {jobCalls : List JobCall} {x : Except Exc JobResult}
    (hkeys : ∀ key, key ∈ keys ↔ ∃ notices ∈ polls, ∃ notice ∈ notices, key ∈ notice.keys)
    (hqueue : queue.importPrefix = "")
    (hnew : ∀ row ∈ s.events, row.queueId = queue.id → row.messageId ∉ messageIds polls)
    (hpolls : Polls pid queue (messageIds polls) s polls calls s') (hok : ∀ call ∈ calls, Accepts call.op call.ans)
    (hbucket : job.bucket = bucket) (hall : job.keyPrefix = "") (hlists : Lists pages job.keyPrefix keys)
    (hjob : Plays (importJobBody ctx job jobId r) jobCalls x)
    (hjobOk : ∀ call ∈ jobCalls, JobAccepts pages call.op call.ans) :
    (∀ p, p ∈ picked imports calls ↔ p ∈ picked imported jobCalls) ↔
      ∀ key ∈ keys, (Reached polls key ↔ Path.endsSlash key = false) := by
  have hmem : ∀ notices ∈ polls, ∀ notice ∈ notices, notice.message.messageId.getD "" ∈ messageIds polls :=
    fun notices hn notice hm =>
      List.mem_flatMap.mpr ⟨notices, hn, List.mem_map_of_mem hm⟩
  have hknown : Known queue bucket (messageIds polls) [] s := fun row hrow hq hm => absurd hm (hnew row hrow hq)
  obtain ⟨hsound, hcomplete⟩ := event_imports hqueue hmem hpolls hok hknown
  have hjobs := job_imports hjob hjobOk
  rw [hall] at hlists
  have hevent : ∀ key, (key, llPath bucket key) ∈ picked imports calls ↔ Reached polls key := by
    refine fun key => ⟨fun hp => ?_, fun h => (hcomplete key h).resolve_left nofun⟩
    obtain ⟨_, h, he⟩ := hsound _ hp
    cases he
    exact h
  have hlisted : ∀ key, (key, llPath bucket key) ∈ picked imported jobCalls ↔
      key ∈ keys ∧ Path.endsSlash key = false := by
    intro key
    rw [hjobs, ← mem_paginate hlists, hbucket]
    refine ⟨fun ⟨_, h, he⟩ => ?_, fun h => ⟨key, h, rfl⟩⟩
    cases he
    exact h
  constructor
  · intro hsame key hkey
    rw [← hevent, hsame, hlisted]
    exact and_iff_right hkey
  · intro h p
    constructor
    · intro hp
      obtain ⟨key, hreached, rfl⟩ := hsound p hp
      have hkey := (hkeys key).mpr (reached_key hreached)
      exact (hlisted key).mpr ⟨hkey, (h key hkey).mp hreached⟩
    · intro hp
      obtain ⟨key, _, rfl⟩ := (hjobs p).mp hp
      rw [hbucket] at hp ⊢
      obtain ⟨hkey, hend⟩ := (hlisted key).mp hp
      exact (hevent key).mpr ((h key hkey).mpr hend)

/-! ## One object -/

/-- S3's record of a new object in the bucket `b`. -/
def putRecord (encoded : String) : List (String × Json) :=
  [("eventSource", .str "aws:s3"), ("eventName", .str "ObjectCreated:Put"),
    ("s3", .obj [("bucket", .obj [("name", .str "b")]), ("object", .obj [("key", .str encoded)])])]

/-- A message that announces a folder marker. -/
def markerMessage : Message :=
  ⟨some "m", some "h",
    some ("\x7b\"Records\":[\x7b\"eventSource\":\"aws:s3\",\"eventName\":\"ObjectCreated:Put\"," ++
      "\"s3\":\x7b\"bucket\":\x7b\"name\":\"b\"\x7d,\"object\":\x7b\"key\":\"d/\"\x7d\x7d\x7d]\x7d")⟩

def putNotice (message : Message) (encoded : String) (hid : (toText (.str (message.messageId.getD ""))).isSome = true)
    (hloads : Json.loads 9 (message.body.getD "") =
      .ok (.obj [("Records", .arr [.obj (putRecord encoded)])])) : Notice 9 "b" where
  message := message
  records := [(.obj (putRecord encoded), unquotePlus encoded)]
  carries := .direct hloads rfl rfl
  announces r hr := by
    rw [List.mem_singleton.mp hr]
    exact .put rfl rfl rfl rfl rfl rfl rfl rfl
  idText := hid

set_option maxRecDepth 50000 in
theorem loads_put : Json.loads 9 ((putMessage "h").body.getD "") =
    .ok (.obj [("Records", .arr [.obj (putRecord "k")])]) := by
  rfl

set_option maxRecDepth 50000 in
theorem loads_marker : Json.loads 9 (markerMessage.body.getD "") =
    .ok (.obj [("Records", .arr [.obj (putRecord "d/")])]) := by
  rfl

-- otherwise an execution's type is a computation that parses the body
attribute [local irreducible] Json.loads parseS3Events

def plainNotice : Notice 9 "b" := putNotice (putMessage "h") "k" (by decide) loads_put

def markerNotice : Notice 9 "b" := putNotice markerMessage "d/" (by decide) loads_marker

/-- What a poll does with one message that announces one object, while everything accepts it. -/
def putCalls (message : Message) (event : S3Event) : List SqsCall :=
  [⟨SqsOp.existsForMessage ⟨"m", 1, event.key⟩, .ok false⟩, ⟨SqsOp.createEvent 1 "m" event, .ok ⟨0, 0⟩⟩,
    ⟨SqsOp.getForDatastoreUser "datastore" none, .ok true⟩, ⟨SqsOp.getLucidlinkToken, .ok (some "token")⟩,
    ⟨SqsOp.updateStatus ⟨0, 0⟩ .processing none, .ok true⟩,
    ⟨SqsOp.newClient "" "token" "filespace" "datastore", .ok ()⟩,
    ⟨SqsOp.ensureStructure (eventPath theQueue event), .ok (true, "")⟩,
    ⟨SqsOp.importFile event.key (eventPath theQueue event), .ok (201, "")⟩,
    ⟨SqsOp.updateStatus ⟨0, 0⟩ .completed none, .ok true⟩, ⟨SqsOp.close, .ok ()⟩,
    ⟨SqsOp.deleteMessage theQueue (message.receiptHandle.getD ""), .ok true⟩]

theorem putCalls_accepted {message : Message} {event : S3Event} (h : inserted 1 "m" event = true) :
    ∀ call ∈ putCalls message event, Accepts call.op call.ans := by
  intro call hc
  simp only [putCalls, List.mem_cons, List.not_mem_nil, or_false] at hc
  rcases hc with rfl | rfl | rfl | rfl | rfl | rfl | rfl | rfl | rfl | rfl | rfl
  case inr.inl =>
    show if _ then _ else _
    rw [if_pos h]
    exact ⟨_, rfl⟩
  all_goals first | exact rfl | exact ⟨_, rfl⟩ | exact ⟨_, by decide, rfl⟩ | exact ⟨_, _, Or.inr rfl, rfl⟩

def received (message : Message) : Store := { idleStore with deliveries := [delivery theQueue message] }

/-- The row is inserted, and brought to its end. -/
def putStore (message : Message) (row : SqsEvent) : Store :=
  (((received message).insert row).updateStatus ⟨0, 0⟩ .processing none).updateStatus ⟨0, 0⟩ .completed none

theorem polls_put {notice : Notice 9 "b"} {event : S3Event} {row : SqsEvent}
    (hid : notice.message.messageId = some "m")
    (hparse : parseS3Events 9 (notice.message.body.getD "") = .ok [event])
    (hcreate : isCreateEvent event.eventType = true)
    (hrow : newRow ⟨0, 0⟩ 1 "m" event .pending none = some row) (hrowId : row.id = ⟨0, 0⟩) :
    Polls 0 theQueue ["m"] idleStore [[notice]]
      (⟨SqsOp.receiveMessages theQueue, .ok [notice.message]⟩ :: putCalls notice.message event ++ [])
        (putStore notice.message row) := by
  have hsame : ∀ s, Elsewhere theQueue ["m"] s s := Elsewhere.refl theQueue ["m"]
  have hinsert : Store.exec 0 (received notice.message) (.createEvent 1 "m" event) (.ok ⟨0, 0⟩) =
      some ((received notice.message).insert row) := by
    rw [Store.exec, hrow]
    rfl
  have hthere : ((received notice.message).insert row).events.any (·.id == ⟨0, 0⟩) = true := by
    simp [Store.insert, hrowId]
  have hupdate : ∀ {s : Store} {st : EventStatus}, s.events.any (·.id == ⟨0, 0⟩) = true →
      Store.exec 0 s (.updateStatus ⟨0, 0⟩ st none) (.ok true) = some (s.updateStatus ⟨0, 0⟩ st none) := by
    intro s st h
    rw [Store.exec, if_pos h.symm]
  have hstill : ((((received notice.message).insert row).updateStatus ⟨0, 0⟩ .processing none).events.any
      (·.id == ⟨0, 0⟩)) = true := by
    simp [Store.insert, Store.updateStatus, hrowId]
  have hprog : handleMessages 9 theQueue [notice.message] 0 =
      (((handleEvent event theQueue "m" 0).bind fun n => .ret n).bind fun n =>
        (deleteMessage theQueue (notice.message.receiptHandle.getD "")).bind fun _ => .ret n).bind
        fun n => .ret n := by
    simp only [handleMessages, handleMessage, hparse, hid, handleEvents, if_pos hcreate, Option.getD_some]
    rfl
  refine .cons (x := .ok 1) ⟨idleStore, .ok [notice.message], received notice.message, _, hsame _, rfl, rfl,
    ?_⟩ (.nil _)
  show Exec (pollers 9) _ _ (handleMessages 9 theQueue [notice.message] 0) _ _ _ _
  rw [hprog]
  refine ⟨_, .ok false, received notice.message, _, hsame _, rfl, rfl, ?_⟩
  refine ⟨_, .ok ⟨0, 0⟩, _, _, hsame _, hinsert, rfl, ?_⟩
  refine ⟨_, .ok true, _, _, hsame _, rfl, rfl, ?_⟩
  refine ⟨_, .ok (some "token"), _, _, hsame _, rfl, rfl, ?_⟩
  refine ⟨_, .ok true, _, _, hsame _, hupdate hthere, rfl, ?_⟩
  refine ⟨_, .ok (), _, _, hsame _, rfl, rfl, ?_⟩
  refine ⟨_, .ok (true, ""), _, _, hsame _, rfl, rfl, ?_⟩
  refine ⟨_, .ok (201, ""), _, _, hsame _, rfl, rfl, ?_⟩
  refine ⟨_, .ok true, _, _, hsame _, hupdate hstill, rfl, ?_⟩
  refine ⟨_, .ok (), _, _, hsame _, rfl, rfl, ?_⟩
  exact ⟨_, .ok true, _, [], hsame _, rfl, rfl, rfl, rfl, hsame _⟩

/-- The job over a bucket that holds the object `k`. -/
def plainJob : List JobCall :=
  [⟨.newS3Service "key" "secret" "us-east-1" none, .ok ()⟩, ⟨.listAllObjects "b" "", .ok (["k"] : List String)⟩,
    ⟨.loadJob 1 { status := some .running, totalFiles := some 1 }, .ok (none : Option Worker.Job)⟩,
    ⟨.ensureStructure "b/dummy_file", .ok (true, "")⟩, ⟨.getJob 1, .ok (none : Option Worker.Job)⟩,
    ⟨.getJob 1, .ok (none : Option Worker.Job)⟩, ⟨.importFile "k" "/b/k", .ok ((201, "") : Nat × String)⟩,
    ⟨.loadJob 1 { status := some .running, completedFiles := some 1, failedFiles := some 0 },
      .ok (none : Option Worker.Job)⟩,
    ⟨.sleep, .ok ()⟩, ⟨.getJob 1, .ok (none : Option Worker.Job)⟩,
    ⟨.loadJob 1 { status := some .completed }, .ok (none : Option Worker.Job)⟩]

theorem plainJob_plays : Plays (importJobBody LucidLink.quietCtx LucidLink.theJob 1 LucidLink.theResolved) plainJob
    (.ok (.completed 1 0 1 0)) :=
  ⟨(), _, (), _, rfl, rfl, rfl, (), _, (), _, rfl, rfl, rfl, (), _, (), _, rfl, rfl, rfl, (), _, (), _, rfl, rfl, rfl,
    (), _, (), _, rfl, rfl, rfl, (), _, (), _, rfl, rfl, rfl, (), _, (), _, rfl, rfl, rfl, (), _, (), _,
    rfl, rfl, rfl,
    (), _, (), _, rfl, rfl, rfl, (), _, (), _, rfl, rfl, rfl, (), _, (), _, rfl, rfl, rfl, rfl, rfl, rfl⟩

theorem plainJob_accepted : ∀ call ∈ plainJob, JobAccepts [⟨some ["k"]⟩] call.op call.ans := by
  intro call hc
  simp only [plainJob, List.mem_cons, List.not_mem_nil, or_false] at hc
  rcases hc with rfl | rfl | rfl | rfl | rfl | rfl | rfl | rfl | rfl | rfl | rfl
  case inr.inl =>
    have hpage : paginate [⟨some ["k"]⟩] = ["k"] := by decide
    exact congrArg Except.ok hpage.symm
  all_goals first | exact ⟨_, rfl⟩ | exact ⟨_, rfl, rfl⟩ | exact ⟨_, _, Or.inr rfl, rfl⟩

def plainRow : SqsEvent := ⟨⟨0, 0⟩, 1, "m", "ObjectCreated:Put", "b", "k", none, .pending, none⟩

def plainCalls : List SqsCall :=
  ⟨SqsOp.receiveMessages theQueue, .ok [putMessage "h"]⟩ :: putCalls (putMessage "h") (LucidLink.putEvent "k") ++ []

theorem plain_polls : Polls 0 theQueue ["m"] idleStore [[plainNotice]] plainCalls
    (putStore (putMessage "h") plainRow) := by
  have hparse : parseS3Events 9 (plainNotice.message.body.getD "") = .ok [LucidLink.putEvent "k"] :=
    parse_carries plainNotice.carries rfl
  exact @polls_put plainNotice (LucidLink.putEvent "k") plainRow rfl hparse (by decide) (by decide) rfl

theorem same_imports_plain : ("k", "/b/k") ∈ picked imports plainCalls ↔
    ("k", "/b/k") ∈ picked imported plainJob := by
  have haccepted : ∀ call ∈ plainCalls, Accepts call.op call.ans := by
    intro call hc
    rw [plainCalls, List.append_nil] at hc
    rcases List.mem_cons.mp hc with rfl | hc
    · exact ⟨_, rfl⟩
    · exact putCalls_accepted (by decide) call hc
  have hkeys : ∀ key, key ∈ ["k"] ↔ ∃ notices ∈ [[plainNotice]], ∃ notice ∈ notices, key ∈ notice.keys := by
    intro key
    simp only [List.mem_singleton, exists_eq_left]
    rw [show plainNotice.keys = ["k"] by decide, List.mem_singleton]
  have hlists : Lists [⟨some ["k"]⟩] "" ["k"] := by
    intro key
    simp
  refine (same_imports_iff hkeys rfl
    (fun _ h => absurd h List.not_mem_nil) plain_polls haccepted rfl rfl hlists plainJob_plays
    plainJob_accepted).mpr ?_ _
  intro key hkey
  rw [List.mem_singleton.mp hkey]
  exact ⟨fun _ => by decide, fun _ => ⟨[plainNotice], List.mem_cons_self, by decide⟩⟩

def markerRow : SqsEvent := ⟨⟨0, 0⟩, 1, "m", "ObjectCreated:Put", "b", "d/", none, .pending, none⟩

def markerCalls : List SqsCall :=
  ⟨SqsOp.receiveMessages theQueue, .ok [markerMessage]⟩ :: putCalls markerMessage (LucidLink.putEvent "d/") ++ []

/-- A bucket that holds nothing but the folder marker `d/`. -/
theorem marker_imported : Polls 0 theQueue ["m"] idleStore [[markerNotice]] markerCalls
    (putStore markerMessage markerRow) ∧
    Plays (importJobBody LucidLink.quietCtx LucidLink.theJob 1 LucidLink.theResolved) LucidLink.noneListed
      (.ok .noFiles) ∧
      paginate [⟨some ["d/"]⟩] = [] ∧ ("d/", "/b/d/") ∈ picked imports markerCalls ∧
        ("d/", "/b/d/") ∉ picked imported LucidLink.noneListed := by
  have hparse : parseS3Events 9 (markerNotice.message.body.getD "") = .ok [LucidLink.putEvent "d/"] :=
    parse_carries markerNotice.carries rfl
  have hpolls := @polls_put markerNotice (LucidLink.putEvent "d/") markerRow rfl hparse (by decide) (by decide) rfl
  exact ⟨hpolls, LucidLink.noneListed_plays, by decide, by decide, by decide⟩

end Connect.Sqs
