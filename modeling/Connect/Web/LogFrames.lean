/-
  Connect.Web.LogFrames — what a browser shows of `/api/logs/stream` (main.py and the script
  of templates/base.html).

  An entry goes out as a frame, `data: `, its JSON and an empty line. `json.dumps` leaves no
  line end in it, whatever the entry says, so a frame is one message, and `JSON.parse` gives
  the entry back. Proved:
  - `shown_run`: in every run of the log and the generator, and wherever the response ends,
    the browser is shown the first entries that were sent, as they were logged, in order and
    none twice; and all of them once the response is complete.

  The response is ASCII, so its bytes are its characters.
-/

import Connect.EventStream
import Connect.Json.Dumps
import Connect.Web.LogStream

namespace Connect.LogStream

open EventStream (Message Reader Unbroken)

def logFields (text : String) : List (String × String) := [("type", "log"), ("message", text)]

/-- `data: {json.dumps({'type': 'log', 'message': log})}\n\n`. -/
def frame (text : String) : List Char :=
  EventStream.dataFrame (Json.dumpChars (.obj (Json.textFields (logFields text))))

def body (sent : List Entry) : List Char := sent.flatMap fun e => frame e.text

/-- `logsSource.onmessage`: the entry that is shown. -/
def onmessage (room : Nat) (event : Message) : Option String :=
  if event.type = "message" then
    match Json.loads room (String.ofList event.data) with
    | .ok (.obj data) =>
      match data.lookup "type", data.lookup "message" with
      | some (.str "log"), some (.str message) => some message
      | _, _ => none
    | _ => none
  else none

/-- What the browser shows of a response. -/
def shown (room : Nat) (response : List Char) : List String := (EventStream.read response).filterMap (onmessage room)

/-! ## A frame is one message -/

theorem unbroken_append {a b : List Char} (ha : Unbroken a) (hb : Unbroken b) : Unbroken (a ++ b) :=
  ⟨fun h => (List.mem_append.mp h).elim ha.1 hb.1, fun h => (List.mem_append.mp h).elim ha.2 hb.2⟩

theorem unbroken_unicodeEscape (n : Nat) : Unbroken (Json.unicodeEscape n) := by
  have hdigit : ∀ d < 16, Nat.digitChar d ≠ '\n' ∧ Nat.digitChar d ≠ '\r' := by decide
  have hhex : Unbroken (Json.hex4 n) := by
    refine ⟨fun h => ?_, fun h => ?_⟩
    · obtain ⟨d, hd, hc⟩ := List.mem_map.mp h
      refine (hdigit d ?_).1 hc
      simp only [List.mem_cons, List.not_mem_nil, or_false] at hd
      omega
    · obtain ⟨d, hd, hc⟩ := List.mem_map.mp h
      refine (hdigit d ?_).2 hc
      simp only [List.mem_cons, List.not_mem_nil, or_false] at hd
      omega
  exact @unbroken_append ['\\', 'u'] _ (by unfold Unbroken; decide) hhex

theorem unbroken_escapeChar (c : Char) : Unbroken (Json.escapeChar c) := by
  unfold Json.escapeChar
  dsimp only
  split
  · unfold Unbroken; decide
  split
  · unfold Unbroken; decide
  split
  · unfold Unbroken; decide
  rename_i hn
  split
  · unfold Unbroken; decide
  rename_i hr
  split
  · unfold Unbroken; decide
  split
  · unfold Unbroken; decide
  split
  · unfold Unbroken; decide
  split
  · refine ⟨fun h => hn ?_, fun h => hr ?_⟩
    · rw [← List.mem_singleton.mp h]
      rfl
    · rw [← List.mem_singleton.mp h]
      rfl
  split
  · exact unbroken_unicodeEscape _
  · exact unbroken_append (unbroken_unicodeEscape _) (unbroken_unicodeEscape _)

theorem unbroken_quoted (s : String) : Unbroken (Json.quoted s) := by
  have hall : ∀ cs : List Char, Unbroken (cs.flatMap Json.escapeChar) := by
    intro cs
    induction cs with
    | nil => exact ⟨List.not_mem_nil, List.not_mem_nil⟩
    | cons c cs ih => exact unbroken_append (unbroken_escapeChar c) ih
  exact @unbroken_append ('"' :: s.toList.flatMap Json.escapeChar) ['"']
    (@unbroken_append ['"'] _ (by unfold Unbroken; decide) (hall _)) (by unfold Unbroken; decide)

theorem unbroken_field (k v : String) : Unbroken (Json.quoted k ++ [':', ' '] ++ Json.quoted v) :=
  unbroken_append (unbroken_append (unbroken_quoted k) (by unfold Unbroken; decide)) (unbroken_quoted v)

/-- What `json.dumps` writes of a dict of strings has no line ends. -/
theorem unbroken_dumps (fields : List (String × String)) :
    Unbroken (Json.dumpChars (.obj (Json.textFields fields))) := by
  have hfields : ∀ fields : List (String × String), Unbroken (Json.dumpFields (Json.textFields fields)) := by
    intro fields
    induction fields with
    | nil =>
      show Unbroken ['}']
      unfold Unbroken
      decide
    | cons f fs ih =>
      have hdump : Json.dumpFields (Json.textFields (f :: fs)) =
          [',', ' '] ++ (Json.quoted f.1 ++ [':', ' '] ++ Json.quoted f.2 ++
            Json.dumpFields (Json.textFields fs)) := rfl
      rw [hdump]
      exact unbroken_append (by unfold Unbroken; decide) (unbroken_append (unbroken_field _ _) ih)
  cases fields with
  | nil =>
    show Unbroken ['{', '}']
    unfold Unbroken
    decide
  | cons f fs =>
    have hdump : Json.dumpChars (.obj (Json.textFields (f :: fs))) =
        ['{'] ++ (Json.quoted f.1 ++ [':', ' '] ++ Json.quoted f.2 ++ Json.dumpFields (Json.textFields fs)) := rfl
    rw [hdump]
    exact unbroken_append (by unfold Unbroken; decide) (unbroken_append (unbroken_field _ _) (hfields fs))

/-! ## The browser -/

theorem onmessage_frame {room : Nat} (hroom : 0 < room) (text : String) (lastEventId : List Char) :
    onmessage room ⟨"message", Json.dumpChars (.obj (Json.textFields (logFields text))), lastEventId⟩ =
      some text := by
  have hkeys : ((logFields text).map (·.1)).Nodup := by
    show ["type", "message"].Nodup
    decide
  have hloads : Json.loads room (String.ofList (Json.dumpChars (.obj (Json.textFields (logFields text))))) = _ :=
    Json.loads_dumps (Json.readable_textFields hroom hkeys)
  unfold onmessage
  rw [if_pos rfl, hloads]
  rfl

/-- From one frame to the next the reader is clean. -/
theorem feed_body {r : Reader} (hr : r.Clean) (sent : List Entry) :
    (r.feed (body sent)).messages = r.messages ++
      sent.map fun e => ⟨"message", Json.dumpChars (.obj (Json.textFields (logFields e.text))), r.lastEventId⟩ := by
  induction sent generalizing r with
  | nil => exact (List.append_nil _).symm
  | cons e sent ih =>
    have hbody : body (e :: sent) = frame e.text ++ body sent := rfl
    rw [hbody, Reader.feed_append, frame, EventStream.feed_message hr (unbroken_dumps _)]
    have hnext := @ih { r with messages := r.messages ++
      [⟨"message", Json.dumpChars (.obj (Json.textFields (logFields e.text))), r.lastEventId⟩] }
      ⟨hr.line, hr.cr, hr.data, hr.eventType⟩
    rw [hnext, List.map_cons, List.append_assoc]
    rfl

theorem shown_body {room : Nat} (hroom : 0 < room) (sent : List Entry) :
    shown room (body sent) = sent.map (·.text) := by
  have hread : EventStream.read (body sent) = (EventStream.begin.feed (body sent)).messages := by
    cases sent with
    | nil => rfl
    | cons e sent => rfl
  unfold shown
  rw [hread, feed_body ⟨rfl, rfl, rfl, rfl⟩]
  have hone : (onmessage room ∘ fun e : Entry =>
      (⟨"message", Json.dumpChars (.obj (Json.textFields (logFields e.text))),
        EventStream.begin.lastEventId⟩ : Message)) =
      fun e => some e.text := by
    funext e
    rw [Function.comp_apply]
    exact onmessage_frame hroom e.text EventStream.begin.lastEventId
  have hbegin : EventStream.begin.messages = [] := rfl
  rw [hbegin, List.nil_append, List.filterMap_map, hone]
  exact congrFun List.filterMap_eq_map sent

/-- Wherever the response ends, the browser is shown the first of the entries that were sent,
    in the order they were logged in and none twice; all of them if it is complete. -/
theorem shown_run {room : Nat} (hroom : 0 < room) (es : List Event) {response : List Char}
    (h : response <+: body (run start es).sent) :
    ∃ entries, entries <+: (run start es).sent ∧ Ordered entries ∧ shown room response = entries.map (·.text) ∧
      (response = body (run start es).sent → entries = (run start es).sent) := by
  have hshown : shown room response <+: (run start es).sent.map (·.text) := by
    rw [← shown_body hroom]
    exact (EventStream.read_prefix h).filterMap _
  refine ⟨(run start es).sent.take (shown room response).length, List.take_prefix _ _, ?_, ?_, fun hall => ?_⟩
  · exact (ordered_run es).sublist ((List.take_sublist _ _).map _)
  · rw [List.map_take]
    exact List.prefix_iff_eq_take.mp hshown
  · refine List.take_of_length_le ?_
    have hlength : (shown room response).length = (run start es).sent.length := by
      rw [hall, shown_body hroom, List.length_map]
    exact Nat.le_of_eq hlength.symm

/-- An entry that looks like the end of a frame. -/
theorem shown_run_one : ∃ entries, entries <+:
    (run start [.log "10:00:00" "a\n\ndata: b", .wake false]).sent ∧ Ordered entries ∧
    shown 1 (body (run start [.log "10:00:00" "a\n\ndata: b", .wake false]).sent) = entries.map (·.text) ∧
    (body (run start [.log "10:00:00" "a\n\ndata: b", .wake false]).sent = body
      (run start [.log "10:00:00" "a\n\ndata: b", .wake false]).sent →
      entries = (run start [.log "10:00:00" "a\n\ndata: b", .wake false]).sent) :=
  shown_run (by decide) [.log "10:00:00" "a\n\ndata: b", .wake false] (List.prefix_refl _)

end Connect.LogStream
