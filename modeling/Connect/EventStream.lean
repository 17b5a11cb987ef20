/-
  Connect.EventStream — how an EventSource reads a response of text/event-stream.

  A line ends at a line feed, a carriage return or both. It is a field, a comment, or
  empty: then what the data fields gathered goes out as a message. What stands behind the
  last empty line never does.

  The reader takes one character after the other, so it does not matter where the response
  is cut: what was read of a part of it are the first messages of the whole (`read_prefix`).
  A text without line ends, written as one data field and an empty line, is one message
  (`feed_message`).
-/

namespace Connect.EventStream

structure Message where
  type : String
  data : List Char
  lastEventId : List Char
  deriving DecidableEq, Repr

structure Reader where
  line : List Char
  /-- The last line ended at a carriage return, and its line feed may follow. -/
  cr : Bool
  data : List Char
  eventType : List Char
  lastEventId : List Char
  messages : List Message
  deriving DecidableEq, Repr

def begin : Reader := ⟨[], false, [], [], [], []⟩

namespace Reader

def field (r : Reader) (name value : List Char) : Reader :=
  if name = ['d', 'a', 't', 'a'] then { r with data := r.data ++ value ++ ['\n'] }
  else if name = ['e', 'v', 'e', 'n', 't'] then { r with eventType := value }
  else if name = ['i', 'd'] then if Char.ofNat 0 ∈ value then r else { r with lastEventId := value }
  else r

def dispatch (r : Reader) : Reader :=
  if r.data = [] then { r with eventType := [] }
  else
    { r with
      data := []
      eventType := []
      messages := r.messages ++ [⟨if r.eventType = [] then "message" else String.ofList r.eventType,
        r.data.dropLast, r.lastEventId⟩] }

/-- The field of a line; one space behind the colon is not of its value. -/
def parse (r : Reader) (line : List Char) : Reader :=
  match line.dropWhile (· != ':') with
  | [] => r.field line []
  | ':' :: ' ' :: value | _ :: value => r.field (line.takeWhile (· != ':')) value

def endLine (r : Reader) : Reader :=
  match r.line with
  | [] => r.dispatch
  | ':' :: _ => { r with line := [] }
  | line => { r with line := [] }.parse line

def next (r : Reader) (c : Char) : Reader :=
  if c = '\n' then if r.cr then { r with cr := false } else r.endLine
  else if c = '\r' then { r.endLine with cr := true }
  else { r with cr := false, line := r.line ++ [c] }

def feed (r : Reader) (text : List Char) : Reader := text.foldl next r

theorem feed_append (r : Reader) (first rest : List Char) : r.feed (first ++ rest) = (r.feed first).feed rest :=
  List.foldl_append

end Reader

/-- A byte order mark in front is left out. -/
def read (body : List Char) : List Message :=
  match body with
  | c :: rest => if c.toNat = 0xFEFF then (begin.feed rest).messages else (begin.feed (c :: rest)).messages
  | [] => []

/-! ## Messages only come in -/

theorem messages_field (r : Reader) (name value : List Char) : (r.field name value).messages = r.messages := by
  unfold Reader.field
  repeat' split
  all_goals rfl

theorem messages_parse (r : Reader) (line : List Char) : (r.parse line).messages = r.messages := by
  unfold Reader.parse
  split <;> exact messages_field _ _ _

theorem messages_endLine (r : Reader) : r.messages <+: r.endLine.messages := by
  unfold Reader.endLine Reader.dispatch
  split
  · split
    · exact List.prefix_refl _
    · exact List.prefix_append _ _
  · exact List.prefix_refl _
  · exact (messages_parse _ _).symm ▸ List.prefix_refl _

theorem messages_next (r : Reader) (c : Char) : r.messages <+: (r.next c).messages := by
  unfold Reader.next
  split
  · split
    · exact List.prefix_refl _
    · exact messages_endLine r
  split
  · exact messages_endLine r
  · exact List.prefix_refl _

theorem messages_feed (r : Reader) (text : List Char) : r.messages <+: (r.feed text).messages := by
  induction text generalizing r with
  | nil => exact List.prefix_refl _
  | cons c text ih => exact (messages_next r c).trans (ih (r.next c))

/-- A part of a response gives the first of its messages. -/
theorem read_prefix {part body : List Char} (h : part <+: body) : read part <+: read body := by
  obtain ⟨rest, rfl⟩ := h
  cases part with
  | nil => exact List.nil_prefix
  | cons c part =>
    show read (c :: part) <+: read (c :: (part ++ rest))
    unfold read
    simp only []
    split
    · rw [Reader.feed_append]
      exact messages_feed _ _
    · rw [← List.cons_append, Reader.feed_append]
      exact messages_feed _ _

/-! ## A message of one line -/

def Unbroken (text : List Char) : Prop := '\n' ∉ text ∧ '\r' ∉ text

/-- Between two messages. -/
structure Reader.Clean (r : Reader) : Prop where
  line : r.line = []
  cr : r.cr = false
  data : r.data = []
  eventType : r.eventType = []

theorem feed_unbroken {r : Reader} (hcr : r.cr = false) {text : List Char} (h : Unbroken text) :
    r.feed text = { r with line := r.line ++ text } := by
  induction text generalizing r with
  | nil =>
    show r = _
    rw [List.append_nil]
  | cons c text ih =>
    obtain ⟨hn, hr⟩ := h
    have hnext : r.next c = { r with line := r.line ++ [c] } := by
      unfold Reader.next
      rw [if_neg fun he => hn (by simp [he]), if_neg fun he => hr (by simp [he]), hcr]
    show (r.next c).feed text = _
    rw [hnext, ih (r := { r with line := r.line ++ [c] }) hcr
      ⟨fun hm => hn (List.mem_cons_of_mem _ hm), fun hm => hr (List.mem_cons_of_mem _ hm)⟩]
    simp

/-- A text as one data field. -/
def dataFrame (text : List Char) : List Char := ['d', 'a', 't', 'a', ':', ' '] ++ text ++ ['\n', '\n']

theorem feed_message {r : Reader} (hr : r.Clean) {text : List Char} (h : Unbroken text) :
    r.feed (dataFrame text) = { r with messages := r.messages ++ [⟨"message", text, r.lastEventId⟩] } := by
  obtain ⟨hline, hcr, hdata, htype⟩ := hr
  have hfield : Unbroken (['d', 'a', 't', 'a', ':', ' '] ++ text) := by
    refine ⟨fun hm => ?_, fun hm => ?_⟩
    · exact (List.mem_append.mp hm).elim (by decide) h.1
    · exact (List.mem_append.mp hm).elim (by decide) h.2
  rw [dataFrame, Reader.feed_append, feed_unbroken hcr hfield, hline, List.nil_append]
  obtain ⟨line, cr, data, eventType, lastEventId, messages⟩ := r
  cases hline
  cases hcr
  cases hdata
  cases htype
  show Reader.dispatch ⟨[], false, text ++ ['\n'], [], lastEventId, messages⟩ = _
  unfold Reader.dispatch
  rw [if_neg (by simp)]
  simp

end Connect.EventStream
