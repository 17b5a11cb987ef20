/-
  Connect.Shell.StreamReader — asyncio's `StreamReader` as a subprocess pipe feeds it and
  `async for line in stream` reads it, and the text of a line.

  A line has at most `limit` bytes before its newline; `readline` raises ValueError at a
  longer one. It waits while no newline has arrived and the buffer is within the limit.
  The transport stops reading when the buffer has more than twice the limit, and goes on
  when a read has brought it down to the limit.
-/

import Connect.Url
import Mathlib.Data.List.TakeWhile

namespace Connect.Shell

abbrev Bytes := List UInt8

def newline : UInt8 := 10

/-! ## Lines -/

/-- The lines of a text without their newlines; nothing behind the last newline is no line. -/
def lines : Bytes → List Bytes
  | [] => []
  | b :: bs =>
    if b = newline then [] :: lines bs
    else
      match lines bs with
      | [] => [[b]]
      | l :: ls => (b :: l) :: ls

theorem lines_newline {l : Bytes} (h : newline ∉ l) (rest : Bytes) :
    lines (l ++ newline :: rest) = l :: lines rest := by
  induction l with
  | nil => simp [lines]
  | cons b l ih =>
    have hb : b ≠ newline := fun e => h (e ▸ List.mem_cons_self)
    rw [List.cons_append, lines, if_neg hb, ih fun hm => h (List.mem_cons_of_mem _ hm)]

/-- Without a newline all bytes so far belong to the first line. -/
theorem lines_open {l : Bytes} (h : newline ∉ l) (hl : l ≠ []) (rest : Bytes) :
    ∃ l' ls, lines (l ++ rest) = (l ++ l') :: ls := by
  induction l with
  | nil => exact absurd rfl hl
  | cons b l ih =>
    have hb : b ≠ newline := fun e => h (e ▸ List.mem_cons_self)
    rw [List.cons_append, lines, if_neg hb]
    by_cases hl : l = []
    · subst hl
      cases hrest : lines ([] ++ rest) with
      | nil => exact ⟨[], [], rfl⟩
      | cons l' ls => exact ⟨l', ls, rfl⟩
    · obtain ⟨l', ls, heq⟩ := ih (fun hm => h (List.mem_cons_of_mem _ hm)) hl
      exact ⟨l', ls, by rw [heq]; rfl⟩

theorem lines_last {l : Bytes} (h : newline ∉ l) (hl : l ≠ []) : lines l = [l] := by
  induction l with
  | nil => exact absurd rfl hl
  | cons b l ih =>
    have hb : b ≠ newline := fun e => h (e ▸ List.mem_cons_self)
    rw [lines, if_neg hb]
    by_cases hl : l = []
    · subst hl
      rfl
    · rw [ih (fun hm => h (List.mem_cons_of_mem _ hm)) hl]

/-! ## The text of a line -/

/-- `line.decode(errors="replace")`. -/
def decode (line : Bytes) : String := String.ofList (decodePieces none (line.map fun b => .byte b.toNat))

/-- `s.rstrip("\n")`. -/
def rstripNewline (s : String) : String := String.ofList (s.toList.reverse.dropWhile fun c => c = '\n').reverse

/-- However a sequence that has begun goes on, it is no ASCII character. -/
structure Started (p : Partial) : Prop where
  above : 0x80 ≤ p.lower
  big : 2 ≤ p.value * 64 + (p.lower - 0x80)
  last : p.left = 1 → 0x80 ≤ p.value * 64 + (p.lower - 0x80)

theorem ofNat_ne_newline {n : Nat} (h : n ≠ 10) : Char.ofNat n ≠ '\n' := by
  intro e
  by_cases hv : n.isValidChar
  · have hn : Char.ofNat n = Char.ofNatAux n hv := dif_pos hv
    exact h (congrArg Char.toNat (hn.symm.trans e))
  · have hn : Char.ofNat n = Char.ofNat 0 := dif_neg hv
    exact absurd (hn.symm.trans e) (by decide)

theorem firstByte_spec {b : Nat} (hb : b ≠ 10) :
    (∀ c ∈ (firstByte b).1, c ≠ '\n') ∧ ∀ p ∈ (firstByte b).2, Started p := by
  rw [firstByte]
  split
  · simpa using ofNat_ne_newline hb
  split
  · refine ⟨by simp, ?_⟩
    rintro p ⟨⟩
    constructor <;> dsimp only <;> omega
  split
  · refine ⟨by simp, ?_⟩
    rintro p ⟨⟩
    constructor <;> dsimp only <;> split <;> omega
  split
  · refine ⟨by simp, ?_⟩
    rintro p ⟨⟩
    constructor <;> dsimp only <;> split <;> omega
  · simp [replacement]

theorem nextByte_spec {p : Partial} (hp : Started p) {b : Nat} (hb : b ≠ 10) :
    (∀ c ∈ (nextByte p b).1, c ≠ '\n') ∧ ∀ q ∈ (nextByte p b).2, Started q := by
  obtain ⟨above, big, last⟩ := hp
  rw [nextByte]
  split
  · dsimp only
    split
    case isTrue hleft =>
      have hlast := last hleft
      refine ⟨?_, by simp⟩
      simpa using ofNat_ne_newline (n := p.value * 64 + (b - 0x80)) (by omega)
    case isFalse =>
      refine ⟨by simp, ?_⟩
      rintro q ⟨⟩
      constructor <;> dsimp only <;> omega
  · obtain ⟨hchars, hpartial⟩ := firstByte_spec hb
    refine ⟨?_, hpartial⟩
    intro c hc
    rcases List.mem_cons.mp hc with rfl | hc
    · decide
    · exact hchars c hc

theorem nextByte_newline {p : Partial} (hp : Started p) : nextByte p 10 = ([replacement, '\n'], none) := by
  rw [nextByte, if_neg fun h => absurd (Nat.le_trans hp.above h.1) (by decide)]
  rfl

/-- A newline in the bytes is one in the text, whatever is cut short before it. -/
theorem decodePieces_newline {p : Option Partial} (hp : ∀ q ∈ p, Started q) {bs : List Nat} (hbs : 10 ∉ bs) :
    decodePieces p (bs.map .byte ++ [.byte 10]) = decodePieces p (bs.map .byte) ++ ['\n'] ∧
      '\n' ∉ decodePieces p (bs.map .byte) := by
  induction bs generalizing p with
  | nil =>
    cases p with
    | none => decide
    | some q =>
      refine ⟨?_, by simp [decodePieces, cutShort, replacement]⟩
      show (nextByte q 10).1 ++ decodePieces (nextByte q 10).2 [] = _
      rw [nextByte_newline (hp q rfl)]
      rfl
  | cons b bs ih =>
    have hb : b ≠ 10 := fun e => hbs (e ▸ List.mem_cons_self)
    have hrest : 10 ∉ bs := fun hm => hbs (List.mem_cons_of_mem _ hm)
    -- what one byte gives, in front of what the others do
    have hstep {chars : List Char} {q : Option Partial} (hchars : ∀ c ∈ chars, c ≠ '\n') (hq : ∀ p ∈ q, Started p) :
        chars ++ decodePieces q (bs.map .byte ++ [.byte 10]) = (chars ++ decodePieces q (bs.map .byte)) ++ ['\n'] ∧
          '\n' ∉ chars ++ decodePieces q (bs.map .byte) := by
      obtain ⟨happend, hno⟩ := ih hq hrest
      refine ⟨by rw [happend, List.append_assoc], fun hm => ?_⟩
      rcases List.mem_append.mp hm with hm | hm
      · exact hchars _ hm rfl
      · exact hno hm
    cases p with
    | none =>
      obtain ⟨hchars, hpartial⟩ := firstByte_spec hb
      exact hstep hchars hpartial
    | some q =>
      obtain ⟨hchars, hpartial⟩ := nextByte_spec (hp q rfl) hb
      exact hstep hchars hpartial

theorem decode_line {l : Bytes} (h : newline ∉ l) :
    decode (l ++ [newline]) = String.ofList ((decode l).toList ++ ['\n']) ∧ '\n' ∉ (decode l).toList := by
  have hbs : 10 ∉ l.map UInt8.toNat := by
    intro hm
    obtain ⟨b, hb, hten⟩ := List.mem_map.mp hm
    exact h ((UInt8.toNat_inj (b := newline)).mp hten ▸ hb)
  obtain ⟨happend, hno⟩ := decodePieces_newline (p := none) (by simp) hbs
  rw [decode, decode, String.toList_ofList]
  simp only [List.map_append, List.map_map] at happend hno ⊢
  exact ⟨congrArg String.ofList happend, hno⟩

theorem rstripNewline_append {s : String} (h : '\n' ∉ s.toList) (ends : List Char) (he : ∀ c ∈ ends, c = '\n') :
    rstripNewline (String.ofList (s.toList ++ ends)) = s := by
  rw [rstripNewline, String.toList_ofList, List.reverse_append, List.dropWhile_append_of_pos]
  · rw [dropWhile_none, List.reverse_reverse, String.ofList_toList]
    intro c hc
    exact decide_eq_false fun e => h (e ▸ List.mem_reverse.mp hc)
  · simpa using he

/-- The text of a line is that of its bytes before the newline. -/
theorem text_line {l : Bytes} (h : newline ∉ l) : rstripNewline (decode (l ++ [newline])) = decode l := by
  obtain ⟨hdecode, hno⟩ := decode_line h
  rw [hdecode, rstripNewline_append hno _ (by simp)]

theorem text_last {l : Bytes} (h : newline ∉ l) : rstripNewline (decode l) = decode l := by
  have hstrip := rstripNewline_append (decode_line h).2 [] (by simp)
  rwa [List.append_nil, String.ofList_toList] at hstrip

/-! ## The reader -/

/-- `_DEFAULT_LIMIT`. -/
def limit : Nat := 65536

structure StreamReader where
  buffer : Bytes
  eof : Bool
  paused : Bool
  deriving DecidableEq, Repr

namespace StreamReader

def empty : StreamReader := ⟨[], false, false⟩

def feedData (r : StreamReader) (data : Bytes) : StreamReader :=
  { r with buffer := r.buffer ++ data, paused := r.paused || decide (2 * limit < (r.buffer ++ data).length) }

def feedEof (r : StreamReader) : StreamReader := { r with eof := true }

/-- `_maybe_resume_transport`. -/
def maybeResumeTransport (r : StreamReader) : StreamReader :=
  if r.paused ∧ r.buffer.length ≤ limit then { r with paused := false } else r

inductive Read where
  | line (line : Bytes) (r : StreamReader)
  /-- A ValueError. -/
  | error (r : StreamReader)

/-- `readline`, and `none` where it waits for data. -/
def readline (r : StreamReader) : Option Read :=
  match r.buffer.dropWhile fun b => b ≠ newline with
  | _ :: rest =>
    let line := r.buffer.takeWhile fun b => b ≠ newline
    let behind := maybeResumeTransport { r with buffer := rest }
    if limit < line.length then some (.error behind) else some (.line (line ++ [newline]) behind)
  | [] =>
    if limit < r.buffer.length then some (.error (maybeResumeTransport { r with buffer := [] }))
    else if r.eof then some (.line r.buffer { r with buffer := [] })
    else none

theorem readline_newline {r : StreamReader} {l rest : Bytes} (hr : r.buffer = l ++ newline :: rest)
    (h : newline ∉ l) :
    r.readline = if limit < l.length then some (.error (maybeResumeTransport { r with buffer := rest }))
      else some (.line (l ++ [newline]) (maybeResumeTransport { r with buffer := rest })) := by
  have hl : ∀ b ∈ l, decide (b ≠ newline) = true := fun b hb => decide_eq_true fun e => h (e ▸ hb)
  have hdrop : r.buffer.dropWhile (fun b => b ≠ newline) = newline :: rest := by
    rw [hr, List.dropWhile_append_of_pos hl, List.dropWhile_cons_of_neg (by simp)]
  have htake : r.buffer.takeWhile (fun b => b ≠ newline) = l := by
    rw [hr, List.takeWhile_append_of_pos hl, List.takeWhile_cons_of_neg (by simp), List.append_nil]
  rw [readline, hdrop, htake]

theorem readline_open {r : StreamReader} (h : newline ∉ r.buffer) :
    r.readline = if limit < r.buffer.length then some (.error (maybeResumeTransport { r with buffer := [] }))
      else if r.eof then some (.line r.buffer { r with buffer := [] }) else none := by
  have hdrop : r.buffer.dropWhile (fun b => b ≠ newline) = [] := by
    rw [List.dropWhile_eq_nil_iff]
    exact fun b hb => decide_eq_true fun e => h (e ▸ hb)
  rw [readline, hdrop]

/-- What a read that does not wait finds in the buffer. -/
inductive Finds (r : StreamReader) : Read → Prop where
  | line {l rest : Bytes} (buffer : r.buffer = l ++ newline :: rest) (first : newline ∉ l)
      (short : l.length ≤ limit) :
    Finds r (.line (l ++ [newline]) (maybeResumeTransport { r with buffer := rest }))
  | longLine {l rest : Bytes} (buffer : r.buffer = l ++ newline :: rest) (first : newline ∉ l)
      (long : limit < l.length) :
    Finds r (.error (maybeResumeTransport { r with buffer := rest }))
  | last (open_ : newline ∉ r.buffer) (short : r.buffer.length ≤ limit) (eof : r.eof = true) :
    Finds r (.line r.buffer { r with buffer := [] })
  | long (open_ : newline ∉ r.buffer) (long : limit < r.buffer.length) :
    Finds r (.error (maybeResumeTransport { r with buffer := [] }))

theorem readline_finds {r : StreamReader} {x : Read} (h : r.readline = some x) : Finds r x := by
  by_cases hn : newline ∈ r.buffer
  · obtain ⟨l, rest, hr, hl⟩ := List.eq_append_cons_of_mem hn
    rw [readline_newline hr hl] at h
    split at h
    case isTrue hlong =>
      obtain rfl := Option.some.inj h
      exact .longLine hr hl hlong
    case isFalse hshort =>
      obtain rfl := Option.some.inj h
      exact .line hr hl (Nat.le_of_not_lt hshort)
  · rw [readline_open hn] at h
    split at h
    case isTrue hlong =>
      obtain rfl := Option.some.inj h
      exact .long hn hlong
    case isFalse hshort =>
      split at h
      case isFalse => cases h
      case isTrue heof =>
        obtain rfl := Option.some.inj h
        exact .last hn (Nat.le_of_not_lt hshort) heof

/-- A read waits only when no more than the limit is there and more can come. -/
theorem waits {r : StreamReader} (h : r.readline = none) : r.buffer.length ≤ limit ∧ r.eof = false := by
  by_cases hn : newline ∈ r.buffer
  · obtain ⟨l, rest, hr, hl⟩ := List.eq_append_cons_of_mem hn
    rw [readline_newline hr hl] at h
    split at h <;> cases h
  · rw [readline_open hn] at h
    split at h
    case isTrue => cases h
    case isFalse hshort =>
      split at h
      case isTrue => cases h
      case isFalse heof => exact ⟨Nat.le_of_not_lt hshort, eq_false_of_ne_true heof⟩

@[simp] theorem buffer_maybeResumeTransport (r : StreamReader) : r.maybeResumeTransport.buffer = r.buffer := by
  rw [maybeResumeTransport]
  split <;> rfl

@[simp] theorem eof_maybeResumeTransport (r : StreamReader) : r.maybeResumeTransport.eof = r.eof := by
  rw [maybeResumeTransport]
  split <;> rfl

/-- The transport is paused only over a buffer that a read would bring down, and end of
    file comes behind everything else. -/
structure Fed (r : StreamReader) (unread : Bytes) : Prop where
  last : r.eof = true → unread = []
  full : r.paused = true → limit < r.buffer.length

theorem full_maybeResumeTransport (r : StreamReader) (h : r.maybeResumeTransport.paused = true) :
    limit < r.maybeResumeTransport.buffer.length := by
  rw [buffer_maybeResumeTransport]
  rw [maybeResumeTransport] at h
  split at h
  case isTrue => cases h
  case isFalse hr => exact Nat.lt_of_not_le fun hle => hr ⟨h, hle⟩

theorem fed_feedData {r : StreamReader} {data unread : Bytes} (h : Fed r (data ++ unread)) :
    Fed (r.feedData data) unread := by
  constructor
  · intro heof
    exact (List.append_eq_nil_iff.mp (h.last heof)).2
  · intro hp
    show limit < (r.buffer ++ data).length
    rcases Bool.or_eq_true_iff.mp hp with hp | hp
    · have hfull := h.full hp
      rw [List.length_append]
      omega
    · have hlong := of_decide_eq_true hp
      omega

theorem fed_feedEof {r : StreamReader} (h : Fed r []) : Fed r.feedEof [] := ⟨fun _ => rfl, h.full⟩

/-- What a read takes off the bytes that have arrived and those still to come. -/
inductive Takes (r : StreamReader) (unread : Bytes) : Read → Prop where
  | line {r' : StreamReader} {line l : Bytes} (ne : line ≠ []) (text : rstripNewline (decode line) = decode l)
      (first : lines (r.buffer ++ unread) = l :: lines (r'.buffer ++ unread)) (short : l.length ≤ limit)
      (fed : Fed r' unread) : Takes r unread (.line line r')
  | last {r' : StreamReader} (buffer : r.buffer ++ unread = []) (fed : Fed r' unread) : Takes r unread (.line [] r')
  | long {r' : StreamReader} {l : Bytes} {ls : List Bytes} (first : lines (r.buffer ++ unread) = l :: ls)
      (long : limit < l.length)
      (fed : Fed r' unread) : Takes r unread (.error r')

/-- However the bytes were fed, a read takes the first line of all that is not read. -/
theorem readline_takes {r : StreamReader} {unread : Bytes} {x : Read} (h : Fed r unread) (hx : r.readline = some x) :
    Takes r unread x := by
  have hresume (buffer : Bytes) : Fed (maybeResumeTransport { r with buffer }) unread :=
    ⟨fun heof => h.last (by simpa using heof), full_maybeResumeTransport _⟩
  have hfirst {l rest : Bytes} (hr : r.buffer = l ++ newline :: rest) (hl : newline ∉ l) :
      lines (r.buffer ++ unread) = l :: lines (rest ++ unread) := by
    rw [hr, List.append_assoc, List.cons_append, lines_newline hl]
  cases readline_finds hx with
  | @line l rest hr hl hshort =>
    refine .line (by simp) (text_line hl) ?_ hshort (hresume rest)
    rw [buffer_maybeResumeTransport]
    exact hfirst hr hl
  | @longLine l rest hr hl hlong => exact .long (hfirst hr hl) hlong (hresume rest)
  | long hopen hlong =>
    have hne : r.buffer ≠ [] := by
      intro e
      rw [e] at hlong
      exact absurd hlong (Nat.not_lt_zero _)
    obtain ⟨l, ls, hlines⟩ := lines_open hopen hne unread
    refine .long hlines ?_ (hresume [])
    rw [List.length_append]
    omega
  | last hopen hshort heof =>
    have hunread := h.last heof
    have hfed : Fed { r with buffer := [] } unread := ⟨h.last, fun hp => absurd (h.full hp) (Nat.not_lt_of_le hshort)⟩
    by_cases hne : r.buffer = []
    · rw [hne]
      exact .last (by rw [hne, hunread]; rfl) hfed
    · refine .line hne (text_last hopen) ?_ hshort hfed
      rw [hunread, List.append_nil, lines_last hopen hne]
      rfl

/-- What a read takes is no longer in the buffer. -/
theorem line_length {r r' : StreamReader} {line : Bytes} (h : r.readline = some (.line line r')) :
    line.length + r'.buffer.length = r.buffer.length := by
  cases readline_finds h with
  | line hr =>
    simp only [hr, List.length_append, List.length_cons, List.length_nil, buffer_maybeResumeTransport]
    omega
  | last => simp

theorem error_length {r r' : StreamReader} (h : r.readline = some (.error r')) :
    r'.buffer.length ≤ r.buffer.length := by
  cases readline_finds h with
  | longLine hr =>
    simp only [hr, List.length_append, List.length_cons, buffer_maybeResumeTransport]
    omega
  | long => simp

theorem line_eof {r r' : StreamReader} {line : Bytes} (h : r.readline = some (.line line r')) : r'.eof = r.eof := by
  cases readline_finds h with
  | line => rw [eof_maybeResumeTransport]
  | last => rfl

theorem error_eof {r r' : StreamReader} (h : r.readline = some (.error r')) : r'.eof = r.eof := by
  cases readline_finds h with
  | longLine => rw [eof_maybeResumeTransport]
  | long => rw [eof_maybeResumeTransport]

end StreamReader

end Connect.Shell
