/-
  Connect.Redis — what a client sees of a Redis server: requests and one-line replies as
  bytes, how the network hands a reply over, and the typed values of the keyspace.

  A value has one type, and a command for another type answers with an error. A sorted
  set without members is no value at all: its key does not exist.
-/

namespace Connect.Redis

abbrev Octets := List UInt8

def octets (s : String) : Octets := s.toList.flatMap String.utf8EncodeChar

def crlf : Octets := [13, 10]

/-! ## Requests -/

/-- A bulk string under its length in bytes. -/
def bulk (part : String) : Octets :=
  octets "$" ++ octets (toString (octets part).length) ++ crlf ++ octets part ++ crlf

/-- A command: an array of bulk strings. -/
def command (parts : List String) : Octets :=
  octets "*" ++ octets (toString parts.length) ++ crlf ++ parts.flatMap bulk

theorem octets_append (s t : String) : octets (s ++ t) = octets s ++ octets t := by
  simp [octets, String.toList_append]

/-- ASCII text has one byte for each character. -/
theorem octets_ascii {s : String} (h : ∀ c ∈ s.toList, c.toNat < 128) : octets s = s.toList.map (·.val.toUInt8) := by
  rw [octets]
  generalize s.toList = cs at h
  induction cs with
  | nil => rfl
  | cons c cs ih =>
    have hc : c.utf8Size = 1 := by
      rw [Char.utf8Size_eq_one_iff, UInt32.le_iff_toNat_le]
      exact Nat.le_of_lt_succ (h c (by simp))
    rw [List.flatMap_cons, String.utf8EncodeChar_eq_singleton hc, ih (fun d hd => h d (by simp [hd]))]
    rfl

theorem length_octets {s : String} (h : ∀ c ∈ s.toList, c.toNat < 128) : (octets s).length = s.length := by
  rw [octets_ascii h, List.length_map, String.length_toList]

theorem toNat_byte {c : Char} (h : c.toNat < 128) : c.val.toUInt8.toNat = c.toNat := by
  rw [UInt32.toNat_toUInt8]
  exact Nat.mod_eq_of_lt (Nat.lt_trans h (by decide))

/-- Its bytes, read as characters, are the text. -/
theorem chars_octets {s : String} (h : ∀ c ∈ s.toList, c.toNat < 128) :
    (octets s).map (fun b => Char.ofNat b.toNat) = s.toList := by
  rw [octets_ascii h, List.map_map]
  conv => rhs; rw [← List.map_id s.toList]
  refine List.map_congr_left fun c hc => ?_
  show Char.ofNat c.val.toUInt8.toNat = c
  rw [toNat_byte (h c hc), Char.ofNat_toNat]

theorem not_mem_octets {s : String} {b : UInt8} (h : ∀ c ∈ s.toList, c.toNat < 128 ∧ c.toNat ≠ b.toNat) :
    b ∉ octets s := by
  rw [octets_ascii (fun c hc => (h c hc).1)]
  intro hm
  obtain ⟨c, hc, rfl⟩ := List.mem_map.mp hm
  exact (h c hc).2 (toNat_byte (h c hc).1).symm

theorem toList_toString (n : Nat) : (toString n).toList = Nat.toDigits 10 n := by
  rw [Nat.toString_eq_ofList_toDigits, String.toList_ofList]

theorem ascii_toString (n : Nat) : ∀ c ∈ (toString n).toList, c.toNat < 128 ∧ '0'.toNat ≤ c.toNat := by
  intro c hc
  rw [toList_toString] at hc
  have hd := Nat.isDigit_of_mem_toDigits (by decide) (by decide) hc
  rw [Char.isDigit_iff_toNat] at hd
  exact ⟨Nat.lt_of_le_of_lt hd.2 (by decide), hd.1⟩

/-! ## Reading a command -/

/-- What is before the first CRLF, and what is behind it. -/
def takeLine : Octets → Option (Octets × Octets)
  | [] => none
  | b :: bs =>
    if crlf.isPrefixOf (b :: bs) then some ([], bs.drop 1) else (takeLine bs).map fun found => (b :: found.1, found.2)

def decimal (bs : Octets) : Option Nat :=
  let cs := bs.map fun b => Char.ofNat b.toNat
  if cs ≠ [] ∧ cs.all Char.isDigit then some (Nat.ofDigitChars 10 cs 0) else none

/-- `$` or `*`, and the number behind it. -/
def takeHeader (mark : String) (bs : Octets) : Option (Nat × Octets) :=
  if (octets mark).isPrefixOf bs then do
    let (digits, bs) ← takeLine (bs.drop (octets mark).length)
    return (← decimal digits, bs)
  else none

/-- A bulk string: as many bytes as its length says, and CRLF. -/
def takeBulk (bs : Octets) : Option (Octets × Octets) := do
  let (n, bs) ← takeHeader "$" bs
  if crlf.isPrefixOf (bs.drop n) then some (bs.take n, bs.drop (n + 2)) else none

def takeBulks : Nat → Octets → Option (List Octets × Octets)
  | 0, bs => some ([], bs)
  | n + 1, bs => do
    let (first, bs) ← takeBulk bs
    let (others, bs) ← takeBulks n bs
    return (first :: others, bs)

/-- An array of bulk strings, and what is left behind it. -/
def takeCommand (bs : Octets) : Option (List Octets × Octets) := do
  let (n, bs) ← takeHeader "*" bs
  takeBulks n bs

theorem takeLine_append {text : Octets} (h : (13 : UInt8) ∉ text) (rest : Octets) :
    takeLine (text ++ crlf ++ rest) = some (text, rest) := by
  induction text with
  | nil => rfl
  | cons b text ih =>
    have hb : crlf.isPrefixOf (b :: (text ++ crlf ++ rest)) = false := by
      rw [crlf, List.isPrefixOf_cons_cons, Bool.and_eq_false_iff]
      left
      rw [beq_eq_false_iff_ne]
      rintro rfl
      exact h List.mem_cons_self
    rw [List.cons_append, List.cons_append, takeLine, hb, if_neg (by decide),
      ih fun hm => h (List.mem_cons_of_mem _ hm)]
    rfl

theorem decimal_toString (n : Nat) : decimal (octets (toString n)) = some n := by
  have hchars : (octets (toString n)).map (fun b => Char.ofNat b.toNat) = Nat.toDigits 10 n := by
    rw [chars_octets fun c hc => (ascii_toString n c hc).1, toList_toString]
  have hdigits : (Nat.toDigits 10 n).all Char.isDigit = true := by
    rw [List.all_eq_true]
    exact fun c hc => Nat.isDigit_of_mem_toDigits (by decide) (by decide) hc
  rw [decimal, hchars, if_pos ⟨Nat.toDigits_ne_nil, hdigits⟩, Nat.ofDigitChars_ten_toDigits]

theorem takeHeader_append {mark : String} (n : Nat) (rest : Octets) :
    takeHeader mark (octets mark ++ octets (toString n) ++ crlf ++ rest) = some (n, rest) := by
  have hdigits : (13 : UInt8) ∉ octets (toString n) := by
    refine not_mem_octets fun c hc => ?_
    obtain ⟨hlt, hle⟩ := ascii_toString n c hc
    exact ⟨hlt, Nat.ne_of_gt (Nat.lt_of_lt_of_le (by decide) hle)⟩
  have hmark : (octets mark).isPrefixOf (octets mark ++ octets (toString n) ++ crlf ++ rest) = true := by
    rw [List.isPrefixOf_iff_prefix, List.append_assoc, List.append_assoc]
    exact List.prefix_append _ _
  rw [takeHeader, if_pos hmark, List.append_assoc, List.append_assoc, List.drop_left, ← List.append_assoc,
    takeLine_append hdigits, Option.bind_eq_bind, Option.bind_some]
  dsimp only
  rw [decimal_toString]
  rfl

/-- A length takes that many bytes, when CRLF is behind them. -/
theorem takeBulk_append (n : Nat) (bs : Octets) : takeBulk (octets "$" ++ octets (toString n) ++ crlf ++ bs) =
    if crlf.isPrefixOf (bs.drop n) then some (bs.take n, bs.drop (n + 2)) else none := by
  rw [takeBulk, takeHeader_append]
  rfl

theorem takeBulk_bulk (part : String) (rest : Octets) : takeBulk (bulk part ++ rest) = some (octets part, rest) := by
  have hbytes : bulk part ++ rest =
      octets "$" ++ octets (toString (octets part).length) ++ crlf ++ (octets part ++ (crlf ++ rest)) := by
    simp only [bulk, List.append_assoc]
  rw [hbytes, takeBulk_append, List.drop_left, if_pos (by simp [crlf]), List.take_left, ← List.drop_drop,
    List.drop_left]
  rfl

theorem takeBulks_bulk (parts : List String) (rest : Octets) :
    takeBulks parts.length (parts.flatMap bulk ++ rest) = some (parts.map octets, rest) := by
  induction parts with
  | nil => rfl
  | cons part parts ih =>
    rw [List.flatMap_cons, List.append_assoc, List.length_cons, takeBulks, takeBulk_bulk]
    show (takeBulks parts.length (parts.flatMap bulk ++ rest)).bind _ = _
    rw [ih]
    rfl

/-- A command is read as the bytes of its parts. -/
theorem takeCommand_command (parts : List String) : takeCommand (command parts) = some (parts.map octets, []) := by
  rw [takeCommand, command, takeHeader_append]
  have h := takeBulks_bulk parts []
  rw [List.append_nil] at h
  exact h

/-! ## Replies -/

/-- One line: CRLF at the end, and no line break before. -/
def IsLine (bs : Octets) : Prop := ∃ text : Octets, bs = text ++ crlf ∧ (10 : UInt8) ∉ text

/-- How a reply arrives: in pieces that are not empty and that a read of `room` bytes takes. -/
structure Pieces (room : Nat) (reply : Octets) where
  pieces : List Octets
  joined : pieces.flatten = reply
  small : ∀ p ∈ pieces, p ≠ [] ∧ p.length ≤ room

def endsCrlf (bs : Octets) : Bool := crlf.isSuffixOf bs

/-- CRLF at the end, and nowhere before. -/
structure OneCrlf (bs : Octets) : Prop where
  ends : endsCrlf bs = true
  only : ∀ front back, bs = front ++ crlf ++ back → back = []

/-- What has arrived of such a reply does not look complete before it is. -/
theorem OneCrlf.not_ends {bs rest : Octets} (h : OneCrlf (bs ++ rest)) (hr : rest ≠ []) : endsCrlf bs = false := by
  rw [Bool.eq_false_iff]
  intro he
  obtain ⟨front, rfl⟩ : crlf <:+ bs := by simpa [endsCrlf] using he
  exact hr (h.only front rest rfl)

theorem IsLine.oneCrlf {bs : Octets} (h : IsLine bs) : OneCrlf bs := by
  obtain ⟨text, rfl, hno⟩ := h
  refine ⟨by simp [endsCrlf], fun front back heq => ?_⟩
  have hlen : text.length = front.length + back.length := by
    have := congrArg List.length heq
    simp [crlf] at this
    omega
  have hget : (text ++ crlf)[front.length + 1]? = some 10 := by
    rw [heq]
    simp [crlf]
  by_cases hlt : front.length + 1 < text.length
  · -- the LF of the CRLF is inside the text
    rw [List.getElem?_append_left hlt] at hget
    exact absurd (List.mem_of_getElem? hget) hno
  · by_cases he : front.length + 1 = text.length
    · -- one byte is missing: the LF would be where the CR is
      rw [he, List.getElem?_append_right (Nat.le_refl _)] at hget
      simp [crlf] at hget
    · exact List.eq_nil_of_length_eq_zero (by omega)

/-! ## The keyspace -/

inductive Value where
  | string (bytes : Octets)
  | list (items : List Octets)
  | zset (members : List String)
  deriving DecidableEq, Repr

abbrev Keyspace := String → Option Value

inductive Reply where
  | int (n : Nat)
  | error (text : String)
  deriving DecidableEq, Repr

def Reply.line : Reply → Octets
  | .int n => octets ":" ++ octets (toString n) ++ crlf
  | .error text => octets "-" ++ octets text ++ crlf

theorem isLine_int (n : Nat) : IsLine (Reply.int n).line := by
  refine ⟨octets ":" ++ octets (toString n), rfl, fun hm => ?_⟩
  rcases List.mem_append.mp hm with hm | hm
  · exact absurd hm (by decide)
  · refine not_mem_octets (fun c hc => ?_) hm
    obtain ⟨hlt, hle⟩ := ascii_toString n c hc
    exact ⟨hlt, Nat.ne_of_gt (Nat.lt_of_lt_of_le (by decide) hle)⟩

def wrongType : String := "WRONGTYPE Operation against a key holding the wrong kind of value"

theorem isLine_wrongType : IsLine (Reply.error wrongType).line := ⟨octets "-" ++ octets wrongType, rfl, by decide⟩

def llenReply : Option Value → Reply
  | none => .int 0
  | some (.list items) => .int items.length
  | some _ => .error wrongType

theorem isLine_llenReply (v : Option Value) : IsLine (llenReply v).line := by
  cases v with
  | none => exact isLine_int 0
  | some v =>
    cases v with
    | list items => exact isLine_int items.length
    | string bytes => exact isLine_wrongType
    | zset members => exact isLine_wrongType

/-- The value of a sorted set with these members. -/
def sortedSet (members : List String) : Option Value := if members = [] then none else some (.zset members)

def zadd (m : String) : Option Value → Option Value
  | none => sortedSet [m]
  | some (.zset ms) => sortedSet (if m ∈ ms then ms else ms ++ [m])
  | v => v

def zrem (m : String) : Option Value → Option Value
  | some (.zset ms) => sortedSet (ms.filter (· != m))
  | v => v

theorem zadd_sortedSet (m : String) (ms : List String) :
    zadd m (sortedSet ms) = sortedSet (if m ∈ ms then ms else ms ++ [m]) := by
  cases ms with
  | nil => simp [sortedSet, zadd]
  | cons x xs => simp [sortedSet, zadd]

theorem zrem_sortedSet (m : String) (ms : List String) : zrem m (sortedSet ms) = sortedSet (ms.filter (· != m)) := by
  cases ms with
  | nil => simp [sortedSet, zrem]
  | cons x xs => simp [sortedSet, zrem]

/-- `LLEN` counts no sorted set: it is right about the empty one alone. -/
theorem llenReply_sortedSet (ms : List String) :
    llenReply (sortedSet ms) = if ms = [] then .int 0 else .error wrongType := by
  unfold sortedSet
  split <;> rfl

end Connect.Redis
