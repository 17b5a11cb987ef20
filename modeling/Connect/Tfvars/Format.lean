/-
  Connect.Tfvars.Format — reading and writing terraform.tfvars (connect_bootstrap/tfvars.py).

  A file is lines of `name = value`; a line that is none is skipped. A string is written
  between quotes, and nothing in it is escaped: reading takes what is between the first
  and the last character of the value. So booleans, integers and strings of one line come
  back as they were (`parse_render`).

  The tables of Unicode are a parameter; nothing depends on what is in them.
-/

import Connect.Uuid

namespace Connect.Tfvars

open Chars

/-! ## Strings -/

/-- `c.isspace()`. -/
def isSpace (c : Char) : Bool :=
  let n := c.toNat
  (9 ≤ n && n ≤ 13) || (28 ≤ n && n ≤ 32) || n == 0x85 || n == 0xA0 || n == 0x1680 || (0x2000 ≤ n && n ≤ 0x200A) ||
    n == 0x2028 || n == 0x2029 || n == 0x202F || n == 0x205F || n == 0x3000

/-- Where `splitlines` ends a line. -/
def isBreak (c : Char) : Bool :=
  let n := c.toNat
  (10 ≤ n && n ≤ 13) || (28 ≤ n && n ≤ 30) || n == 0x85 || n == 0x2028 || n == 0x2029

def strip (cs : List Char) : List Char := stripWith isSpace cs

/-- `s.splitlines()`; `cur` is the line so far, backwards. -/
def splitLines (cur : List Char) : List Char → List (List Char)
  | [] => if cur = [] then [] else [cur.reverse]
  | '\r' :: '\n' :: cs => cur.reverse :: splitLines [] cs
  | c :: cs => if isBreak c then cur.reverse :: splitLines [] cs else splitLines (c :: cur) cs

/-- `s.startswith(a) and s.endswith(b)`. -/
def enclosed (a b : Char) (s : List Char) : Bool := s.head? = some a && s.getLast? = some b

/-- `s[1:-1]`. -/
def inside (s : List Char) : List Char := (s.drop 1).dropLast

structure CPython extends Unicode where
  /-- `isdigit` outside ASCII where `isdecimal` is false: superscripts and the like. -/
  otherDigit : Char → Bool
  /-- `isprintable` outside ASCII. -/
  printable : Char → Bool
  /-- `str(float(s))`. -/
  floatStr : String → String

/-- No character outside ASCII is a digit, a space or printable. -/
def asciiOnly : CPython := ⟨⟨fun _ => none, fun _ => false⟩, fun _ => false, fun _ => false, id⟩

variable (P : CPython)

/-- A decimal digit of any script as the one of ASCII. -/
def CPython.toAscii (c : Char) : Char :=
  if c.toNat < 128 then c else match P.decimal c with
    | some d => Nat.digitChar d
    | none => c

/-- `int(s)`. -/
def CPython.int (s : List Char) : Option Int := asciiInt (s.map P.toAscii)

def isE (c : Char) : Bool := c = 'e' || c = 'E'

def dropSign : List Char → List Char
  | '+' :: cs | '-' :: cs => cs
  | cs => cs

/-- Whether `float(s)` reads `s`, a stripped string. -/
def CPython.isFloat (s : List Char) : Bool :=
  let digit (c : Char) : Bool := c.isDigit || c = '_'
  let cs := dropSign (s.map P.toAscii)
  let whole := cs.takeWhile digit
  let rest := cs.drop whole.length
  let fraction := if rest.head? = some '.' then (rest.drop 1).takeWhile digit else []
  let rest := if rest.head? = some '.' then (rest.drop 1).drop fraction.length else rest
  let number := (whole.isEmpty || digitsOk false whole) && (fraction.isEmpty || digitsOk false fraction) &&
    !(whole.isEmpty && fraction.isEmpty)
  let exponent := rest.isEmpty || (rest.head?.any isE && digitsOk false (dropSign (rest.drop 1)))
  ["inf".toList, "infinity".toList, "nan".toList].contains (cs.map Char.toLower) || (number && exponent)

/-! ## Reading -/

inductive Value where
  | str (s : String)
  | bool (b : Bool)
  | int (n : Int)
  | float (literal : String)
  | list (items : List String)
  deriving DecidableEq, Repr

/-- `_decode_value`. -/
def decodeValue (s : List Char) : Value :=
  let s := strip s
  if enclosed '"' '"' s then .str (String.ofList (inside s))
  else if s = "true".toList ∨ s = "false".toList then .bool (s = "true".toList)
  else if enclosed '[' ']' s then
    let inner := strip (inside s)
    if inner = [] then .list []
    else .list ((inner.splitOn ',').map fun p => String.ofList (stripWith (· = '"') (strip p)))
  else match P.int s with
    | some n => .int n
    | none => if P.isFloat s then .float (String.ofList s) else .str (String.ofList s)

def isNameStart (c : Char) : Bool := c.isAlpha || c = '_'

def isNameChar (c : Char) : Bool := c.isAlphanum || c = '_'

/-- `_LINE_RE`: the name and the value. -/
def matchLine (line : List Char) : Option (List Char × List Char) :=
  let cs := line.dropWhile isSpace
  let name := cs.takeWhile isNameChar
  let rest := (cs.drop name.length).dropWhile isSpace
  if name.head?.any isNameStart && rest.head? = some '=' then some (name, strip (rest.drop 1)) else none

abbrev Dict := List (String × Value)

/-- `d[k] = v`. -/
def setItem (d : Dict) (k : String) (v : Value) : Dict :=
  if d.any (·.1 == k) then d.map fun f => if f.1 == k then (k, v) else f else d ++ [(k, v)]

/-- One line of the loop in `parse`. -/
def parseLine (out : Dict) (raw : List Char) : Dict :=
  let line := strip raw
  if line = [] || line.head? = some '#' || "//".toList.isPrefixOf line then out
  else match matchLine line with
    | none => out
    | some (name, value) => setItem out (String.ofList name) (decodeValue P value)

/-- `parse`, of a file that exists; its text. -/
def parse (text : String) : Dict := (splitLines [] text.toList).foldl (parseLine P) []

/-! ## Writing -/

/-- `_encode_value`. -/
def encodeValue : Value → String
  | .bool b => if b then "true" else "false"
  | .int n => toString n
  | .float literal => P.floatStr literal
  | .list items => "[" ++ String.intercalate ", " (items.map fun s => "\"" ++ s ++ "\"") ++ "]"
  | .str s => "\"" ++ s ++ "\""

def insertKey (f : String × Value) : Dict → Dict
  | [] => [f]
  | g :: d => if f.1 ≤ g.1 then f :: g :: d else g :: insertKey f d

/-- `sorted(values)`, with the values. -/
def sortedItems (d : Dict) : Dict := d.foldr insertKey []

/-- `render`. -/
def render (values : Dict) : String :=
  String.intercalate "\n" ((sortedItems values).map fun f => f.1 ++ " = " ++ encodeValue P f.2) ++ "\n"

/-! ## Lines -/

theorem splitLines_line {line : List Char} (h : ∀ c ∈ line, isBreak c = false) (cur rest : List Char) :
    splitLines cur (line ++ '\n' :: rest) = (cur.reverse ++ line) :: splitLines [] rest := by
  induction line generalizing cur with
  | nil =>
    rw [List.nil_append, splitLines, if_pos (by decide), List.append_nil]
    intro cs h
    cases h
  | cons c line ih =>
    have hc : isBreak c = false := h c (by simp)
    rw [List.cons_append, splitLines, if_neg (by simp [hc]), ih (fun d hd => h d (by simp [hd])), List.reverse_cons]
    · simp
    · intro cs h
      subst h
      exact absurd hc (by decide)

/-- The text that is written is its lines again. -/
theorem splitLines_join {lines : List String} (hne : lines ≠ [])
    (h : ∀ l ∈ lines, ∀ c ∈ l.toList, isBreak c = false) :
    splitLines [] (String.intercalate "\n" lines ++ "\n").toList = lines.map String.toList := by
  induction lines with
  | nil => exact absurd rfl hne
  | cons l ls ih =>
    have hl := h l (by simp)
    cases ls with
    | nil =>
      rw [String.intercalate_singleton, String.toList_append]
      show splitLines [] (l.toList ++ '\n' :: []) = _
      rw [splitLines_line hl]
      rfl
    | cons l' ls =>
      rw [String.intercalate_cons_cons, String.append_assoc, String.append_assoc, String.toList_append,
        String.toList_append]
      show splitLines [] (l.toList ++ '\n' :: (String.intercalate "\n" (l' :: ls) ++ "\n").toList) = _
      rw [splitLines_line hl, ih (by simp) (fun m hm => h m (by simp [hm]))]
      rfl

theorem dropWhile_head {p : Char → Bool} {cs : List Char} (h : ∀ c ∈ cs.head?, p c = false) :
    cs.dropWhile p = cs := by
  cases cs with
  | nil => rfl
  | cons c cs => rw [List.dropWhile_cons_of_neg (by simp [h c rfl])]

/-- Nothing to strip where both ends are no white space. -/
theorem strip_eq {cs : List Char} (hh : ∀ c ∈ cs.head?, isSpace c = false)
    (hl : ∀ c ∈ cs.getLast?, isSpace c = false) :
    strip cs = cs := by
  rw [strip, stripWith, dropWhile_head hh, dropWhile_head (by rwa [List.head?_reverse]), List.reverse_reverse]

/-! ## Values -/

/-- A value that is written so that reading gives it back. -/
def Clean : Value → Prop
  | .str s => ∀ c ∈ s.toList, isBreak c = false
  | .bool _ => True
  | .int n => (Nat.toDigits 10 n.natAbs).length ≤ 4300
  | .float _ | .list _ => False

variable {P}

theorem toAscii_ascii {cs : List Char} (h : ∀ c ∈ cs, c.toNat < 128) : cs.map P.toAscii = cs := by
  conv => rhs; rw [← List.map_id cs]
  exact List.map_congr_left fun c hc => if_pos (h c hc)

theorem toList_int (n : Int) :
    (toString n).toList = if 0 ≤ n then Nat.toDigits 10 n.natAbs else '-' :: Nat.toDigits 10 n.natAbs := by
  rw [Int.toString_eq_repr, Int.repr_eq_if]
  split
  · rename_i h
    rw [Nat.toList_repr, show n.toNat = n.natAbs by omega]
  · rename_i h
    rw [String.toList_append, Nat.toList_repr, show (-n).toNat = n.natAbs by omega]
    rfl

theorem isDigit_toDigits {n : Nat} {c : Char} (hc : c ∈ Nat.toDigits 10 n) : c.isDigit = true :=
  Nat.isDigit_of_mem_toDigits (by decide) (by decide) hc

theorem digit_range {c : Char} (h : c.isDigit = true) : 48 ≤ c.toNat ∧ c.toNat ≤ 57 := by
  rw [Char.isDigit_iff_toNat] at h
  exact h

/-- Printable ASCII but the space. -/
theorem isSpace_visible {c : Char} (h : 33 ≤ c.toNat ∧ c.toNat ≤ 126) : isSpace c = false := by
  simp only [isSpace, Bool.or_eq_false_iff, Bool.and_eq_false_iff, decide_eq_false_iff_not, beq_eq_false_iff_ne]
  omega

theorem isBreak_visible {c : Char} (h : 32 ≤ c.toNat ∧ c.toNat ≤ 126) : isBreak c = false := by
  simp only [isBreak, Bool.or_eq_false_iff, Bool.and_eq_false_iff, decide_eq_false_iff_not, beq_eq_false_iff_ne]
  omega

/-- A break is white space. -/
theorem isSpace_of_isBreak {c : Char} (h : isBreak c = true) : isSpace c = true := by
  simp only [isSpace, isBreak, Bool.or_eq_true, Bool.and_eq_true, decide_eq_true_eq, beq_iff_eq] at h ⊢
  omega

theorem int_range {n : Int} {c : Char} (hc : c ∈ (toString n).toList) : c = '-' ∨ c.isDigit = true := by
  rw [toList_int] at hc
  split at hc
  · exact Or.inr (isDigit_toDigits hc)
  · exact (List.mem_cons.mp hc).imp id isDigit_toDigits

theorem int_visible {n : Int} {c : Char} (hc : c ∈ (toString n).toList) : 33 ≤ c.toNat ∧ c.toNat ≤ 126 := by
  rcases int_range hc with rfl | h
  · decide
  · have := digit_range h
    omega

/-- `int(str(n))`. -/
theorem int_toString {n : Int} (h : (Nat.toDigits 10 n.natAbs).length ≤ 4300) :
    P.int (toString n).toList = some n := by
  have hascii : (toString n).toList.map P.toAscii = (toString n).toList :=
    toAscii_ascii fun c hc => by have := int_visible hc; omega
  rw [CPython.int, hascii, toList_int]
  split
  · rw [asciiInt_toDigits _ h, Int.natAbs_of_nonneg (by assumption)]
  · have hs : stripWith asciiSpace ('-' :: Nat.toDigits 10 n.natAbs) = '-' :: Nat.toDigits 10 n.natAbs := by
      refine stripWith_none fun c hc => ?_
      rcases List.mem_cons.mp hc with rfl | hc
      · decide
      · exact asciiSpace_digit (isDigit_toDigits hc)
    rw [asciiInt, hs]
    show (natOfDigits (Nat.toDigits 10 n.natAbs)).map (fun m : Nat => - (m : Int)) = some n
    rw [natOfDigits_toDigits _ h, Option.map_some, show - ((n.natAbs : Nat) : Int) = n by omega]

theorem decode_quoted (s : String) : decodeValue P (encodeValue P (.str s)).toList = .str s := by
  have hl : (encodeValue P (.str s)).toList = '"' :: (s.toList ++ ['"']) := by
    simp [encodeValue, String.toList_append]
  have hlast : ('"' :: (s.toList ++ ['"'])).getLast? = some '"' := by rw [← List.cons_append, List.getLast?_concat]
  have hs : strip ('"' :: (s.toList ++ ['"'])) = '"' :: (s.toList ++ ['"']) := by
    refine strip_eq (fun c hc => ?_) fun c hc => ?_
    · obtain rfl : '"' = c := by simpa using hc
      decide
    · obtain rfl : '"' = c := by simpa [hlast] using hc
      decide
  have he : enclosed '"' '"' ('"' :: (s.toList ++ ['"'])) = true := by simp [enclosed, hlast]
  have hi : inside ('"' :: (s.toList ++ ['"'])) = s.toList := by simp [inside]
  rw [hl, decodeValue, hs, if_pos he, hi, String.ofList_toList]

theorem decode_int {s : List Char} {n : Int} (hs : strip s = s) (hh : ∀ c ∈ s.head?, c = '-' ∨ c.isDigit = true)
    (hn : P.int s = some n) : decodeValue P s = .int n := by
  have hno (d : Char) (hd : d ≠ '-' ∧ d.isDigit = false) : s.head? ≠ some d := by
    intro he
    rcases hh d he with h | h
    · exact hd.1 h
    · rw [hd.2] at h
      cases h
  have hq : enclosed '"' '"' s = false := by simp [enclosed, hno '"' (by decide)]
  have hb : enclosed '[' ']' s = false := by simp [enclosed, hno '[' (by decide)]
  have ht : ¬ (s = "true".toList ∨ s = "false".toList) := by
    intro h
    rcases h with rfl | rfl
    · exact hno 't' (by decide) rfl
    · exact hno 'f' (by decide) rfl
  rw [decodeValue, hs, hq, if_neg (by decide), if_neg ht, hb, if_neg (by decide), hn]

theorem decode_bool (b : Bool) : decodeValue P (encodeValue P (.bool b)).toList = .bool b := by
  have hl : (encodeValue P (.bool b)).toList = if b then "true".toList else "false".toList := by
    cases b <;> rfl
  have hs : strip (if b then "true".toList else "false".toList) = if b then "true".toList else "false".toList := by
    cases b <;> decide
  have hq : enclosed '"' '"' (if b then "true".toList else "false".toList) = false := by
    cases b <;> decide
  rw [hl, decodeValue, hs, hq, if_neg (by decide), if_pos (by cases b <;> decide)]
  cases b <;> decide

/-- What is written of a clean value is read as that value. -/
theorem decode_encode {v : Value} (h : Clean v) : decodeValue P (encodeValue P v).toList = v := by
  cases v with
  | str s => exact decode_quoted s
  | bool b => exact decode_bool b
  | int n =>
    refine decode_int (strip_eq (fun c hc => ?_) fun c hc => ?_) (fun c hc => ?_) (int_toString h)
    · exact isSpace_visible (int_visible (List.mem_of_mem_head? hc))
    · exact isSpace_visible (int_visible (List.mem_of_mem_getLast? hc))
    · exact int_range (List.mem_of_mem_head? hc)
  | float literal => exact h.elim
  | list items => exact h.elim

/-- The text of a value in one line: nothing at its ends is stripped. -/
structure Written (enc : String) : Prop where
  ne_nil : enc.toList ≠ []
  first : ∀ c ∈ enc.toList.head?, isSpace c = false
  last : ∀ c ∈ enc.toList.getLast?, isSpace c = false
  line : ∀ c ∈ enc.toList, isBreak c = false

/-- A text between two visible characters. -/
theorem written_between {a b : Char} {body : List Char} (ha : isSpace a = false) (hb : isSpace b = false)
    (hbody : ∀ c ∈ body, isBreak c = false) {enc : String} (he : enc.toList = a :: (body ++ [b])) : Written enc := by
  have hvisible {c : Char} (h : isSpace c = false) : isBreak c = false := by
    cases hc : isBreak c with
    | false => rfl
    | true => exact absurd (isSpace_of_isBreak hc) (by rw [h]; decide)
  refine ⟨?_, fun c hc => ?_, fun c hc => ?_, fun c hc => ?_⟩
  · rw [he]
    simp
  · rw [he] at hc
    obtain rfl : a = c := by simpa using hc
    exact ha
  · rw [he, ← List.cons_append, List.getLast?_concat, Option.mem_some_iff] at hc
    exact hc ▸ hb
  · rw [he] at hc
    simp only [List.mem_cons, List.mem_append, List.not_mem_nil, or_false] at hc
    rcases hc with rfl | hc | rfl
    · exact hvisible ha
    · exact hbody c hc
    · exact hvisible hb

/-- A text of visible characters. -/
theorem written_visible {enc : String} (hne : enc.toList ≠ [])
    (h : ∀ c ∈ enc.toList, 33 ≤ c.toNat ∧ c.toNat ≤ 126) : Written enc :=
  ⟨hne, fun c hc => isSpace_visible (h c (List.mem_of_mem_head? hc)), fun c hc => isSpace_visible
    (h c (List.mem_of_mem_getLast? hc)),
    fun c hc => isBreak_visible (by have := h c hc; omega)⟩

theorem toList_int_ne_nil (n : Int) : (toString n).toList ≠ [] := by
  rw [toList_int]
  split
  · exact Nat.toDigits_ne_nil
  · exact List.cons_ne_nil _ _

theorem written_bool (b : Bool) : Written (if b then "true" else "false") := by
  cases b with
  | false => exact written_visible (by decide) (by decide)
  | true => exact written_visible (by decide) (by decide)

theorem written_encode {v : Value} (h : Clean v) : Written (encodeValue P v) := by
  cases v with
  | str s =>
    refine written_between (a := '"') (b := '"') (by decide) (by decide) (h : ∀ c ∈ s.toList, _) ?_
    simp [encodeValue, String.toList_append]
  | bool b => exact written_bool b
  | int n => exact written_visible (toList_int_ne_nil n) fun c hc => int_visible hc
  | float literal => exact h.elim
  | list items => exact h.elim

/-! ## A file that was written -/

/-- A name of a variable. -/
structure IsName (k : String) : Prop where
  chars : ∀ c ∈ k.toList, isNameChar c = true
  start : k.toList.head?.any isNameStart = true

theorem IsName.ne_nil {k : String} (h : IsName k) : k.toList ≠ [] := by
  intro hnil
  have := h.start
  rw [hnil] at this
  cases this

theorem letter_visible {c : Char} (h : c.isAlpha = true) : 33 ≤ c.toNat ∧ c.toNat ≤ 126 := by
  have h' : (decide (c.val ≥ 'A'.val ∧ c.val ≤ 'Z'.val) ||
      (decide (c.val ≥ 'a'.val) && decide (c.val ≤ 'z'.val))) = true := h
  simp only [Bool.or_eq_true, Bool.and_eq_true, decide_eq_true_eq, ge_iff_le, UInt32.le_iff_toNat_le,
    Char.toNat_val] at h'
  rcases h' with h' | h'
  · exact ⟨Nat.le_trans (by decide) h'.1, Nat.le_trans h'.2 (by decide)⟩
  · exact ⟨Nat.le_trans (by decide) h'.1, Nat.le_trans h'.2 (by decide)⟩

theorem nameChar_visible {c : Char} (h : isNameChar c = true) : 33 ≤ c.toNat ∧ c.toNat ≤ 126 := by
  have h' : ((c.isAlpha || c.isDigit) || decide (c = '_')) = true := h
  simp only [Bool.or_eq_true, decide_eq_true_eq] at h'
  rcases h' with (h' | h') | rfl
  · exact letter_visible h'
  · have := digit_range h'
    omega
  · decide

/-- A line that sets a variable. -/
def assign (k enc : String) : String := k ++ " = " ++ enc

section Lines

variable {k enc : String}

theorem toList_assign (k enc : String) : (assign k enc).toList = k.toList ++ ' ' :: '=' :: ' ' :: enc.toList := by
  simp [assign, String.toList_append]

theorem assign_breaks (hk : IsName k) (he : Written enc) : ∀ c ∈ (assign k enc).toList, isBreak c = false := by
  intro c hc
  rw [toList_assign] at hc
  simp only [List.mem_append, List.mem_cons] at hc
  rcases hc with hc | rfl | rfl | rfl | hc
  · have := nameChar_visible (hk.chars c hc)
    exact isBreak_visible (by omega)
  · decide
  · decide
  · decide
  · exact he.line c hc

/-- A line begins with its name. -/
theorem head?_assign (hk : IsName k) (enc : String) : (assign k enc).toList.head? = k.toList.head? := by
  rw [toList_assign, List.head?_append, List.head?_eq_some_head hk.ne_nil, Option.some_or]

theorem assign_first (hk : IsName k) : ∀ c ∈ (assign k enc).toList.head?, isSpace c = false := by
  intro c hc
  rw [head?_assign hk] at hc
  exact isSpace_visible (nameChar_visible (hk.chars c (List.mem_of_mem_head? hc)))

theorem strip_assign (hk : IsName k) (he : Written enc) : strip (assign k enc).toList = (assign k enc).toList := by
  refine strip_eq (assign_first hk) fun c hc => ?_
  have happ : k.toList ++ ' ' :: '=' :: ' ' :: enc.toList = (k.toList ++ [' ', '=', ' ']) ++ enc.toList := by simp
  rw [toList_assign, happ, List.getLast?_append, List.getLast?_eq_some_getLast he.ne_nil, Option.some_or] at hc
  exact he.last c (by rwa [List.getLast?_eq_some_getLast he.ne_nil])

/-- A name is not a comment. -/
theorem IsName.head_ne (h : IsName k) {d : Char} (hd : isNameChar d = false) : k.toList.head? ≠ some d := by
  intro he
  have := h.chars d (List.mem_of_mem_head? (by rw [he]; rfl))
  rw [hd] at this
  cases this

theorem matchLine_assign (hk : IsName k) (he : Written enc) :
    matchLine (assign k enc).toList = some (k.toList, enc.toList) := by
  have hname : (assign k enc).toList.takeWhile isNameChar = k.toList := by
    rw [toList_assign, List.takeWhile_append_of_pos hk.chars, List.takeWhile_cons_of_neg (by decide), List.append_nil]
  have hrest : ((assign k enc).toList.drop k.toList.length).dropWhile isSpace = '=' :: ' ' :: enc.toList := by
    rw [toList_assign, List.drop_left, List.dropWhile_cons_of_pos (by decide), List.dropWhile_cons_of_neg (by decide)]
  have hstrip : strip (' ' :: enc.toList) = enc.toList := by
    rw [strip, stripWith, List.dropWhile_cons_of_pos (by decide)]
    exact strip_eq he.first he.last
  rw [matchLine, dropWhile_head (assign_first hk), hname, hrest, hk.start, List.drop_one, List.tail_cons, hstrip]
  rfl

theorem setItem_new {d : Dict} (h : k ∉ d.map (·.1)) (v : Value) : setItem d k v = d ++ [(k, v)] := by
  have hany : d.any (·.1 == k) = false := by
    rw [List.any_eq_false]
    intro f hf hk
    exact h (List.mem_map.mpr ⟨f, hf, by simpa using hk⟩)
  rw [setItem, hany]
  rfl

theorem parseLine_assign {out : Dict} (hk : IsName k) (he : Written enc) (h : k ∉ out.map (·.1)) :
    parseLine P out (assign k enc).toList = out ++ [(k, decodeValue P enc.toList)] := by
  have hhead {d : Char} (hd : isNameChar d = false) : (assign k enc).toList.head? ≠ some d := by
    rw [head?_assign hk]
    exact hk.head_ne hd
  have hblank : (assign k enc).toList ≠ [] := by
    rw [toList_assign]
    simp
  have hslashes : "//".toList.isPrefixOf (assign k enc).toList = false := by
    cases hl : (assign k enc).toList with
    | nil => rfl
    | cons c cs =>
      have hc : c ≠ '/' := by
        intro h
        subst h
        exact hhead (d := '/') (by decide) (by rw [hl]; rfl)
      show ('/' == c && _) = false
      rw [beq_false_of_ne (Ne.symm hc)]
      rfl
  rw [parseLine, strip_assign hk he, hslashes, Bool.or_false, if_neg (by simp [hblank, hhead (d := '#') (by decide)]),
    matchLine_assign hk he]
  dsimp only
  rw [String.ofList_toList, setItem_new h]

end Lines

/-- The lines of some variables are read as their values. -/
theorem parse_lines {out : Dict} {es : List (String × String)} (hes : ∀ e ∈ es, IsName e.1 ∧ Written e.2)
    (hn : (out.map (·.1) ++ es.map (·.1)).Nodup) :
    (es.map fun e => (assign e.1 e.2).toList).foldl (parseLine P) out =
      out ++ es.map fun e => (e.1, decodeValue P e.2.toList) := by
  induction es generalizing out with
  | nil => simp
  | cons e es ih =>
    obtain ⟨hk, he⟩ := hes e (by simp)
    have hnew : e.1 ∉ out.map (·.1) := fun hm => (List.nodup_append.mp hn).2.2 e.1 hm e.1 (by simp) rfl
    rw [List.map_cons, List.foldl_cons, parseLine_assign hk he hnew,
      ih (fun g hg => hes g (by simp [hg])) (by simpa using hn)]
    simp

/-- A file of such lines. -/
theorem parse_assigns {es : List (String × String)} (hes : ∀ e ∈ es, IsName e.1 ∧ Written e.2)
    (hn : (es.map (·.1)).Nodup) :
    parse P (String.intercalate "\n" (es.map fun e => assign e.1 e.2) ++ "\n") =
      es.map fun e => (e.1, decodeValue P e.2.toList) := by
  by_cases hne : es = []
  · subst hne
    rfl
  · have hlines : splitLines [] (String.intercalate "\n" (es.map fun e => assign e.1 e.2) ++ "\n").toList =
        es.map fun e => (assign e.1 e.2).toList := by
      rw [splitLines_join (by simpa using hne), List.map_map]
      · rfl
      · intro l hl
        obtain ⟨e, he, rfl⟩ := List.mem_map.mp hl
        exact assign_breaks (hes e he).1 (hes e he).2
    rw [parse, hlines, parse_lines hes (by simpa using hn)]
    rfl

theorem insertKey_perm (f : String × Value) (d : Dict) : (insertKey f d).Perm (f :: d) := by
  induction d with
  | nil => exact List.Perm.refl _
  | cons g d ih =>
    rw [insertKey]
    split
    · exact List.Perm.refl _
    · exact (ih.cons g).trans (List.Perm.swap f g d)

theorem sortedItems_perm (d : Dict) : (sortedItems d).Perm d := by
  induction d with
  | nil => exact List.Perm.refl _
  | cons f d ih => exact (insertKey_perm f _).trans (ih.cons f)

def lineOf (P : CPython) (f : String × Value) : String := f.1 ++ " = " ++ encodeValue P f.2

/-- What is written of clean values is read as the same values, in the order of their names. -/
theorem parse_render {d : Dict} (hd : ∀ f ∈ d, IsName f.1 ∧ Clean f.2) (hn : (d.map (·.1)).Nodup) :
    parse P (render P d) = sortedItems d := by
  have hperm := sortedItems_perm d
  have hsorted : ∀ f ∈ sortedItems d, IsName f.1 ∧ Clean f.2 := fun f hf => hd f (hperm.mem_iff.mp hf)
  have hlines : ((sortedItems d).map fun f => (f.1, encodeValue P f.2)).map (fun e => assign e.1 e.2) =
      (sortedItems d).map (lineOf P) := by
    rw [List.map_map]
    rfl
  have hrender : render P d = String.intercalate "\n" ((sortedItems d).map (lineOf P)) ++ "\n" := rfl
  rw [hrender, ← hlines, parse_assigns, List.map_map]
  · conv => rhs; rw [← List.map_id (sortedItems d)]
    refine List.map_congr_left fun f hf => ?_
    show (f.1, decodeValue P (encodeValue P f.2).toList) = f
    rw [decode_encode (hsorted f hf).2]
  · intro e he
    obtain ⟨f, hf, rfl⟩ := List.mem_map.mp he
    exact ⟨(hsorted f hf).1, written_encode (hsorted f hf).2⟩
  · rw [List.map_map]
    exact (hperm.map _).nodup_iff.mpr hn

end Connect.Tfvars
