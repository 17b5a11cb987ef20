/-
  Connect.Json — Python's `json.loads` on a string.

  Two machines, each a recursion over its input. The scanner cuts the text into tokens;
  the parser runs over them with the containers it is in on a stack. A token that is no
  JSON is `bad`, and the parser fails when it gets there, so what is reported is what
  comes first in the text.

  A text that is no JSON raises `JSONDecodeError`, a ValueError of its own class. Two more
  exceptions leave `loads`: a RecursionError below `room` open containers, and the plain
  ValueError of `int` for more than 4300 digits. A surrogate without its other half is
  read as U+FFFD.
-/

import Connect.Py

namespace Connect

inductive Json where
  | null
  | bool (b : Bool)
  | int (n : Int)
  | float (literal : String)
  | str (s : String)
  | arr (items : List Json)
  | obj (fields : List (String × Json))
  deriving Repr

namespace Json

/-- `type(x).__name__`. -/
def typeName : Json → String
  | .null => "NoneType"
  | .bool _ => "bool"
  | .int _ => "int"
  | .float _ => "float"
  | .str _ => "str"
  | .arr _ => "list"
  | .obj _ => "dict"

/-- `d[key] = v`. -/
def setKey (fields : List (String × Json)) (key : String) (v : Json) : List (String × Json) :=
  if fields.any (·.1 == key) then fields.map fun f => if f.1 == key then (key, v) else f else fields ++ [(key, v)]

/-- `d.get(key, default)`. -/
def getD (fields : List (String × Json)) (key : String) (default : Json) : Json := (fields.lookup key).getD default

/-- `float(literal) != 0`: more than half of the least positive double. -/
def floatTruthy (literal : String) : Bool :=
  let cs := literal.toList
  if cs.any (fun c => c == 'N' || c == 'I') then true
  else
    let mantissa := cs.takeWhile fun c => c != 'e' && c != 'E'
    let exponent := cs.drop mantissa.length
    let digits := Nat.ofDigitChars 10 (mantissa.filter Char.isDigit) 0
    let places := ((mantissa.dropWhile (· != '.')).filter Char.isDigit).length
    let power := Nat.ofDigitChars 10 (exponent.filter Char.isDigit) 0
    let down := if exponent.contains '-' then places + power else places - power
    decide (Nat.pow 10 down < digits * Nat.pow 2 1075)

/-- `bool(v)`. -/
def truthy : Json → Bool
  | .null => false
  | .bool b => b
  | .int n => n != 0
  | .float literal => floatTruthy literal
  | .str s => s != ""
  | .arr items => !items.isEmpty
  | .obj fields => !fields.isEmpty

inductive LoadsError where
  | decodeError
  | raised (text : String)
  deriving DecidableEq, Repr

/-! ## The scanner -/

inductive Token where
  | lbrace
  | rbrace
  | lbracket
  | rbracket
  | colon
  | comma
  | null
  | bool (b : Bool)
  | int (negative : Bool) (digits : List Char)
  | float (literal : String)
  | str (s : String)
  | bad
  deriving DecidableEq, Repr

inductive NumPart where
  | minus
  | zero
  | int
  | dot
  | frac
  | exp
  | expSign
  | expDigits
  deriving DecidableEq, Repr

/-- Where the scanner is. Text read so far is kept backwards; `high` is a high surrogate
    that waits for its low one. -/
inductive Mode where
  | between
  | word (rest : List Char) (token : Token)
  | number (part : NumPart) (text : List Char)
  | string (text : List Char) (high : Option Nat)
  | escape (text : List Char) (high : Option Nat)
  | hex (text : List Char) (high : Option Nat) (left value : Nat)
  | stop
  deriving DecidableEq, Repr

def isHigh (v : Nat) : Bool := 0xD800 ≤ v && v < 0xDC00
def isLow (v : Nat) : Bool := 0xDC00 ≤ v && v < 0xE000

def flush (text : List Char) : Option Nat → List Char
  | none => text
  | some _ => replacement :: text

/-- Four hex digits were read. -/
def unescaped (text : List Char) (high : Option Nat) (value : Nat) : Mode :=
  match high with
  | some h =>
    if isLow value then .string (Char.ofNat (0x10000 + (h - 0xD800) * 0x400 + (value - 0xDC00)) :: text) none
    else if isHigh value then .string (replacement :: text) (some value)
    else .string (Char.ofNat value :: replacement :: text) none
  | none =>
    if isHigh value then .string text (some value)
    else if isLow value then .string (replacement :: text) none
    else .string (Char.ofNat value :: text) none

def simpleEscape : Char → Option Char
  | '"' => some '"'
  | '\\' => some '\\'
  | '/' => some '/'
  | 'b' => some (Char.ofNat 8)
  | 'f' => some (Char.ofNat 12)
  | 'n' => some '\n'
  | 'r' => some '\r'
  | 't' => some '\t'
  | _ => none

/-- The longest number at the front of `text`, and what of it cannot go on. -/
def numToken (text : List Char) : List Token :=
  let matched := text.dropWhile (!·.isDigit)
  let literal := matched.reverse
  let token := if literal.all (fun c => c.isDigit || c == '-') then Token.int (literal.head? == some '-')
    (literal.filter Char.isDigit)
    else .float (String.ofList literal)
  if matched.isEmpty then [.bad] else if matched.length = text.length then [token] else [token, .bad]

def NumPart.next : NumPart → Char → Option NumPart
  | .minus, c => if c == '0' then some .zero else if c.isDigit then some .int else none
  | .zero, c => if c == '.' then some .dot else if c == 'e' || c == 'E' then some .exp else none
  | .int, c =>
    if c.isDigit then some .int else if c == '.' then some .dot else if c == 'e' || c == 'E' then some .exp else none
  | .dot, c => if c.isDigit then some .frac else none
  | .frac, c => if c.isDigit then some .frac else if c == 'e' || c == 'E' then some .exp else none
  | .exp, c => if c == '+' || c == '-' then some .expSign else if c.isDigit then some .expDigits else none
  | .expSign, c => if c.isDigit then some .expDigits else none
  | .expDigits, c => if c.isDigit then some .expDigits else none

def isSpace (c : Char) : Bool := c == ' ' || c == '\t' || c == '\n' || c == '\r'

def begin_ (c : Char) : List Token × Mode :=
  if isSpace c then ([], .between)
  else match c with
    | '{' => ([.lbrace], .between)
    | '}' => ([.rbrace], .between)
    | '[' => ([.lbracket], .between)
    | ']' => ([.rbracket], .between)
    | ':' => ([.colon], .between)
    | ',' => ([.comma], .between)
    | '"' => ([], .string [] none)
    | 'n' => ([], .word "ull".toList .null)
    | 't' => ([], .word "rue".toList (.bool true))
    | 'f' => ([], .word "alse".toList (.bool false))
    | 'N' => ([], .word "aN".toList (.float "NaN"))
    | 'I' => ([], .word "nfinity".toList (.float "Infinity"))
    | '-' => ([], .number .minus ['-'])
    | '0' => ([], .number .zero ['0'])
    | _ => if c.isDigit then ([], .number .int [c]) else ([.bad], .stop)

/-- One character; a number ends where the next character is none of it. -/
def Mode.next : Mode → Char → List Token × Mode
  | .between, c => begin_ c
  | .word rest token, c =>
    match rest with
    | [] => ([.bad], .stop)
    | [r] => if c == r then ([token], .between) else ([.bad], .stop)
    | r :: rest => if c == r then ([], .word rest token) else ([.bad], .stop)
  | .number part text, c =>
    match part.next c with
    | some part => ([], .number part (c :: text))
    | none =>
      if part = .minus ∧ c = 'I' then ([], .word "nfinity".toList (.float "-Infinity"))
      else (numToken text ++ (begin_ c).1, (begin_ c).2)
  | .string text high, c =>
    if c == '\\' then ([], .escape text high)
    else if c == '"' then ([.str (String.ofList (flush text high).reverse)], .between)
    else if c.toNat ≤ 0x1F then ([.bad], .stop)
    else ([], .string (c :: flush text high) none)
  | .escape text high, c =>
    if c == 'u' then ([], .hex text high 4 0)
    else match simpleEscape c with
      | some e => ([], .string (e :: flush text high) none)
      | none => ([.bad], .stop)
  | .hex text high left value, c =>
    match hexDigit c with
    | none => ([.bad], .stop)
    | some d =>
      if left = 1 then ([], unescaped text high (value * 16 + d))
        else ([], .hex text high (left - 1) (value * 16 + d))
  | .stop, _ => ([], .stop)

def Mode.atEnd : Mode → List Token
  | .between | .stop => []
  | .number _ text => numToken text
  | _ => [.bad]

def scan : Mode → List Char → List Token
  | m, [] => m.atEnd
  | m, c :: cs => (m.next c).1 ++ scan (m.next c).2 cs

/-! ## The parser -/

/-- A container the parser is in. -/
inductive Frame where
  | arr (done : List Json)
  | obj (done : List (String × Json)) (key : String)
  deriving Repr

/-- What may come next. -/
inductive Expect where
  | value (stack : List Frame)
  | itemOrClose (stack : List Frame)
  | keyOrClose (stack : List Frame)
  | key (done : List (String × Json)) (stack : List Frame)
  | colon (done : List (String × Json)) (key : String) (stack : List Frame)
  | commaArr (done : List Json) (stack : List Frame)
  | commaObj (done : List (String × Json)) (stack : List Frame)
  | done (v : Json)
  deriving Repr

/-- A value is complete. -/
def close (v : Json) : List Frame → Expect
  | [] => .done v
  | .arr done :: stack => .commaArr (done ++ [v]) stack
  | .obj done key :: stack => .commaObj (setKey done key v) stack

def recursionError (kind : String) : LoadsError :=
  .raised ("maximum recursion depth exceeded while decoding a JSON " ++ kind ++ " from a unicode string")

def maxStrDigits : Nat := 4300

def digitsError (digits : Nat) : LoadsError := .raised (digitsLimit digits)

def toInt (negative : Bool) (digits : List Char) : Int :=
  let n : Nat := digits.foldl (fun n c => n * 10 + (c.toNat - '0'.toNat)) 0
  if negative then - (n : Int) else n

/-- A token where a value must come. -/
def startValue (room : Nat) (stack : List Frame) : Token → Except LoadsError Expect
  | .null => .ok (close .null stack)
  | .bool b => .ok (close (.bool b) stack)
  | .float literal => .ok (close (.float literal) stack)
  | .str s => .ok (close (.str s) stack)
  | .int negative digits =>
    if digits.length > maxStrDigits then .error (digitsError digits.length)
      else .ok (close (.int (toInt negative digits)) stack)
  | .lbracket => if stack.length < room then .ok (.itemOrClose stack) else .error (recursionError "array")
  | .lbrace => if stack.length < room then .ok (.keyOrClose stack) else .error (recursionError "object")
  | _ => .error .decodeError

def Expect.next (room : Nat) : Expect → Token → Except LoadsError Expect
  | .value stack, t => startValue room stack t
  | .itemOrClose stack, .rbracket => .ok (close (.arr []) stack)
  | .itemOrClose stack, t => startValue room (.arr [] :: stack) t
  | .keyOrClose stack, .rbrace => .ok (close (.obj []) stack)
  | .keyOrClose stack, .str k => .ok (.colon [] k stack)
  | .key fields stack, .str k => .ok (.colon fields k stack)
  | .colon fields k stack, .colon => .ok (.value (.obj fields k :: stack))
  | .commaArr items stack, .comma => .ok (.value (.arr items :: stack))
  | .commaArr items stack, .rbracket => .ok (close (.arr items) stack)
  | .commaObj fields stack, .comma => .ok (.key fields stack)
  | .commaObj fields stack, .rbrace => .ok (close (.obj fields) stack)
  | _, _ => .error .decodeError

def parseTokens (room : Nat) : Expect → List Token → Except LoadsError Json
  | .done v, [] => .ok v
  | _, [] => .error .decodeError
  | e, t :: ts => (e.next room t).bind fun e => parseTokens room e ts

/-- `json.loads(s)`, with room for `room` open containers. -/
def loads (room : Nat) (s : String) : Except LoadsError Json :=
  match s.toList with
  | [] => .error .decodeError
  | c :: cs =>
    if c = Char.ofNat 0xFEFF then .error .decodeError else parseTokens room (.value []) (scan .between (c :: cs))

example : loads 9 "[1, \"a\\u0041\", -1.5e2, \x7b\"k\": null\x7d]" =
    .ok (.arr [.int 1, .str "aA", .float "-1.5e2", .obj [("k", .null)]]) := by rfl

/-! ## Equality -/

mutual

def beq : Json → Json → Bool
  | .null, .null => true
  | .bool a, .bool b => a == b
  | .int a, .int b => a == b
  | .float a, .float b => a == b
  | .str a, .str b => a == b
  | .arr as, .arr bs => beqItems as bs
  | .obj fs, .obj gs => beqFields fs gs
  | _, _ => false
termination_by structural a => a

def beqItems : List Json → List Json → Bool
  | [], [] => true
  | a :: as, b :: bs => beq a b && beqItems as bs
  | _, _ => false
termination_by structural as => as

def beqFields : List (String × Json) → List (String × Json) → Bool
  | [], [] => true
  | f :: fs, g :: gs => beqField f g && beqFields fs gs
  | _, _ => false
termination_by structural fs => fs

def beqField : String × Json → String × Json → Bool
  | (k, a), (l, b) => k == l && beq a b
termination_by structural f => f

end

mutual

theorem beq_iff : ∀ a b : Json, beq a b = true ↔ a = b
  | .null, b => by cases b <;> simp [beq]
  | .bool a, b => by cases b <;> simp [beq]
  | .int a, b => by cases b <;> simp [beq]
  | .float a, b => by cases b <;> simp [beq]
  | .str a, b => by cases b <;> simp [beq]
  | .arr as, b => by cases b <;> simp [beq, beqItems_iff as]
  | .obj fs, b => by cases b <;> simp [beq, beqFields_iff fs]

theorem beqItems_iff : ∀ as bs : List Json, beqItems as bs = true ↔ as = bs
  | [], bs => by cases bs <;> simp [beqItems]
  | a :: as, bs => by cases bs <;> simp [beqItems, beq_iff a, beqItems_iff as]

theorem beqFields_iff : ∀ fs gs : List (String × Json), beqFields fs gs = true ↔ fs = gs
  | [], gs => by cases gs <;> simp [beqFields]
  | f :: fs, gs => by cases gs <;> simp [beqFields, beqField_iff f, beqFields_iff fs]

theorem beqField_iff : ∀ f g : String × Json, beqField f g = true ↔ f = g
  | (k, a), (l, b) => by simp [beqField, beq_iff a]

end

instance : DecidableEq Json := fun a b => decidable_of_iff (beq a b = true) (beq_iff a b)

end Json

end Connect
