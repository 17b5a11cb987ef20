/-
  Connect.Jinja — templates of Jinja2 with its default `Undefined`: the expressions and
  statements that name no macro, no test but `is none` and no filter but `round`.

  A missing key of a dictionary is no error. It gives an `Undefined`, a value that is not
  None, is false, prints as nothing and has no items, and that raises its `UndefinedError`
  when it is compared by order or computed with. A number is an exact one, where Python
  rounds a float. `Err.outside` stands where Python would go on and this library does not:
  arithmetic of strings and lists, the order of lists, attributes of other objects, and
  the methods of a dictionary, which come before its keys.
-/

namespace Connect.Jinja

inductive Value where
  | undefined (message : String)
  | none
  | bool (b : Bool)
  | int (n : Int)
  | float (q : Rat)
  | str (s : String)
  /-- In microseconds of UTC. -/
  | datetime (t : Int)
  | list (items : List Value)
  | dict (fields : List (String × Value))

inductive Err where
  | undefinedError (message : String)
  | typeError (message : String)
  | zeroDivisionError
  | outside
  deriving DecidableEq, Repr

abbrev Eval := Except Err

namespace Value

/-- `type(v).__name__`. -/
def typeName : Value → String
  | .undefined _ => "Undefined"
  | .none => "NoneType"
  | .bool _ => "bool"
  | .int _ => "int"
  | .float _ => "float"
  | .str _ => "str"
  | .datetime _ => "datetime"
  | .list _ => "list"
  | .dict _ => "dict"

def truthy : Value → Bool
  | .undefined _ | .none => false
  | .bool b => b
  | .int n => n != 0
  | .float q => q != 0
  | .str s => s != ""
  | .datetime _ => true
  | .list items => !items.isEmpty
  | .dict fields => !fields.isEmpty

def isNone : Value → Bool
  | .none => true
  | _ => false

def integral : Value → Option Int
  | .int n => some n
  | .bool b => some (if b then 1 else 0)
  | _ => Option.none

def number : Value → Option Rat
  | .float q => some q
  | v => v.integral.map fun n : Int => (n : Rat)

/-- `a == b`; two undefined values are equal. -/
def eq (a b : Value) : Eval Bool :=
  match a.number, b.number with
  | some x, some y => .ok (x == y)
  | _, _ =>
    match a, b with
    | .undefined _, .undefined _ | .none, .none => .ok true
    | .str s, .str t => .ok (s == t)
    | .datetime s, .datetime t => .ok (s == t)
    | .list _, .list _ | .dict _, .dict _ => .error .outside
    | _, _ => .ok false

/-- The methods of a dictionary, which an attribute finds before a key. -/
def dictMethods : List String :=
  ["clear", "copy", "fromkeys", "get", "items", "keys", "pop", "popitem", "setdefault", "update", "values"]

/-- `environment.getattr(v, name)`. -/
def attr (name : String) : Value → Eval Value
  | .dict fields =>
    if dictMethods.contains name then .error .outside
    else .ok ((fields.lookup name).getD (.undefined ("'dict object' has no attribute '" ++ name ++ "'")))
  | .undefined message => .error (.undefinedError message)
  | .none => .ok (.undefined ("'None' has no attribute '" ++ name ++ "'"))
  | _ => .error .outside

/-- What a `for` runs over. -/
def iter : Value → Eval (List Value)
  | .list items => .ok items
  | .undefined _ => .ok []
  | .str _ | .dict _ => .error .outside
  | v => .error (.typeError ("'" ++ v.typeName ++ "' object is not iterable"))

end Value

inductive Order where
  | gt
  | ge
  deriving DecidableEq, Repr

def Order.sign : Order → String
  | .gt => ">"
  | .ge => ">="

/-- `a > b` or `a >= b`. -/
def Order.apply (op : Order) (a b : Value) : Eval Value :=
  match a, b with
  | .undefined message, _ | _, .undefined message => .error (.undefinedError message)
  | .str s, .str t =>
    .ok (.bool (match op with
      | .gt => decide (t < s)
      | .ge => decide (t ≤ s)))
  | .datetime s, .datetime t =>
    .ok (.bool (match op with
      | .gt => decide (t < s)
      | .ge => decide (t ≤ s)))
  | .list _, .list _ => .error .outside
  | a, b =>
    match a.number, b.number with
    | some x, some y =>
      .ok (.bool (match op with
        | .gt => decide (y < x)
        | .ge => decide (y ≤ x)))
    | _, _ =>
      .error (.typeError ("'" ++ op.sign ++ "' not supported between instances of '" ++ a.typeName ++
        "' and '" ++ b.typeName ++ "'"))

inductive Arith where
  | add
  | mul
  | div
  | floorDiv
  | mod
  deriving DecidableEq, Repr

def Arith.sign : Arith → String
  | .add => "+"
  | .mul => "*"
  | .div => "/"
  | .floorDiv => "//"
  | .mod => "%"

def Arith.ints (op : Arith) (m n : Int) : Eval Value :=
  match op with
  | .add => .ok (.int (m + n))
  | .mul => .ok (.int (m * n))
  | .div => if n = 0 then .error .zeroDivisionError else .ok (.float ((m : Rat) / n))
  | .floorDiv => if n = 0 then .error .zeroDivisionError else .ok (.int (m.fdiv n))
  | .mod => if n = 0 then .error .zeroDivisionError else .ok (.int (m.fmod n))

def Arith.floats (op : Arith) (x y : Rat) : Eval Value :=
  match op with
  | .add => .ok (.float (x + y))
  | .mul => .ok (.float (x * y))
  | .div => if y = 0 then .error .zeroDivisionError else .ok (.float (x / y))
  | .floorDiv => if y = 0 then .error .zeroDivisionError else .ok (.float (x / y).floor)
  | .mod => if y = 0 then .error .zeroDivisionError else .ok (.float (x - y * (x / y).floor))

def Arith.apply (op : Arith) (a b : Value) : Eval Value :=
  match a, b with
  | .undefined message, _ => .error (.undefinedError message)
  | .str _, _ | .list _, _ => .error .outside
  | _, .undefined message => .error (.undefinedError message)
  | _, .str _ | _, .list _ => .error .outside
  | a, b =>
    match a.integral, b.integral with
    | some m, some n => op.ints m n
    | _, _ =>
      match a.number, b.number with
      | some x, some y => op.floats x y
      | _, _ =>
        .error (.typeError ("unsupported operand type(s) for " ++ op.sign ++ ": '" ++ a.typeName ++
          "' and '" ++ b.typeName ++ "'"))

/-- `v|round`; a half goes to the even number. -/
def round : Value → Eval Value
  | .int n => .ok (.int n)
  | .bool b => .ok (.int (if b then 1 else 0))
  | .float q =>
    let below : Int := q.floor
    let rest : Rat := q - below
    let nearest : Int := if rest < 1 / 2 then below else if 1 / 2 < rest then below + 1 else below + below % 2
    .ok (.float nearest)
  | v => .error (.typeError ("type " ++ v.typeName ++ " doesn't define __round__ method"))

/-! ## Expressions -/

inductive Expr where
  | lit (v : Value)
  | var (x : String)
  | attr (e : Expr) (name : String)
  | isNone (e : Expr)
  | not (e : Expr)
  | and (a b : Expr)
  | or (a b : Expr)
  | eq (a b : Expr)
  | order (op : Order) (a b : Expr)
  | arith (op : Arith) (a b : Expr)
  | isIn (e list : Expr)
  | round (e : Expr)

abbrev Env := List (String × Value)

/-- `v in items`. -/
def contains (v : Value) : List Value → Eval Bool
  | [] => .ok false
  | item :: items => do
    if ← v.eq item then return true
    contains v items

def eval (env : Env) : Expr → Eval Value
  | .lit v => .ok v
  | .var x => .ok ((env.lookup x).getD (.undefined ("'" ++ x ++ "' is undefined")))
  | .attr e name => do (← eval env e).attr name
  | .isNone e => do return .bool (← eval env e).isNone
  | .not e => do return .bool (!(← eval env e).truthy)
  | .and a b => do
    let v ← eval env a
    if v.truthy then eval env b else return v
  | .or a b => do
    let v ← eval env a
    if v.truthy then return v else eval env b
  | .eq a b => do
    let v ← eval env a
    let w ← eval env b
    return .bool (← v.eq w)
  | .order op a b => do
    let v ← eval env a
    let w ← eval env b
    op.apply v w
  | .arith op a b => do
    let v ← eval env a
    let w ← eval env b
    op.apply v w
  | .isIn e list => do
    let v ← eval env e
    let items ← (← eval env list).iter
    return .bool (← contains v items)
  | .round e => do round (← eval env e)

/-! ## Statements -/

inductive Node where
  | skip
  | text (s : String)
  | output (e : Expr)
  | cond (test : Expr) (yes no : Node)
  | loop (x : String) (e : Expr) (body : Node)
  | seq (a b : Node)

/-- What a template puts out: its own text, and values, of which `str` is escaped. -/
inductive Piece where
  | text (s : String)
  | value (v : Value)

/-- Nodes one after the other. -/
def block (nodes : List Node) : Node := nodes.foldr .seq .skip

def render (env : Env) : Node → Eval (List Piece)
  | .skip => .ok []
  | .text s => .ok [.text s]
  | .output e => do return [.value (← eval env e)]
  | .cond test yes no => do
    if (← eval env test).truthy then render env yes else render env no
  | .loop x e body => do
    let items ← (← eval env e).iter
    let pieces ← items.mapM fun item => render ((x, item) :: env) body
    return pieces.flatten
  | .seq a b => do
    let first ← render env a
    let rest ← render env b
    return first ++ rest

section Rules

variable {env : Env} {a b : Node} {e : Expr} {v : Value} {err : Err}

@[simp] theorem ok_bind {α β : Type} (x : α) (f : α → Eval β) : ((.ok x : Eval α) >>= f) = f x := rfl

@[simp] theorem error_bind {α β : Type} (f : α → Eval β) : ((.error err : Eval α) >>= f) = .error err := rfl

@[simp] theorem eval_attr {name : String} : eval env (.attr e name) = eval env e >>= Value.attr name := rfl

@[simp] theorem eval_isNone : eval env (.isNone e) = eval env e >>= fun v => .ok (.bool v.isNone) := rfl

@[simp] theorem eval_not : eval env (.not e) = eval env e >>= fun v => .ok (.bool (!v.truthy)) := rfl

@[simp] theorem eval_and {x y : Expr} :
    eval env (.and x y) = eval env x >>= fun v => if v.truthy then eval env y else .ok v := rfl

@[simp] theorem eval_or {x y : Expr} :
    eval env (.or x y) = eval env x >>= fun v => if v.truthy then .ok v else eval env y := rfl

@[simp] theorem eval_eq {x y : Expr} :
    eval env (.eq x y) = eval env x >>= fun v => eval env y >>= fun w => v.eq w >>= fun r => .ok (.bool r) := rfl

@[simp] theorem eval_order {op : Order} {x y : Expr} :
    eval env (.order op x y) = eval env x >>= fun v => eval env y >>= fun w => op.apply v w := rfl

@[simp] theorem render_output : render env (.output e) = eval env e >>= fun v => .ok [.value v] := rfl

@[simp] theorem render_cond {test : Expr} :
    render env (.cond test a b) = eval env test >>= fun v => if v.truthy then render env a else render env b := rfl

@[simp] theorem render_loop {x : String} :
    render env (.loop x e a) =
      eval env e >>= fun v => v.iter >>=
      fun items => (items.mapM fun item => render ((x, item) :: env) a) >>= fun pieces =>
        .ok pieces.flatten := rfl

@[simp] theorem render_seq :
    render env (.seq a b) = render env a >>= fun first => render env b >>= fun rest => .ok (first ++ rest) := rfl

/-- An expression that has a value. -/
def Evals (env : Env) (e : Expr) : Prop := ∃ v, eval env e = .ok v

/-- A node that is put out. -/
def Renders (env : Env) (node : Node) : Prop := ∃ pieces, render env node = .ok pieces

theorem Evals.and {x y : Expr} (hx : Evals env x) (hy : Evals env y) : Evals env (.and x y) := by
  obtain ⟨v, hv⟩ := hx
  simp only [Evals, eval_and, hv, ok_bind]
  split
  · exact hy
  · exact ⟨v, rfl⟩

theorem Evals.or {x y : Expr} (hx : Evals env x) (hy : Evals env y) : Evals env (.or x y) := by
  obtain ⟨v, hv⟩ := hx
  simp only [Evals, eval_or, hv, ok_bind]
  split
  · exact ⟨v, rfl⟩
  · exact hy

theorem Renders.text {s : String} : Renders env (.text s) := ⟨_, rfl⟩

theorem Renders.skip : Renders env .skip := ⟨_, rfl⟩

theorem Renders.output (h : Evals env e) : Renders env (.output e) := by
  obtain ⟨v, hv⟩ := h
  exact ⟨_, by rw [render_output, hv]; rfl⟩

theorem Renders.cond {test : Expr} (ht : Evals env test) (ha : Renders env a) (hb : Renders env b) :
    Renders env (.cond test a b) := by
  obtain ⟨v, hv⟩ := ht
  simp only [Renders, render_cond, hv, ok_bind]
  split
  · exact ha
  · exact hb

theorem Renders.block {nodes : List Node} (h : ∀ node ∈ nodes, Renders env node) : Renders env (block nodes) := by
  induction nodes with
  | nil => exact .skip
  | cons node nodes ih =>
    obtain ⟨pieces, hp⟩ := h node List.mem_cons_self
    obtain ⟨rest, hrest⟩ := ih fun n hn => h n (List.mem_cons_of_mem node hn)
    refine ⟨pieces ++ rest, ?_⟩
    show render env (.seq node (Jinja.block nodes)) = _
    simp only [render_seq, hp, hrest, ok_bind]

/-- A block stops at its first error. -/
theorem render_block_error (nodes : List Node) {rest : List Node} {bad : Node} (h : ∀ node ∈ nodes, Renders env node)
    (hbad : render env bad = .error err) : render env (block (nodes ++ bad :: rest)) = .error err := by
  induction nodes with
  | nil =>
    show render env (.seq bad (block rest)) = _
    simp only [render_seq, hbad, error_bind]
  | cons node nodes ih =>
    obtain ⟨pieces, hp⟩ := h node List.mem_cons_self
    have hrest := ih fun n hn => h n (List.mem_cons_of_mem node hn)
    show render env (.seq node (block (nodes ++ bad :: rest))) = _
    simp only [render_seq, hp, hrest, ok_bind, error_bind]

theorem render_yes {test : Expr} (h : eval env test = .ok v) (ht : v.truthy = true) :
    render env (.cond test a b) = render env a := by
  simp only [render_cond, h, ok_bind, ht, if_true]

theorem render_no {test : Expr} (h : eval env test = .ok v) (ht : v.truthy = false) :
    render env (.cond test a b) = render env b := by
  simp only [render_cond, h, ok_bind, ht, Bool.false_eq_true, if_false]

/-- A loop stops at the error of its first item. -/
theorem render_loop_error {x : String} {item : Value} {items : List Value}
    (h : eval env e = .ok (.list (item :: items)))
    (hbad : render ((x, item) :: env) a = .error err) : render env (.loop x e a) = .error err := by
  simp only [render_loop, h, ok_bind, Value.iter, List.mapM_cons, hbad, error_bind]

/-- An undefined value is not None. -/
theorem eval_not_isNone {message : String} (h : eval env e = .ok (.undefined message)) :
    eval env (.not (.isNone e)) = .ok (.bool true) := by
  simp only [eval_not, eval_isNone, h, ok_bind, Value.isNone, Value.truthy, Bool.not_false]

/-- And it has no place in an order. -/
theorem order_undefined {op : Order} {b : Expr} {w : Value} {message : String}
    (h : eval env e = .ok (.undefined message))
    (hb : eval env b = .ok w) : eval env (.order op e b) = .error (.undefinedError message) := by
  simp only [eval_order, h, hb, ok_bind, Order.apply]

theorem order_int {op : Order} {b : Expr} {m n : Int} (h : eval env e = .ok (.int m))
    (hb : eval env b = .ok (.int n)) :
    Evals env (.order op e b) := by
  simp only [Evals, eval_order, h, hb, ok_bind]
  exact ⟨_, rfl⟩

/-- A comparison has a value when its two sides can be compared. -/
theorem Evals.eq {b : Expr} {w : Value} {r : Bool} (h : eval env e = .ok v) (hb : eval env b = .ok w)
    (hr : v.eq w = .ok r) :
    Evals env (.eq e b) := by
  simp only [Evals, eval_eq, h, hb, ok_bind, hr]
  exact ⟨_, rfl⟩

/-- The value under a key, or `Undefined`. -/
theorem eval_key {name : String} {fields : List (String × Value)} (h : eval env e = .ok (.dict fields))
    (hname : Value.dictMethods.contains name = false) :
    eval env (.attr e name) = .ok ((fields.lookup name).getD
      (.undefined ("'dict object' has no attribute '" ++ name ++ "'"))) := by
  simp only [eval_attr, h, ok_bind, Value.attr, hname, Bool.false_eq_true, if_false]

end Rules

end Connect.Jinja
