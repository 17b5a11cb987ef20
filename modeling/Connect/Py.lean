/-
  Connect.Py — the Python the modelled functions rest on: exceptions, truthiness of an
  optional string, ranges and slices, and the few string functions the code calls.

  An exception is an `Exception` with its text (`str(e)`), the subclass `SQSError` that
  one caller catches by name, or the `CancelledError` that asyncio injects at an await,
  which `except Exception` does not take.
-/

namespace Connect

inductive Exc where
  | exception (text : String)
  | sqsError (text : String)
  | cancelled
  deriving DecidableEq, Repr

/-- `isinstance(e, Exception)`. -/
def Exc.isException : Exc → Bool
  | .exception _ | .sqsError _ => true
  | .cancelled => false

/-- `str(e)`. -/
def Exc.text : Exc → String
  | .exception t | .sqsError t => t
  | .cancelled => ""

/-- `x` where the code tests it with `if not x`: None and the empty string are the same. -/
def truthy (x : Option String) : Option String := x.filter (· != "")

/-- `x or y`. -/
def orElse (x y : Option String) : Option String := if (truthy x).isSome then x else y

/-- `range(0, stop, size)`. -/
def pyRange (stop size : Nat) : List Nat := (List.range ((stop + size - 1) / size)).map (size * ·)

/-- `xs[i : i + n]`. -/
def slice {α : Type} (xs : List α) (i n : Nat) : List α := (xs.drop i).take n

/-- Where an index of a slice stands in a list of this length. -/
def sliceAt (length : Nat) (i : Int) : Nat := if i < 0 then (i + length).toNat else i.toNat

/-- `xs[start:stop]`. -/
def pySlice {α : Type} (xs : List α) (start stop : Int) : List α :=
  (xs.take (sliceAt xs.length stop)).drop (sliceAt xs.length start)

/-- `ceil(n / d)`, for a `d` above zero. -/
def ceilDiv (n : Nat) (d : Int) : Int := -(-(n : Int) / d)

/-- `s[:n]`. -/
def pyTake (n : Nat) (s : String) : String := String.ofList (s.toList.take n)

def replacement : Char := Char.ofNat 0xFFFD

def hexDigit (c : Char) : Option Nat :=
  if c.isDigit then some (c.toNat - '0'.toNat)
  else if 'a' ≤ c ∧ c ≤ 'f' then some (c.toNat - 'a'.toNat + 10)
  else if 'A' ≤ c ∧ c ≤ 'F' then some (c.toNat - 'A'.toNat + 10)
  else none

def containsChars (sub : List Char) : List Char → Bool
  | [] => sub.isEmpty
  | c :: cs => sub.isPrefixOf (c :: cs) || containsChars sub cs

/-- `sub in s.lower()`, for an ASCII `sub` in lower case. Folding ASCII alone decides it for
    `already exists`: outside ASCII only U+0130 lowers to a letter of it, and with a
    combining dot behind, which no match survives. -/
def inLower (sub s : String) : Bool := containsChars sub.toList (s.toList.map Char.toLower)

/-- `s.rstrip('/')`, `s` read backwards. -/
def dropSlashes : List Char → List Char
  | '/' :: cs => dropSlashes cs
  | cs => cs

/-- `os.path.dirname(p)`. -/
def dirname (p : String) : String :=
  let head := p.toList.reverse.dropWhile (· != '/')  -- up to the last slash, backwards
  if head.all (· == '/') then String.ofList head else String.ofList (dropSlashes head).reverse

/-- The members of `set(xs)`, in the order they came in. -/
def pySet {α : Type} [DecidableEq α] : List α → List α
  | [] => []
  | x :: xs => x :: (pySet xs).filter (· != x)

def insertByLen (s : String) : List String → List String
  | [] => [s]
  | t :: ts => if s.length ≤ t.length then s :: t :: ts else t :: insertByLen s ts

/-- `sorted(xs, key=len)`. -/
def sortedByLen (xs : List String) : List String := xs.foldr insertByLen []

/-- A loop that may raise comes to its end when no turn of it raises. -/
theorem mapM_ok_iff {α β ε : Type} {f : α → Except ε β} {xs : List α} {ys : List β} :
    xs.mapM f = .ok ys ↔ xs.map f = ys.map .ok := by
  induction xs generalizing ys with
  | nil => cases ys <;> simp [pure, Except.pure]
  | cons x xs ih =>
    rw [List.mapM_cons, List.map_cons]
    cases hx : f x with
    | error e => cases ys <;> simp [bind, Except.bind]
    | ok y =>
      cases hxs : xs.mapM f with
      | error e =>
        have hno : ∀ zs : List β, xs.map f ≠ zs.map Except.ok := by
          intro zs hz
          rw [ih.mpr hz] at hxs
          cases hxs
        cases ys <;> simp [bind, Except.bind, hno]
      | ok ys' =>
        have hmap := ih.mp hxs
        cases ys with
        | nil => simp [bind, Except.bind, pure, Except.pure]
        | cons z zs => simp [bind, Except.bind, pure, Except.pure, ← ih, hxs]

theorem mapM_eq_ok {α β ε : Type} {f : α → Except ε β} {g : α → β} {xs : List α} (h : ∀ x ∈ xs, f x = .ok (g x)) :
    xs.mapM f = .ok (xs.map g) := by
  rw [mapM_ok_iff, List.map_map]
  exact List.map_congr_left h

namespace Chars

/-- What is to hold of every character of a text is tested along the text, not over all characters there are. -/
scoped instance (priority := 2000) decidableForallMem (p : Char → Prop) [DecidablePred p] (cs : List Char) :
    Decidable (∀ c, c ∈ cs → p c) :=
  List.decidableBAll p cs

end Chars

/-- The head of what is left behind `i` elements. -/
theorem drop_eq_cons {α : Type} {xs ys : List α} {i : Nat} {x : α} (h : xs.drop i = x :: ys) :
    ∃ hi : i < xs.length, xs[i] = x ∧ xs.drop (i + 1) = ys := by
  have hi : i < xs.length := by
    apply Classical.byContradiction
    intro hn
    rw [List.drop_eq_nil_of_le (by omega)] at h
    cases h
  rw [List.drop_eq_getElem_cons hi] at h
  exact ⟨hi, List.cons.inj h⟩

theorem slice_drop {α : Type} (xs : List α) (i n : Nat) : slice xs i n ++ xs.drop (i + n) = xs.drop i := by
  rw [slice, ← List.drop_drop, List.take_append_drop]

theorem length_slice {α : Type} (xs : List α) (i n : Nat) : (slice xs i n).length = min n (xs.length - i) := by
  rw [slice, List.length_take, List.length_drop]

theorem pySlice_eq_slice {α : Type} (xs : List α) (i n : Nat) : pySlice xs i (i + n) = slice xs i n := by
  have hi : ¬(i : Int) < 0 := by omega
  have hn : ¬(i : Int) + n < 0 := by omega
  have hto : ((i : Int) + n).toNat = i + n := by omega
  rw [pySlice, sliceAt, sliceAt, if_neg hi, if_neg hn, hto, Int.toNat_natCast, List.drop_take,
    Nat.add_sub_cancel_left, slice]

/-- The first slices, put together. -/
theorem flatMap_slice {α : Type} (xs : List α) (n count : Nat) :
    (List.range count).flatMap (fun k => slice xs (n * k) n) = xs.take (n * count) := by
  induction count with
  | zero => simp
  | succ count ih =>
    rw [List.range_succ, List.flatMap_append, ih, Nat.mul_succ, List.take_add]
    simp [slice]

/-- So many steps of `d` are enough for `n`, and one less is not. -/
theorem ceilDiv_spec (n : Nat) {d : Int} (hd : 0 < d) : (n : Int) ≤ d * ceilDiv n d ∧ d * (ceilDiv n d - 1) < n := by
  have hle := Int.mul_ediv_self_le (x := -(n : Int)) (Int.ne_of_gt hd)
  have hlt := Int.lt_mul_ediv_self_add (x := -(n : Int)) hd
  simp only [ceilDiv, Int.mul_sub, Int.mul_neg, Int.mul_one]
  omega

theorem mem_slice {α : Type} {xs : List α} {i n : Nat} {x : α} (h : x ∈ slice xs i n) : x ∈ xs :=
  List.mem_of_mem_drop (List.mem_of_mem_take h)

/-- The slices at the steps of a range hold every element. -/
theorem mem_slices {α : Type} {xs : List α} {n : Nat} (hn : 0 < n) {x : α} (h : x ∈ xs) :
    ∃ i ∈ pyRange xs.length n, x ∈ slice xs i n := by
  obtain ⟨j, hj, rfl⟩ := List.mem_iff_getElem.mp h
  refine ⟨n * (j / n), ?_, ?_⟩
  · have hlt : j / n < (xs.length + n - 1) / n := by
      rw [Nat.lt_div_iff_mul_lt hn]
      have := Nat.div_mul_le_self j n
      omega
    exact List.mem_map.mpr ⟨j / n, List.mem_range.mpr hlt, rfl⟩
  · have hmod : n * (j / n) + j % n = j := Nat.div_add_mod j n
    have hin : j % n < (slice xs (n * (j / n)) n).length := by
      rw [slice, List.length_take, List.length_drop]
      have := Nat.mod_lt j hn
      omega
    have hget : (slice xs (n * (j / n)) n)[j % n] = xs[j] := by
      simp only [slice, List.getElem_take, List.getElem_drop]
      congr 1
    rw [← hget]
    exact List.getElem_mem hin

theorem mem_pySet {α : Type} [DecidableEq α] {x : α} {xs : List α} : x ∈ pySet xs ↔ x ∈ xs := by
  induction xs with
  | nil => exact Iff.rfl
  | cons y ys ih =>
    rw [pySet, List.mem_cons, List.mem_cons, List.mem_filter, ih]
    by_cases h : x = y <;> simp [h]

theorem mem_insertByLen {s t : String} {ts : List String} : s ∈ insertByLen t ts ↔ s = t ∨ s ∈ ts := by
  induction ts with
  | nil => simp [insertByLen]
  | cons u us ih =>
    unfold insertByLen
    split
    · rw [List.mem_cons]
    · rw [List.mem_cons, ih, List.mem_cons]
      exact or_left_comm

theorem mem_sortedByLen {s : String} {xs : List String} : s ∈ sortedByLen xs ↔ s ∈ xs := by
  induction xs with
  | nil => exact Iff.rfl
  | cons x xs ih =>
    rw [sortedByLen, List.foldr_cons, mem_insertByLen, List.mem_cons]
    exact or_congr Iff.rfl ih

/-- Decimal digits, with single underscores between them; `digit`: one came just before. -/
def digitsOk : Bool → List Char → Bool
  | digit, [] => digit
  | digit, c :: cs => if c = '_' then digit && digitsOk false cs else c.isDigit && digitsOk true cs

def asciiSpace (c : Char) : Bool := c = ' ' || (9 ≤ c.toNat && c.toNat ≤ 13)

def stripWith (space : Char → Bool) (cs : List Char) : List Char :=
  ((cs.dropWhile space).reverse.dropWhile space).reverse

def natOfDigits (cs : List Char) : Option Nat :=
  let digits := cs.filter (· != '_')
  if digitsOk false cs && digits.length ≤ 4300 then some (Nat.ofDigitChars 10 digits 0) else none

/-- `int(s)` for an `s` of ASCII characters; none is the ValueError. -/
def asciiInt (cs : List Char) : Option Int :=
  match stripWith asciiSpace cs with
  | '-' :: ds => (natOfDigits ds).map fun n : Nat => - (n : Int)
  | '+' :: ds => (natOfDigits ds).map Int.ofNat
  | ds => (natOfDigits ds).map Int.ofNat

def digitsLimit (digits : Nat) : String :=
  s!"Exceeds the limit (4300 digits) for integer string conversion: value has {digits} digits; " ++
    "use sys.set_int_max_str_digits() to increase the limit"

/-- The text of that ValueError; `literal` is the `repr` of what is read. -/
def intError (cs : List Char) (literal : String) : String :=
  let unsigned := match cs.dropWhile asciiSpace with
    | '-' :: ds | '+' :: ds => ds
    | ds => ds
  -- the limit is checked when the digits end, before what follows them is looked at
  let number := unsigned.takeWhile fun c => c.isDigit || c = '_'
  let digits := (number.filter (· != '_')).length
  if digitsOk false number ∧ 4300 < digits then digitsLimit digits
  else s!"invalid literal for int() with base 10: {pyTake 200 literal}"

/-! ### A number that is written and read again -/

theorem dropWhile_none {α : Type} {p : α → Bool} {xs : List α} (h : ∀ x ∈ xs, p x = false) : xs.dropWhile p = xs := by
  cases xs with
  | nil => rfl
  | cons x xs => rw [List.dropWhile_cons_of_neg (by simp [h x])]

theorem stripWith_none {space : Char → Bool} {cs : List Char} (h : ∀ c ∈ cs, space c = false) :
    stripWith space cs = cs := by
  rw [stripWith, dropWhile_none h, dropWhile_none (fun c hc => h c (by simpa using hc)), List.reverse_reverse]

/-- The pieces of `s.split(c)` hold no `c`. -/
theorem notMem_of_mem_splitOn {c : Char} {cs piece : List Char} (h : piece ∈ cs.splitOn c) : c ∉ piece := by
  induction cs generalizing piece with
  | nil =>
    cases List.mem_singleton.mp h
    exact List.not_mem_nil
  | cons d cs ih =>
    rw [List.splitOn_cons_eq_if_modifyHead] at h
    split at h
    · rcases List.mem_cons.mp h with rfl | h
      · exact List.not_mem_nil
      · exact ih h
    · rename_i hd
      cases hcs : cs.splitOn c with
      | nil => exact absurd hcs (List.splitOn_ne_nil _ _)
      | cons first rest =>
        rw [hcs] at h ih
        rcases List.mem_cons.mp h with rfl | h
        · have hne : c ≠ d := fun he => hd (by simp [he])
          simpa [hne] using ih List.mem_cons_self
        · exact ih (List.mem_cons_of_mem _ h)

theorem mem_of_mem_stripWith {space : Char → Bool} {cs : List Char} {c : Char}
    (h : c ∈ stripWith space cs) : c ∈ cs := by
  have h := List.dropWhile_subset _ (List.mem_reverse.mp h)
  exact List.dropWhile_subset _ (List.mem_reverse.mp h)

theorem head?_dropWhile_ne {p : Char → Bool} {cs : List Char} {c : Char} (hc : p c = true) :
    (cs.dropWhile p).head? ≠ some c := by
  intro h
  have hnot := List.head?_dropWhile_not p cs
  rw [h] at hnot
  have hnot : p c = false := hnot
  rw [hc] at hnot
  cases hnot

/-- Nothing that is stripped is left at the ends. -/
theorem stripWith_ends {space : Char → Bool} {cs : List Char} {c : Char} (hc : space c = true) :
    (stripWith space cs).head? ≠ some c ∧ (stripWith space cs).getLast? ≠ some c := by
  rw [stripWith, List.head?_reverse, List.getLast?_reverse]
  refine ⟨fun h => ?_, head?_dropWhile_ne hc⟩
  -- the last character of what is left is the first one before the other end was stripped
  obtain ⟨front, hfront⟩ := List.dropWhile_suffix (l := (cs.dropWhile space).reverse) space
  refine @head?_dropWhile_ne _ cs _ hc ?_
  rw [← List.getLast?_reverse, ← hfront, List.getLast?_append, h, Option.some_or]

theorem digitsOk_digits {digit : Bool} {cs : List Char} (h : ∀ c ∈ cs, c.isDigit = true)
    (hne : digit = true ∨ cs ≠ []) :
    digitsOk digit cs = true := by
  induction cs generalizing digit with
  | nil => simpa [digitsOk] using hne
  | cons c cs ih =>
    have hc := h c (by simp)
    have hu : c ≠ '_' := by rintro rfl; simp at hc
    rw [digitsOk, if_neg hu, hc, ih (fun d hd => h d (by simp [hd])) (Or.inl rfl)]
    rfl

theorem isDigit_ne {c d : Char} (h : c.isDigit = true) (hd : d.isDigit = false) : c ≠ d := by
  intro h
  subst h
  simp [h] at hd

theorem natOfDigits_toDigits (n : Nat) (hn : (Nat.toDigits 10 n).length ≤ 4300) :
    natOfDigits (Nat.toDigits 10 n) = some n := by
  have hd : ∀ c ∈ Nat.toDigits 10 n, c.isDigit = true :=
    fun c hc => Nat.isDigit_of_mem_toDigits (by decide) (by decide) hc
  have hf : (Nat.toDigits 10 n).filter (· != '_') = Nat.toDigits 10 n :=
    List.filter_eq_self.mpr fun c hc => by simpa using isDigit_ne (hd c hc) (by decide)
  simp [natOfDigits, hf, digitsOk_digits hd (Or.inr Nat.toDigits_ne_nil), hn, Nat.ofDigitChars_ten_toDigits]

theorem asciiSpace_digit {c : Char} (h : c.isDigit = true) : asciiSpace c = false := by
  rw [Char.isDigit_iff_toNat] at h
  have h0 : '0'.toNat = 48 := rfl
  have hs : c ≠ ' ' := by rintro rfl; exact absurd h (by decide)
  simp only [asciiSpace, hs, decide_false, Bool.false_or, Bool.and_eq_false_iff, decide_eq_false_iff_not]
  omega

theorem asciiInt_toDigits (n : Nat) (hn : (Nat.toDigits 10 n).length ≤ 4300) :
    asciiInt (Nat.toDigits 10 n) = some (n : Int) := by
  have hd : ∀ c ∈ Nat.toDigits 10 n, c.isDigit = true :=
    fun c hc => Nat.isDigit_of_mem_toDigits (by decide) (by decide) hc
  have hs : stripWith asciiSpace (Nat.toDigits 10 n) = Nat.toDigits 10 n := by
    exact stripWith_none fun c hc => asciiSpace_digit (hd c hc)
  have hnat := natOfDigits_toDigits n hn
  unfold asciiInt
  rw [hs]
  split
  · next ds h => exact absurd (hd '-' (by simp [h])) (by decide)
  · next ds h => exact absurd (hd '+' (by simp [h])) (by decide)
  · rw [hnat]; rfl

/-! ### Byte strings -/

def hexLower (n : Nat) : Char := Nat.digitChar (n % 16)

/-- `repr(b)` of a byte string. -/
def bytesRepr (bs : List UInt8) : String :=
  let quote : Char := if bs.contains 39 && !bs.contains 34 then '"' else Char.ofNat 39
  let shown (b : UInt8) : List Char :=
    let c := Char.ofNat b.toNat
    if c = quote || c = '\\' then ['\\', c]
    else if b = 9 then ['\\', 't'] else if b = 10 then ['\\', 'n'] else if b = 13 then ['\\', 'r']
    else if 32 ≤ b && b < 127 then [c]
    else ['\\', 'x', hexLower (b.toNat / 16), hexLower b.toNat]
  String.ofList ('b' :: quote :: bs.flatMap shown ++ [quote])

end Connect
