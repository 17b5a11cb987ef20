/-
  Connect.Uuid — `uuid.UUID` of the standard library: the text of an id, and the texts
  that `UUID(...)` accepts.

  `UUID(hex)` drops `urn:` and `uuid:`, strips braces, drops hyphens, wants 32 characters
  and reads them with `int(hex, 16)`, which takes either case, surrounding white space, a
  sign, a `0x`, single underscores between digits and the decimal digits of every script.
  The tables of Unicode are a parameter; nothing depends on what is in them.

  An id has one text of its own (`str`), which is read back (`ofString_str`), and many
  other spellings.
-/

import Connect.Py

namespace Connect

/-- Decimal digits and white space outside ASCII. -/
structure Unicode where
  decimal : Char → Option Nat
  space : Char → Bool

def Unicode.isSpace (U : Unicode) (c : Char) : Bool :=
  if c.toNat < 128 then c == ' ' || (9 ≤ c.toNat && c.toNat ≤ 13) else U.space c

def Unicode.digit (U : Unicode) (c : Char) : Option Nat := if c.toNat < 128 then hexDigit c else U.decimal c

/-- What stands before a digit of `int(s, 16)`. -/
inductive Before16 where
  | start
  | base
  | digit
  | underscore
  deriving DecidableEq, Repr

def Unicode.digits16 (U : Unicode) : Before16 → Nat → List Char → Option Nat
  | last, acc, [] => if last = .digit then some acc else none
  | last, acc, c :: cs =>
    if c = '_' then
      if last = .digit ∨ last = .base then U.digits16 .underscore acc cs else none
    else
      match U.digit c with
      | some d => U.digits16 .digit (acc * 16 + d) cs
      | none => none

/-- `int(s, 16)`, for an `s` without a minus sign. -/
def Unicode.int16 (U : Unicode) (s : List Char) : Option Nat :=
  let s := ((s.dropWhile U.isSpace).reverse.dropWhile U.isSpace).reverse
  let s := if s.head? = some '+' then s.tail else s
  if s.head? = some '0' ∧ (s.tail.head? = some 'x' ∨ s.tail.head? = some 'X') then U.digits16 .base 0 s.tail.tail
  else U.digits16 .start 0 s

/-- `s.replace(pat, '')`; `skip` characters are left of a match. -/
def removeAll (pat : List Char) : Nat → List Char → List Char
  | _, [] => []
  | skip + 1, _ :: cs => removeAll pat skip cs
  | 0, c :: cs => if pat.isPrefixOf (c :: cs) then removeAll pat (pat.length - 1) cs else c :: removeAll pat 0 cs

def isBrace (c : Char) : Bool := c == '{' || c == '}'

structure Uuid where
  int : Nat
  lt : int < 340282366920938463463374607431768211456
  deriving DecidableEq, Repr

def hexChar (d : Nat) : Char := "0123456789abcdef".toList.getD d '0'

/-- The last `k` hexadecimal digits of `n`. -/
def hexDigits : Nat → Nat → List Char
  | 0, _ => []
  | k + 1, n => hexChar (n / Nat.pow 16 k % 16) :: hexDigits k n

/-- `f"{hex[:8]}-{hex[8:12]}-{hex[12:16]}-{hex[16:20]}-{hex[20:]}"`. -/
def dashed (hex : List Char) : List Char :=
  hex.take 8 ++ '-' :: (slice hex 8 4 ++ '-' :: (slice hex 12 4 ++ '-' :: (slice hex 16 4 ++ '-' :: hex.drop 20)))

namespace Uuid

def hex (u : Uuid) : List Char := hexDigits 32 u.int

/-- `str(u)`. -/
def str (u : Uuid) : String := String.ofList (dashed u.hex)

/-- The 32 characters `UUID(s)` reads. -/
def digits (s : String) : List Char :=
  let hex := removeAll "uuid:".toList 0 (removeAll "urn:".toList 0 s.toList)
  ((hex.dropWhile isBrace).reverse.dropWhile isBrace).reverse.filter (· != '-')

/-- `UUID(s)`; `none` for ValueError. -/
def ofString (U : Unicode) (s : String) : Option Uuid :=
  if (digits s).length = 32 then
    match U.int16 (digits s) with
    | some n => if h : n < 340282366920938463463374607431768211456 then some ⟨n, h⟩ else none
    | none => none
  else none

end Uuid

/-! ## An id is read back from its text -/

theorem mem_hexDigits {k n : Nat} {c : Char} (h : c ∈ hexDigits k n) : ∃ d < 16, c = hexChar d := by
  induction k with
  | zero => cases h
  | succ k ih =>
    rcases List.mem_cons.mp h with rfl | h
    · exact ⟨_, Nat.mod_lt _ (by decide), rfl⟩
    · exact ih h

@[simp] theorem hexDigits_length (k n : Nat) : (hexDigits k n).length = k := by
  induction k with
  | zero => rfl
  | succ k ih => rw [hexDigits, List.length_cons, ih]

/-- What the text of an id has no character of. -/
def plain (c : Char) : Bool :=
  c.toNat < 128 && c != 'u' && c != 'x' && c != 'X' && c != '+' && c != '_' && !isBrace c && c != ' ' &&
    !(9 ≤ c.toNat && c.toNat ≤ 13)

theorem hexChar_plain : ∀ d < 16, plain (hexChar d) = true ∧ hexChar d ≠ '-' ∧ hexDigit (hexChar d) = some d := by
  decide

theorem plain_space {U : Unicode} {c : Char} (h : plain c = true) : U.isSpace c = false := by
  simp only [plain, Bool.and_eq_true, bne_iff_ne, ne_eq, decide_eq_true_eq, Bool.not_eq_true'] at h
  simp [Unicode.isSpace, h]

theorem digits16_hex (U : Unicode) {k n acc : Nat} {last : Before16} (h : 0 < k ∨ last = .digit) :
    U.digits16 last acc (hexDigits k n) = some (acc * Nat.pow 16 k + n % Nat.pow 16 k) := by
  induction k generalizing acc last with
  | zero =>
    rcases h with h | rfl
    · exact absurd h (Nat.lt_irrefl 0)
    · simp [hexDigits, Unicode.digits16, Nat.mod_one]
  | succ k ih =>
    obtain ⟨hp, _, hd⟩ := hexChar_plain (n / Nat.pow 16 k % 16) (Nat.mod_lt _ (by decide))
    have hpow : Nat.pow 16 (k + 1) = Nat.pow 16 k * 16 := rfl
    simp only [plain, Bool.and_eq_true, bne_iff_ne, ne_eq, decide_eq_true_eq] at hp
    have hnot : ¬hexChar (n / Nat.pow 16 k % 16) = '_' := hp.1.1.1.2
    have hlt : (hexChar (n / Nat.pow 16 k % 16)).toNat < 128 := hp.1.1.1.1.1.1.1.1
    rw [hexDigits, Unicode.digits16, if_neg hnot, Unicode.digit, if_pos hlt, hd]
    simp only []
    rw [ih (Or.inr rfl), hpow, Nat.mod_mul]
    generalize Nat.pow 16 k = b
    congr 1
    rw [Nat.add_mul, Nat.mul_assoc, Nat.mul_comm 16 b, Nat.mul_comm b (n / b % 16)]
    omega

theorem removeAll_none {p : Char} {ps cs : List Char} (h : ∀ c ∈ cs, c ≠ p) : removeAll (p :: ps) 0 cs = cs := by
  induction cs with
  | nil => rfl
  | cons c cs ih =>
    have hne : (p == c) = false := by simpa using Ne.symm (h c List.mem_cons_self)
    rw [removeAll, List.isPrefixOf_cons_cons, hne, Bool.false_and]
    rw [if_neg (by decide), ih fun x hx => h x (List.mem_cons_of_mem _ hx)]

theorem mem_dashed {hex : List Char} {c : Char} (h : c ∈ dashed hex) : c ∈ hex ∨ c = '-' := by
  simp only [dashed, List.mem_append, List.mem_cons] at h
  rcases h with h | h | h | h | h | h | h | h | h
  · exact Or.inl (List.mem_of_mem_take h)
  · exact Or.inr h
  · exact Or.inl (mem_slice h)
  · exact Or.inr h
  · exact Or.inl (mem_slice h)
  · exact Or.inr h
  · exact Or.inl (mem_slice h)
  · exact Or.inr h
  · exact Or.inl (List.mem_of_mem_drop h)

/-- Dropping the hyphens gives the digits back. -/
theorem dashed_filter {hex : List Char} (h : ∀ c ∈ hex, c ≠ '-') : (dashed hex).filter (· != '-') = hex := by
  have hkeep : ∀ xs : List Char, (∀ c ∈ xs, c ∈ hex) → xs.filter (· != '-') = xs := by
    intro xs hxs
    rw [List.filter_eq_self]
    intro c hc
    simpa using h c (hxs c hc)
  have hslice : ∀ i n, (slice hex i n).filter (· != '-') = slice hex i n :=
    fun i n => hkeep _ fun c hc => mem_slice hc
  have htake := hkeep (hex.take 8) fun c hc => List.mem_of_mem_take hc
  have hdrop := hkeep (hex.drop 20) fun c hc => List.mem_of_mem_drop hc
  simp only [dashed, List.filter_append, List.filter_cons, bne_self_eq_false, hslice, htake, hdrop,
    Bool.false_eq_true, if_false]
  rw [slice_drop hex 16 4, slice_drop hex 12 4, slice_drop hex 8 4, List.take_append_drop]

namespace Uuid

theorem hex_plain (u : Uuid) : ∀ c ∈ u.hex, plain c = true ∧ c ≠ '-' := by
  intro c hc
  obtain ⟨d, hd, rfl⟩ := mem_hexDigits hc
  exact ⟨(hexChar_plain d hd).1, (hexChar_plain d hd).2.1⟩

theorem str_chars (u : Uuid) : ∀ c ∈ u.str.toList, plain c = true ∨ c = '-' := by
  intro c hc
  rw [str, String.toList_ofList] at hc
  exact (mem_dashed hc).imp_left fun h => (u.hex_plain c h).1

theorem str_filter (u : Uuid) : u.str.toList.filter (· != '-') = u.hex := by
  rw [str, String.toList_ofList]
  exact dashed_filter fun c hc => (u.hex_plain c hc).2

theorem digits_str (u : Uuid) : digits u.str = u.hex := by
  have hno : ∀ p : Char, plain p = false → p ≠ '-' → ∀ c ∈ u.str.toList, c ≠ p := by
    intro p hp hne c hc h
    subst h
    rcases u.str_chars c hc with h | h
    · rw [h] at hp; cases hp
    · exact hne h
  have hbrace : ∀ c ∈ u.str.toList, isBrace c = false := by
    intro c hc
    rcases u.str_chars c hc with h | rfl
    · simp only [plain, Bool.and_eq_true, Bool.not_eq_true'] at h
      simp [h]
    · rfl
  have hurn : removeAll "urn:".toList 0 u.str.toList = u.str.toList :=
    removeAll_none (hno 'u' (by decide) (by decide))
  have huuid : removeAll "uuid:".toList 0 u.str.toList = u.str.toList :=
    removeAll_none (hno 'u' (by decide) (by decide))
  simp only [digits, hurn, huuid]
  rw [dropWhile_none hbrace, dropWhile_none fun c hc => hbrace c (List.mem_reverse.mp hc), List.reverse_reverse]
  exact u.str_filter

theorem int16_hex (U : Unicode) (u : Uuid) : U.int16 u.hex = some u.int := by
  have hspace : ∀ c ∈ u.hex, U.isSpace c = false := fun c hc => plain_space (u.hex_plain c hc).1
  have htrim : ((u.hex.dropWhile U.isSpace).reverse.dropWhile U.isSpace).reverse = u.hex := by
    rw [dropWhile_none hspace, dropWhile_none fun c hc => hspace c (List.mem_reverse.mp hc), List.reverse_reverse]
  have hchar : ∀ c ∈ u.hex, c ≠ '+' ∧ c ≠ 'x' ∧ c ≠ 'X' := by
    intro c hc
    have h := (u.hex_plain c hc).1
    simp only [plain, Bool.and_eq_true, bne_iff_ne, ne_eq] at h
    simp [h]
  have hsign : ¬ u.hex.head? = some '+' := fun h => (hchar '+' (List.mem_of_mem_head? h)).1 rfl
  have hbase : ¬ (u.hex.head? = some '0' ∧ (u.hex.tail.head? = some 'x' ∨ u.hex.tail.head? = some 'X')) := by
    intro h
    obtain ⟨_, h | h⟩ := h
    · exact (hchar 'x' (List.mem_of_mem_tail (List.mem_of_mem_head? h))).2.1 rfl
    · exact (hchar 'X' (List.mem_of_mem_tail (List.mem_of_mem_head? h))).2.2 rfl
  simp only [Unicode.int16, htrim, if_neg hsign, if_neg hbase]
  rw [hex, digits16_hex U (Or.inl (by decide)), Nat.zero_mul, Nat.zero_add]
  exact congrArg some (Nat.mod_eq_of_lt u.lt)

/-- `UUID(str(u)) == u`. -/
@[simp] theorem ofString_str (U : Unicode) (u : Uuid) : ofString U u.str = some u := by
  have hlen : u.hex.length = 32 := hexDigits_length 32 u.int
  simp only [ofString, digits_str, hlen, if_true, int16_hex, u.lt, dif_pos]

theorem str_injective {u v : Uuid} (h : u.str = v.str) : u = v := by
  have hu := ofString_str ⟨fun _ => none, fun _ => false⟩ u
  rw [h, ofString_str] at hu
  exact (Option.some.inj hu).symm

end Uuid

end Connect
