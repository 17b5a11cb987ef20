/-
  Connect.Json.Dumps — Python's `json.dumps` with its defaults, and `json.loads` as its
  inverse on every value without a float (`loads_dumps`). A dict that was read has no key
  twice (`distinct_loads`).

  Everything outside printable ASCII is escaped, a character above U+FFFF as a pair of
  surrogates. A float is written by its literal.
-/

import Connect.Json

namespace Connect.Json

/-! ## Strings -/

def hex4 (n : Nat) : List Char :=
  [n / 4096 % 16, n / 256 % 16, n / 16 % 16, n % 16].map Nat.digitChar

def unicodeEscape (n : Nat) : List Char := '\\' :: 'u' :: hex4 n

def escapeChar (c : Char) : List Char :=
  let n := c.toNat
  if c = '"' then ['\\', '"']
  else if c = '\\' then ['\\', '\\']
  else if n = 10 then ['\\', 'n']
  else if n = 13 then ['\\', 'r']
  else if n = 9 then ['\\', 't']
  else if n = 12 then ['\\', 'f']
  else if n = 8 then ['\\', 'b']
  else if 32 ≤ n ∧ n ≤ 126 then [c]
  else if n < 0x10000 then unicodeEscape n
  else unicodeEscape (0xD800 + (n - 0x10000) / 0x400) ++ unicodeEscape (0xDC00 + (n - 0x10000) % 0x400)

def quoted (s : String) : List Char := '"' :: s.toList.flatMap escapeChar ++ ['"']

/-! ## Values -/

mutual

def dumpChars : Json → List Char
  | .null => "null".toList
  | .bool true => "true".toList
  | .bool false => "false".toList
  | .int n => (toString n).toList
  | .float literal => literal.toList
  | .str s => quoted s
  | .arr [] => ['[', ']']
  | .arr (v :: vs) => '[' :: dumpChars v ++ dumpItems vs
  | .obj [] => ['{', '}']
  | .obj ((k, v) :: fs) => '{' :: quoted k ++ [':', ' '] ++ dumpChars v ++ dumpFields fs

def dumpItems : List Json → List Char
  | [] => [']']
  | v :: vs => ',' :: ' ' :: dumpChars v ++ dumpItems vs

def dumpFields : List (String × Json) → List Char
  | [] => ['}']
  | (k, v) :: fs => ',' :: ' ' :: quoted k ++ [':', ' '] ++ dumpChars v ++ dumpFields fs

end

/-- `json.dumps(v)`. -/
def dumps (v : Json) : String := String.ofList (dumpChars v)

example : dumps (.obj [("k", .arr [.int (-3), .null]), ("é", .str "a\n")]) =
    "\x7b\"k\": [-3, null], \"\\u00e9\": \"a\\n\"\x7d" := by rfl

/-! ## The scanner on what was written -/

theorem hexDigit_digitChar {d : Nat} (h : d < 16) : hexDigit (Nat.digitChar d) = some d := by
  have hall : ∀ d < 16, hexDigit (Nat.digitChar d) = some d := by decide
  exact hall d h

theorem scan_digit (text : List Char) (high : Option Nat) (left value : Nat) {d : Nat} (h : d < 16)
    (rest : List Char) :
    scan (.hex text high left value) (Nat.digitChar d :: rest) =
      if left = 1 then scan (unescaped text high (value * 16 + d)) rest
      else scan (.hex text high (left - 1) (value * 16 + d)) rest := by
  simp only [scan, Mode.next, hexDigit_digitChar h]
  split <;> rfl

theorem scan_hex4 (text : List Char) (high : Option Nat) {n : Nat} (h : n < 65536) (rest : List Char) :
    scan (.hex text high 4 0) (hex4 n ++ rest) = scan (unescaped text high n) rest := by
  have hlt (k : Nat) : k % 16 < 16 := Nat.mod_lt _ (by decide)
  have hn : (((0 * 16 + n / 4096 % 16) * 16 + n / 256 % 16) * 16 + n / 16 % 16) * 16 + n % 16 = n := by omega
  show scan _ (_ :: _ :: _ :: _ :: rest) = _
  rw [scan_digit _ _ _ _ (hlt _), if_neg (by decide), scan_digit _ _ _ _ (hlt _), if_neg (by decide),
    scan_digit _ _ _ _ (hlt _), if_neg (by decide), scan_digit _ _ _ _ (hlt _), if_pos (by decide), hn]

theorem scan_unicodeEscape (text : List Char) (high : Option Nat) {n : Nat} (h : n < 65536) (rest : List Char) :
    scan (.string text high) (unicodeEscape n ++ rest) = scan (unescaped text high n) rest := by
  show scan (.hex text high 4 0) (hex4 n ++ rest) = _
  exact scan_hex4 text high h rest

/-- A character that is written as itself, behind a complete text. -/
theorem scan_plain (text : List Char) {c : Char} (hq : c ≠ '"') (hb : c ≠ '\\') (hn : 32 ≤ c.toNat)
    (rest : List Char) :
    scan (.string text none) (c :: rest) = scan (.string (c :: text) none) rest := by
  have h31 : ¬ c.toNat ≤ 0x1F := by omega
  simp [scan, Mode.next, hq, hb, h31, flush]

theorem scan_simple (text : List Char) {c e : Char} (hu : c ≠ 'u') (he : simpleEscape c = some e) (rest : List Char) :
    scan (.string text none) ('\\' :: c :: rest) = scan (.string (e :: text) none) rest := by
  simp [scan, Mode.next, hu, he, flush]

theorem eq_of_toNat {c d : Char} (h : c.toNat = d.toNat) : c = d := by
  rw [← Char.ofNat_toNat c, h, Char.ofNat_toNat]

/-- Above U+FFFF the high half waits, and the low one completes the pair. -/
theorem scan_surrogates (text : List Char) {c : Char} (h : 0x10000 ≤ c.toNat) (rest : List Char) :
    scan (.string text none)
      (unicodeEscape (0xD800 + (c.toNat - 0x10000) / 0x400) ++
        (unicodeEscape (0xDC00 + (c.toNat - 0x10000) % 0x400) ++ rest)) =
      scan (.string (c :: text) none) rest := by
  have hvalid : c.toNat < 0xD800 ∨ 0xDFFF < c.toNat ∧ c.toNat < 0x110000 := c.valid
  have hhigh : isHigh (0xD800 + (c.toNat - 0x10000) / 0x400) = true := by
    simp only [isHigh, Bool.and_eq_true, decide_eq_true_eq]
    omega
  have hlow : isLow (0xDC00 + (c.toNat - 0x10000) % 0x400) = true := by
    simp only [isLow, Bool.and_eq_true, decide_eq_true_eq]
    omega
  have hpair : 0x10000 + (0xD800 + (c.toNat - 0x10000) / 0x400 - 0xD800) * 0x400 +
      (0xDC00 + (c.toNat - 0x10000) % 0x400 - 0xDC00) = c.toNat := by omega
  rw [scan_unicodeEscape text none (by omega)]
  simp only [unescaped, hhigh, if_true]
  rw [scan_unicodeEscape text _ (by omega)]
  simp only [unescaped, hlow, if_true, hpair, Char.ofNat_toNat]

theorem scan_escapeChar (text : List Char) (c : Char) (rest : List Char) :
    scan (.string text none) (escapeChar c ++ rest) = scan (.string (c :: text) none) rest := by
  have hvalid : c.toNat < 0xD800 ∨ 0xDFFF < c.toNat ∧ c.toNat < 0x110000 := c.valid
  have hlow (n : Nat) (h : n < 0xD800 ∨ 0xDFFF < n) : isHigh n = false ∧ isLow n = false := by
    simp only [isHigh, isLow, Bool.and_eq_false_iff, decide_eq_false_iff_not]
    omega
  unfold escapeChar
  dsimp only
  by_cases hq : c = '"'
  · rw [if_pos hq, hq]
    exact scan_simple text (by decide) rfl rest
  rw [if_neg hq]
  by_cases hb : c = '\\'
  · rw [if_pos hb, hb]
    exact scan_simple text (by decide) rfl rest
  rw [if_neg hb]
  by_cases h10 : c.toNat = 10
  · rw [if_pos h10, eq_of_toNat (d := '\n') h10]
    exact scan_simple text (by decide) rfl rest
  rw [if_neg h10]
  by_cases h13 : c.toNat = 13
  · rw [if_pos h13, eq_of_toNat (d := '\r') h13]
    exact scan_simple text (by decide) rfl rest
  rw [if_neg h13]
  by_cases h9 : c.toNat = 9
  · rw [if_pos h9, eq_of_toNat (d := '\t') h9]
    exact scan_simple text (by decide) rfl rest
  rw [if_neg h9]
  by_cases h12 : c.toNat = 12
  · rw [if_pos h12, eq_of_toNat (d := Char.ofNat 12) h12]
    exact scan_simple text (by decide) rfl rest
  rw [if_neg h12]
  by_cases h8 : c.toNat = 8
  · rw [if_pos h8, eq_of_toNat (d := Char.ofNat 8) h8]
    exact scan_simple text (by decide) rfl rest
  rw [if_neg h8]
  by_cases hp : 32 ≤ c.toNat ∧ c.toNat ≤ 126
  · rw [if_pos hp]
    exact scan_plain text hq hb hp.1 rest
  rw [if_neg hp]
  by_cases h16 : c.toNat < 0x10000
  · rw [if_pos h16, scan_unicodeEscape text none h16]
    obtain ⟨hh, hl⟩ := hlow c.toNat (by omega)
    simp [unescaped, hh, hl, Char.ofNat_toNat]
  · rw [if_neg h16, List.append_assoc]
    exact scan_surrogates text (by omega) rest

theorem scan_escaped (text cs rest : List Char) :
    scan (.string text none) (cs.flatMap escapeChar ++ rest) = scan (.string (cs.reverse ++ text) none) rest := by
  induction cs generalizing text with
  | nil => rfl
  | cons c cs ih =>
    rw [List.flatMap_cons, List.append_assoc, scan_escapeChar, ih, List.reverse_cons, List.append_assoc]
    rfl

theorem scan_quoted (s : String) (rest : List Char) :
    scan .between (quoted s ++ rest) = .str s :: scan .between rest := by
  have h := scan_escaped [] s.toList ('"' :: rest)
  rw [List.append_nil] at h
  have hq : quoted s ++ rest = '"' :: (s.toList.flatMap escapeChar ++ '"' :: rest) := by simp [quoted]
  rw [hq]
  show scan (.string [] none) _ = _
  rw [h]
  show Token.str (String.ofList (flush s.toList.reverse none).reverse) :: scan .between rest = _
  simp [flush]

/-! ## Any value without a float -/

/-- What `json.loads` has room for: no more than `room` containers around a value, no
    integer of more than 4300 digits, no key twice, no float. -/
inductive Readable : Nat → Json → Prop where
  | null (room : Nat) : Readable room .null
  | bool (room : Nat) (b : Bool) : Readable room (.bool b)
  | int (room : Nat) (n : Int) (h : (Nat.toDigits 10 n.natAbs).length ≤ maxStrDigits) : Readable room (.int n)
  | str (room : Nat) (s : String) : Readable room (.str s)
  | arr {room : Nat} {items : List Json} (h : ∀ v ∈ items, Readable room v) : Readable (room + 1) (.arr items)
  | obj {room : Nat} {fields : List (String × Json)} (hkeys : (fields.map (·.1)).Nodup)
      (h : ∀ f ∈ fields, Readable room f.2) : Readable (room + 1) (.obj fields)

/-- What may stand behind a value that was written. -/
def Ends (rest : List Char) : Prop := ∀ c ∈ rest.head?, c = ',' ∨ c = ']' ∨ c = '}'

theorem ends_items (items : List Json) (rest : List Char) : Ends (dumpItems items ++ rest) := by
  cases items <;> simp [Ends, dumpItems]

theorem ends_fields (fields : List (String × Json)) (rest : List Char) : Ends (dumpFields fields ++ rest) := by
  cases fields <;> simp [Ends, dumpFields]

theorem scan_comma (cs : List Char) : scan .between (',' :: ' ' :: cs) = .comma :: scan .between cs := rfl

theorem scan_lbrace (cs : List Char) : scan .between ('{' :: cs) = .lbrace :: scan .between cs := rfl

theorem scan_number {part : NumPart} (hpart : part = .zero ∨ part = .int) (text : List Char) {rest : List Char}
    (h : Ends rest) : scan (.number part text) rest = numToken text ++ scan .between rest := by
  cases rest with
  | nil => simp [scan, Mode.atEnd]
  | cons c rest =>
    have hc := h c rfl
    rcases hpart with rfl | rfl <;> rcases hc with rfl | rfl | rfl <;>
      simp [scan, Mode.next, NumPart.next, begin_, isSpace]

/-- Digits of a positive number, read from where its first one begins a number. -/
theorem scan_digits {m : Mode} {text : List Char} (hstart : ∀ d, 0 < d → d < 10 → ∀ rest,
      scan m (Nat.digitChar d :: rest) = scan (.number .int (Nat.digitChar d :: text)) rest)
    {n : Nat} (hn : 0 < n) (rest : List Char) :
    scan m (Nat.toDigits 10 n ++ rest) = scan (.number .int ((Nat.toDigits 10 n).reverse ++ text)) rest := by
  induction n using Nat.strongRecOn generalizing rest with
  | ind n ih =>
    rcases Nat.lt_or_ge n 10 with hlt | hge
    · rw [Nat.toDigits_of_lt_base hlt]
      exact hstart n hn hlt rest
    · have hdigit : (Nat.digitChar (n % 10)).isDigit = true := by
        have hall : ∀ d < 10, (Nat.digitChar d).isDigit = true := by decide
        exact hall _ (Nat.mod_lt _ (by decide))
      rw [Nat.toDigits_of_base_le (by decide) hge, List.append_assoc, ih (n / 10) (by omega) (by omega)]
      simp [scan, Mode.next, NumPart.next, hdigit]

theorem scan_nat {m : Mode} {text : List Char} (hstart : ∀ d, 0 < d → d < 10 → ∀ rest,
      scan m (Nat.digitChar d :: rest) = scan (.number .int (Nat.digitChar d :: text)) rest)
    (hzero : ∀ rest, scan m ('0' :: rest) = scan (.number .zero ('0' :: text)) rest) (n : Nat) {rest : List Char}
    (h : Ends rest) :
    scan m (Nat.toDigits 10 n ++ rest) = numToken ((Nat.toDigits 10 n).reverse ++ text) ++ scan .between rest := by
  rcases Nat.eq_zero_or_pos n with rfl | hn
  · rw [Nat.toDigits_zero]
    show scan m ('0' :: rest) = _
    rw [hzero, scan_number (.inl rfl) _ h]
    rfl
  · rw [scan_digits hstart hn, scan_number (.inr rfl) _ h]

theorem numToken_digits {ds : List Char} (hne : ds ≠ []) (hall : ∀ c ∈ ds, c.isDigit = true) (negative : Bool) :
    numToken (ds.reverse ++ if negative then ['-'] else []) = [.int negative ds] := by
  have hdrop : (ds.reverse ++ if negative then ['-'] else []).dropWhile (!·.isDigit) =
      ds.reverse ++ if negative then ['-'] else [] := by
    obtain ⟨d, init, rfl⟩ : ∃ d init, ds = init ++ [d] :=
      ⟨ds.getLast hne, ds.dropLast, (List.dropLast_concat_getLast hne).symm⟩
    simp [hall d]
  have hfilter : ds.filter Char.isDigit = ds := List.filter_eq_self.mpr hall
  have hplain : ds.all (fun c => c.isDigit || c == '-') = true :=
    List.all_eq_true.mpr fun c hc => by simp [hall c hc]
  have hhead : ds.head? ≠ some '-' := by
    intro hc
    exact absurd (hall _ (List.mem_of_mem_head? hc)) (by decide)
  unfold numToken
  rw [hdrop]
  cases negative <;> simp [hne, hplain, hfilter, hhead, show '-'.isDigit = false by decide]

theorem toList_toString (n : Int) :
    (toString n).toList = (if n < 0 then ['-'] else []) ++ Nat.toDigits 10 n.natAbs := by
  rw [Int.toString_eq_repr, Int.repr_eq_if]
  split
  · rw [if_neg (by omega), Nat.toList_repr, show n.toNat = n.natAbs by omega]
    rfl
  · rw [if_pos (by omega), String.toList_append, Nat.toList_repr, show (-n).toNat = n.natAbs by omega]
    rfl

theorem scan_int (n : Int) {rest : List Char} (h : Ends rest) :
    scan .between ((toString n).toList ++ rest) = .int (decide (n < 0)) (Nat.toDigits 10 n.natAbs) ::
    scan .between rest := by
  have hdigits := numToken_digits (Nat.toDigits_ne_nil (b := 10) (n := n.natAbs))
    (fun c hc => Nat.isDigit_of_mem_toDigits (by decide) (by decide) hc)
  have hstart (m : Mode) (text : List Char)
      (hm : ∀ d < 10, 0 < d → m.next (Nat.digitChar d) = ([], .number .int (Nat.digitChar d :: text))) :
      ∀ d, 0 < d → d < 10 → ∀ rest, scan m (Nat.digitChar d :: rest) =
        scan (.number .int (Nat.digitChar d :: text)) rest := by
    intro d hpos hlt rest
    rw [scan, hm d hlt hpos]
    rfl
  rw [toList_toString]
  by_cases hn : n < 0
  · rw [if_pos hn]
    show scan (.number .minus ['-']) (Nat.toDigits 10 n.natAbs ++ rest) = _
    rw [scan_nat (hstart (.number .minus ['-']) ['-'] (by decide)) (fun _ => rfl) _ h, decide_eq_true hn]
    exact congrArg (· ++ scan .between rest) (hdigits true)
  · rw [if_neg hn, List.nil_append, scan_nat (hstart .between [] (by decide)) (fun _ => rfl) _ h, decide_eq_false hn]
    exact congrArg (· ++ scan .between rest) (hdigits false)

theorem toInt_toDigits (n : Int) : toInt (decide (n < 0)) (Nat.toDigits 10 n.natAbs) = n := by
  have hfold : (Nat.toDigits 10 n.natAbs).foldl (fun k c => k * 10 + (c.toNat - '0'.toNat)) 0 = n.natAbs := by
    have h := Nat.ofDigitChars_toDigits (b := 10) (n := n.natAbs) (by decide) (by decide)
    rw [Nat.ofDigitChars_eq_foldl] at h
    simpa only [Nat.mul_comm] using h
  unfold toInt
  rw [hfold]
  split <;> simp only [decide_eq_true_eq] at * <;> omega

/-! ### The parser -/

/-- Where the parser may begin a value on `stack`. -/
def Expect.Begins (e : Expect) (limit : Nat) (stack : List Frame) : Prop :=
  ∀ t, t ≠ .rbracket → e.next limit t = startValue limit stack t

/-- The value is read where one may begin, and closed, with `room` containers left for it. -/
def Reads (limit room : Nat) (v : Json) : Prop :=
  ∀ (e : Expect) (stack : List Frame) (rest : List Char), e.Begins limit stack →
    stack.length + room ≤ limit → Ends rest →
    parseTokens limit e (scan .between (dumpChars v ++ rest)) = parseTokens limit (close v stack) (scan .between rest)

theorem parse_begin {limit : Nat} {e : Expect} {stack : List Frame} (he : e.Begins limit stack) {t : Token}
    (ht : t ≠ .rbracket)
    (ts : List Token) : parseTokens limit e (t :: ts) =
      (startValue limit stack t).bind fun e => parseTokens limit e ts := by
  rw [parseTokens, he t ht]

theorem begins_value (limit : Nat) (stack : List Frame) : (Expect.value stack).Begins limit stack := fun _ _ => rfl

theorem begins_item (limit : Nat) (stack : List Frame) :
    (Expect.itemOrClose stack).Begins limit (.arr [] :: stack) := by
  intro t ht
  cases t <;> first | rfl | exact absurd rfl ht

theorem reads_items {limit room : Nat} {items : List Json} (h : ∀ v ∈ items, Reads limit room v) (done : List Json)
    {stack : List Frame} (hroom : stack.length + 1 + room ≤ limit) (rest : List Char) :
    parseTokens limit (.commaArr done stack) (scan .between (dumpItems items ++ rest)) =
      parseTokens limit (close (.arr (done ++ items)) stack) (scan .between rest) := by
  induction items generalizing done with
  | nil =>
    rw [List.append_nil]
    rfl
  | cons v vs ih =>
    have hv :=
      h v List.mem_cons_self (.value (.arr done :: stack)) _ _ (begins_value limit _) hroom (ends_items vs rest)
    have hdump : dumpItems (v :: vs) ++ rest = ',' :: ' ' :: (dumpChars v ++ (dumpItems vs ++ rest)) := by
      simp [dumpItems]
    calc parseTokens limit (.commaArr done stack) (scan .between (dumpItems (v :: vs) ++ rest))
        = parseTokens limit (.value (.arr done :: stack))
          (scan .between (dumpChars v ++ (dumpItems vs ++ rest))) := by
          rw [hdump, scan_comma]
          rfl
      _ = parseTokens limit (.commaArr (done ++ [v]) stack) (scan .between (dumpItems vs ++ rest)) := hv
      _ = parseTokens limit (close (.arr (done ++ v :: vs)) stack) (scan .between rest) := by
          rw [ih fun w hw => h w (List.mem_cons_of_mem v hw), List.append_assoc]
          rfl

theorem reads_arr {limit room : Nat} {items : List Json} (h : ∀ v ∈ items, Reads limit room v) :
    Reads limit (room + 1) (.arr items) := by
  intro e stack rest he hroom hends
  have hopen : startValue limit stack .lbracket = .ok (.itemOrClose stack) := if_pos (by omega)
  cases items with
  | nil =>
    show parseTokens limit e (.lbracket :: .rbracket :: scan .between rest) = _
    rw [parse_begin he (by decide), hopen]
    rfl
  | cons v vs =>
    have hv := h v List.mem_cons_self (.itemOrClose stack) _ _ (begins_item limit stack)
      (show stack.length + 1 + room ≤ limit by omega) (ends_items vs rest)
    have hdump : dumpChars (.arr (v :: vs)) ++ rest = '[' :: (dumpChars v ++ (dumpItems vs ++ rest)) := by
      simp [dumpChars]
    rw [hdump]
    show parseTokens limit e (.lbracket :: scan .between (dumpChars v ++ (dumpItems vs ++ rest))) = _
    rw [parse_begin he (by decide), hopen]
    refine hv.trans ?_
    exact reads_items (fun w hw => h w (List.mem_cons_of_mem v hw)) [v] (by omega) rest

/-- A key and its value, behind the brace or the comma. -/
theorem reads_field {limit room : Nat} {v : Json} (h : Reads limit room v) (done : List (String × Json)) (k : String)
    {stack : List Frame} (hroom : stack.length + 1 + room ≤ limit) {rest : List Char} (hends : Ends rest) :
    parseTokens limit (.colon done k stack) (scan .between ([':', ' '] ++ dumpChars v ++ rest)) =
      parseTokens limit (.commaObj (setKey done k v) stack) (scan .between rest) := by
  have hv := h (.value (.obj done k :: stack)) _ _ (begins_value limit _) hroom hends
  rw [List.append_assoc]
  exact hv

theorem setKey_new {fields : List (String × Json)} {key : String} (h : key ∉ fields.map (·.1)) (v : Json) :
    setKey fields key v = fields ++ [(key, v)] := by
  have hany : fields.any (·.1 == key) = false := by
    rw [List.any_eq_false]
    intro f hf hk
    exact h (List.mem_map.mpr ⟨f, hf, by simpa using hk⟩)
  rw [setKey, hany]
  rfl

theorem reads_fields {limit room : Nat} {fields : List (String × Json)} (h : ∀ f ∈ fields, Reads limit room f.2)
    (done : List (String × Json)) (hkeys : (done.map (·.1) ++ fields.map (·.1)).Nodup) {stack : List Frame}
    (hroom : stack.length + 1 + room ≤ limit) (rest : List Char) :
    parseTokens limit (.commaObj done stack) (scan .between (dumpFields fields ++ rest)) =
      parseTokens limit (close (.obj (done ++ fields)) stack) (scan .between rest) := by
  induction fields generalizing done with
  | nil =>
    rw [List.append_nil]
    rfl
  | cons f fs ih =>
    obtain ⟨k, v⟩ := f
    have hnew : k ∉ done.map (·.1) := fun hm => (List.nodup_append.mp hkeys).2.2 k hm k (by simp) rfl
    have hdump : dumpFields ((k, v) :: fs) ++ rest =
        ',' :: ' ' :: (quoted k ++ ([':', ' '] ++ dumpChars v ++ (dumpFields fs ++ rest))) := by simp [dumpFields]
    calc parseTokens limit (.commaObj done stack) (scan .between (dumpFields ((k, v) :: fs) ++ rest))
        = parseTokens limit (.colon done k stack)
          (scan .between ([':', ' '] ++ dumpChars v ++ (dumpFields fs ++ rest))) := by
          rw [hdump, scan_comma, scan_quoted]
          rfl
      _ = parseTokens limit (.commaObj (done ++ [(k, v)]) stack) (scan .between (dumpFields fs ++ rest)) := by
          rw [reads_field (h _ List.mem_cons_self) done k hroom (ends_fields fs rest), setKey_new hnew]
      _ = parseTokens limit (close (.obj (done ++ (k, v) :: fs)) stack) (scan .between rest) := by
          rw [ih (fun g hg => h g (List.mem_cons_of_mem _ hg)) _ (by simpa using hkeys), List.append_assoc]
          rfl

theorem reads_obj {limit room : Nat} {fields : List (String × Json)} (hkeys : (fields.map (·.1)).Nodup)
    (h : ∀ f ∈ fields, Reads limit room f.2) : Reads limit (room + 1) (.obj fields) := by
  intro e stack rest he hroom hends
  have hopen : startValue limit stack .lbrace = .ok (.keyOrClose stack) := if_pos (by omega)
  cases fields with
  | nil =>
    show parseTokens limit e (.lbrace :: .rbrace :: scan .between rest) = _
    rw [parse_begin he (by decide), hopen]
    rfl
  | cons f fs =>
    obtain ⟨k, v⟩ := f
    have hdump : dumpChars (.obj ((k, v) :: fs)) ++ rest =
        '{' :: (quoted k ++ ([':', ' '] ++ dumpChars v ++ (dumpFields fs ++ rest))) := by simp [dumpChars]
    rw [hdump, scan_lbrace, parse_begin he (by decide), hopen, scan_quoted]
    show parseTokens limit (.colon [] k stack) _ = _
    rw [reads_field (h _ List.mem_cons_self) [] k (by omega) (ends_fields fs rest)]
    exact reads_fields (fun g hg => h g (List.mem_cons_of_mem _ hg)) [(k, v)] (by simpa using hkeys) (by omega) rest

theorem reads_token {limit room : Nat} {v : Json} {t : Token} (ht : t ≠ .rbracket)
    (hscan : ∀ rest, Ends rest → scan .between (dumpChars v ++ rest) = t :: scan .between rest)
    (hstart : ∀ stack, startValue limit stack t = .ok (close v stack)) : Reads limit room v := by
  intro e stack rest he _ hends
  rw [hscan rest hends, parse_begin he ht, hstart]
  rfl

theorem reads_of_readable (limit : Nat) {room : Nat} {v : Json} (h : Readable room v) : Reads limit room v := by
  induction h with
  | null => exact reads_token (t := .null) (by decide) (fun _ _ => rfl) fun _ => rfl
  | bool room b => cases b <;> exact reads_token (t := .bool _) (by decide) (fun _ _ => rfl) fun _ => rfl
  | int room n h =>
    refine reads_token (t := .int _ _) (by simp) (fun rest hends => scan_int n hends) fun stack => ?_
    rw [startValue, if_neg (by omega), toInt_toDigits]
  | str room s => exact reads_token (t := .str s) (by simp) (fun rest _ => scan_quoted s rest) fun _ => rfl
  | arr h ih => exact reads_arr ih
  | obj hkeys h ih => exact reads_obj hkeys ih

/-- Nothing is written as a text that begins with the byte order mark. -/
theorem dumpChars_head {room : Nat} {v : Json} (h : Readable room v) :
    ∃ c cs, dumpChars v = c :: cs ∧ c ≠ Char.ofNat 0xFEFF := by
  cases h with
  | null => exact ⟨_, _, rfl, by decide⟩
  | bool _ b => cases b <;> exact ⟨_, _, rfl, by decide⟩
  | int _ n h =>
    rw [dumpChars, toList_toString]
    by_cases hn : n < 0
    · rw [if_pos hn]
      exact ⟨_, _, rfl, by decide⟩
    · obtain ⟨c, cs, hc⟩ := List.exists_cons_of_ne_nil (Nat.toDigits_ne_nil (b := 10) (n := n.natAbs))
      rw [if_neg hn, List.nil_append]
      refine ⟨c, cs, hc, ?_⟩
      rintro rfl
      have hdigit : (Char.ofNat 0xFEFF).isDigit = true :=
        Nat.isDigit_of_mem_toDigits (b := 10) (n := n.natAbs) (by decide) (by decide) (hc ▸ List.mem_cons_self)
      exact absurd hdigit (by decide)
  | str _ s => exact ⟨_, _, rfl, by decide⟩
  | @arr _ items h => cases items <;> exact ⟨_, _, rfl, by decide⟩
  | @obj _ fields _ h => cases fields <;> exact ⟨_, _, rfl, by decide⟩

/-- What `json.dumps` writes of a value without floats, `json.loads` reads as that value. -/
theorem loads_dumps {room : Nat} {v : Json} (h : Readable room v) : loads room (dumps v) = .ok v := by
  obtain ⟨c, cs, hdump, hc⟩ := dumpChars_head h
  have hreads := reads_of_readable room h (.value []) [] [] (begins_value room []) (by simp) (by simp [Ends])
  rw [List.append_nil, hdump] at hreads
  unfold loads dumps
  rw [String.toList_ofList, hdump]
  exact (if_neg hc).trans hreads

/-! ## A dict of strings -/

def textFields (fields : List (String × String)) : List (String × Json) := fields.map fun f => (f.1, .str f.2)

theorem lookup_textFields (fields : List (String × String)) (key : String) :
    (textFields fields).lookup key = (fields.lookup key).map Json.str := by
  induction fields with
  | nil => rfl
  | cons f rest ih =>
    show List.lookup key ((f.1, .str f.2) :: textFields rest) = _
    rw [List.lookup_cons, List.lookup_cons, ih]
    split <;> rfl

theorem readable_textFields {room : Nat} (hroom : 0 < room) {fields : List (String × String)}
    (h : (fields.map (·.1)).Nodup) :
    Readable room (.obj (textFields fields)) := by
  obtain ⟨room, rfl⟩ := Nat.exists_eq_add_one_of_ne_zero (Nat.ne_of_gt hroom)
  refine .obj (by rwa [textFields, List.map_map]) fun f hf => ?_
  obtain ⟨g, _, rfl⟩ := List.mem_map.mp hf
  exact .str room g.2

/-! ## The keys of a dict that was read -/

theorem map_fst_setKey_mem {fields : List (String × Json)} {key : String} {v : Json}
    (h : fields.any (·.1 == key) = true) :
    (setKey fields key v).map (·.1) = fields.map (·.1) := by
  rw [setKey, if_pos h, List.map_map]
  refine List.map_congr_left fun f _ => ?_
  show (if f.1 == key then (key, v) else f).1 = f.1
  split
  · next he => exact (by simpa using he : f.1 = key).symm
  · rfl

theorem nodup_setKey {fields : List (String × Json)} (h : (fields.map (·.1)).Nodup) (key : String) (v : Json) :
    ((setKey fields key v).map (·.1)).Nodup := by
  by_cases hk : fields.any (·.1 == key) = true
  · rwa [map_fst_setKey_mem hk]
  · have hnew : key ∉ fields.map (·.1) := by
      intro hm
      obtain ⟨f, hf, rfl⟩ := List.mem_map.mp hm
      exact hk (List.any_eq_true.mpr ⟨f, hf, by simp⟩)
    rw [setKey_new hnew, List.map_append]
    exact List.nodup_append.mpr ⟨h, by simp, by rintro a ha b hb rfl; simp at hb; exact hnew (hb ▸ ha)⟩

def Distinct : Json → Prop
  | .obj fields => (fields.map (·.1)).Nodup
  | _ => True

def Frame.Distinct : Frame → Prop
  | .arr _ => True
  | .obj done _ => (done.map (·.1)).Nodup

/-- Every dict the parser is in has its keys distinct so far. -/
def Expect.Distinct : Expect → Prop
  | .value stack | .itemOrClose stack | .keyOrClose stack | .commaArr _ stack => ∀ f ∈ stack, f.Distinct
  | .key fields stack | .colon fields _ stack | .commaObj fields stack =>
    (fields.map (·.1)).Nodup ∧ ∀ f ∈ stack, f.Distinct
  | .done v => Json.Distinct v

theorem distinct_close {v : Json} {stack : List Frame} (hv : Distinct v) (h : ∀ f ∈ stack, f.Distinct) :
    (close v stack).Distinct := by
  cases stack with
  | nil => exact hv
  | cons f stack =>
    have hrest : ∀ g ∈ stack, g.Distinct := fun g hg => h g (by simp [hg])
    cases f with
    | arr done => exact hrest
    | obj done key => exact ⟨nodup_setKey (h (.obj done key) (by simp)) key v, hrest⟩

theorem distinct_startValue {room : Nat} {stack : List Frame} {t : Token} {e : Expect} (h : ∀ f ∈ stack, f.Distinct)
    (he : startValue room stack t = .ok e) : e.Distinct := by
  cases t with
  | lbrace | lbracket =>
    simp only [startValue] at he
    split at he
    · cases he
      exact h
    · cases he
  | int negative digits =>
    simp only [startValue] at he
    split at he
    · cases he
    · cases he
      exact distinct_close (v := .int _) trivial h
  | null => cases he; exact distinct_close (v := .null) trivial h
  | bool b => cases he; exact distinct_close (v := .bool b) trivial h
  | float literal => cases he; exact distinct_close (v := .float literal) trivial h
  | str s => cases he; exact distinct_close (v := .str s) trivial h
  | _ => cases he

theorem distinct_next {room : Nat} {e e' : Expect} {t : Token} (h : e.Distinct)
    (he : e.next room t = .ok e') : e'.Distinct := by
  fun_cases Expect.next room e t with
  | case1 stack => exact distinct_startValue h he
  | case2 stack => cases he; exact distinct_close (v := .arr []) trivial h
  | case3 stack t hne =>
    rw [Expect.next] at he
    · refine distinct_startValue (fun f hf => ?_) he
      rcases List.mem_cons.mp hf with rfl | hf
      · trivial
      · exact h f hf
    · exact hne
  | case4 stack => cases he; exact distinct_close (v := .obj []) List.nodup_nil h
  | case5 stack k => cases he; exact ⟨List.nodup_nil, h⟩
  | case6 fields stack k => cases he; exact h
  | case7 fields k stack =>
    cases he
    intro f hf
    rcases List.mem_cons.mp hf with rfl | hf
    · exact h.1
    · exact h.2 f hf
  | case8 items stack =>
    cases he
    intro f hf
    rcases List.mem_cons.mp hf with rfl | hf
    · trivial
    · exact h f hf
  | case9 items stack => cases he; exact distinct_close (v := .arr items) trivial h
  | case10 fields stack => cases he; exact h
  | case11 fields stack => cases he; exact distinct_close (v := .obj fields) h.1 h.2
  | case12 => simp [Expect.next] at he

theorem distinct_parseTokens {room : Nat} {e : Expect} {ts : List Token} {v : Json} (h : e.Distinct)
    (hp : parseTokens room e ts = .ok v) : v.Distinct := by
  induction ts generalizing e with
  | nil =>
    cases e with
    | done w => cases hp; exact h
    | _ => cases hp
  | cons t ts ih =>
    rw [parseTokens] at hp
    cases hn : e.next room t with
    | error err => rw [hn] at hp; cases hp
    | ok e' =>
      rw [hn] at hp
      exact ih (distinct_next h hn) hp

/-- A dict that `json.loads` returns has no key twice. -/
theorem distinct_loads {room : Nat} {s : String} {v : Json} (h : loads room s = .ok v) : v.Distinct := by
  unfold loads at h
  split at h
  · cases h
  · split at h
    · cases h
    · exact distinct_parseTokens (e := .value []) (by simp [Expect.Distinct]) h

end Connect.Json
