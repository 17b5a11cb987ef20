/-
  Connect.Tfvars.Form — the deployment form (connect_bootstrap/screens/tfvars_form.py): ten
  fields filled from terraform.tfvars, and saved over it.

  A value goes through `str`, an input, `strip` and a guess of its type, and what is no
  field is not saved. So an unedited save keeps the file if and only if every variable is
  a field and its value comes back from that (`kept_iff_stable`).
-/

import Connect.Tfvars.Format

namespace Connect.Tfvars

open Chars

variable (P : CPython)

/-! ## The screen -/

/-- A row of FIELDS, without its label and placeholder. -/
structure Field where
  name : String
  default : String
  required : Bool
  deriving DecidableEq, Repr

def fields : List Field :=
  [⟨"env", "prod", false⟩, ⟨"domain", "", true⟩, ⟨"route53_zone_id", "", true⟩, ⟨"github_repo", "", false⟩,
    ⟨"alarms_email", "", false⟩, ⟨"vpc_cidr", "10.20.0.0/16", false⟩, ⟨"rds_instance_class", "db.t4g.micro", false⟩,
    ⟨"rds_multi_az", "false", false⟩, ⟨"elasticache_node_type", "cache.t4g.micro", false⟩,
    ⟨"worker_max_count", "8", false⟩]

/-- `app.state.aws_region`: it comes from an input of one line. -/
structure Region where
  text : String
  oneLine : ∀ c ∈ text.toList, isBreak c = false

/-- A file that does not exist reads as no variables. -/
def parseFile (file : Option String) : Dict := (file.map (parse P)).getD []

/-- `_load_existing`. -/
def loadExisting (tfvars example_ : Option String) : Dict :=
  let existing := parseFile P tfvars
  if existing = [] then parseFile P example_ else existing

/-- `isprintable`, which is false of all white space but the space itself. -/
def CPython.isPrintable (c : Char) : Bool :=
  if c.toNat < 128 then 32 ≤ c.toNat && c.toNat ≤ 126 else !isSpace c && P.printable c

def CPython.reprChar (quote c : Char) : List Char :=
  if c = quote || c = '\\' then ['\\', c]
  else if c = '\n' then ['\\', 'n'] else if c = '\r' then ['\\', 'r'] else if c = '\t' then ['\\', 't']
  else if P.isPrintable c then [c]
  else if c.toNat < 0x100 then '\\' :: 'x' :: hexDigits 2 c.toNat
  else if c.toNat < 0x10000 then '\\' :: 'u' :: hexDigits 4 c.toNat
  else '\\' :: 'U' :: hexDigits 8 c.toNat

/-- `repr(s)`. -/
def CPython.repr (s : String) : String :=
  let apostrophe := Char.ofNat 39
  let quote := if s.toList.contains apostrophe && !s.toList.contains '"' then '"' else apostrophe
  String.ofList (quote :: s.toList.flatMap (P.reprChar quote) ++ [quote])

/-- `str(value)`. -/
def CPython.str : Value → String
  | .str s => s
  | .bool b => if b then "True" else "False"
  | .int n => toString n
  | .float literal => P.floatStr literal
  | .list items => "[" ++ String.intercalate ", " (items.map P.repr) ++ "]"

/-- `compose`: what each input holds. -/
def compose (existing : Dict) : List (Field × String) :=
  fields.map fun f => (f, P.str ((existing.lookup f.name).getD (.str f.default)))

/-- `isdigit`, of one character. -/
def CPython.isDigit (c : Char) : Bool := if c.toNat < 128 then c.isDigit else (P.decimal c).isSome || P.otherDigit c

/-- `v.lower() in ("true", "false")`. Outside ASCII nothing lowers to a letter of these. -/
def lowerIn (v : List Char) : Option Bool :=
  let lower := v.map Char.toLower
  if lower = "true".toList then some true else if lower = "false".toList then some false else none

/-- What `_save` makes of the text of an input, which is not blank. -/
def coerce (v : List Char) : Except Exc Value :=
  match lowerIn v with
  | some b => .ok (.bool b)
  | none =>
    if v.all P.isDigit then
      match P.int v with
      | some n => .ok (.int n)
      | none => .error (.exception (intError (v.map P.toAscii) (P.repr (String.ofList v))))
    else .ok (.str (String.ofList v))

/-- The loop over FIELDS: `values` and `missing`. -/
def collect : List (Field × String) → Except Exc (Dict × List String)
  | [] => .ok ([], [])
  | (f, value) :: inputs =>
    let v := strip value.toList
    if v = [] then do
      let (values, missing) ← collect inputs
      pure (values, if f.required then f.name :: missing else missing)
    else do
      let x ← coerce P v
      let (values, missing) ← collect inputs
      pure ((f.name, x) :: values, missing)

/-- What comes of a save: the text that is written, or the fields that are missing, or an
    exception, and nothing is written. -/
inductive Saved where
  | written (text : String)
  | missing (names : List String)
  | raised (e : Exc)

/-- `_save`, on a file that can be written. -/
def save (region : Region) (inputs : List (Field × String)) : Saved :=
  match collect P inputs with
  | .error e => .raised e
  | .ok (values, missing) =>
    if missing ≠ [] then .missing missing else .written (render P (setItem values "aws_region" (.str region.text)))

/-- The form is opened and saved as it is. -/
def openAndSave (region : Region) (tfvars example_ : Option String) : Saved :=
  save P region (compose P (loadExisting P tfvars example_))

/-! ## The statement -/

/-- A string of one line, a boolean, an integer or a list of strings. -/
def Value.Supported : Value → Prop
  | .str s => ∀ c ∈ s.toList, isBreak c = false
  | .bool _ | .int _ | .list _ => True
  | .float _ => False

def Supported (d : Dict) : Prop := ∀ f ∈ d, f.2.Supported

instance (v : Value) : Decidable v.Supported :=
  match v with
  | .str s => inferInstanceAs (Decidable (∀ c ∈ s.toList, isBreak c = false))
  | .bool _ | .int _ | .list _ => .isTrue trivial
  | .float _ => .isFalse id

instance (d : Dict) : Decidable (Supported d) := inferInstanceAs (Decidable (∀ f ∈ d, f.2.Supported))

/-- The required fields are there. -/
def Present (d : Dict) : Prop := ∀ f ∈ fields, f.required = true → (d.lookup f.name).isSome = true

instance (d : Dict) : Decidable (Present d) :=
  inferInstanceAs (Decidable (∀ f ∈ fields, f.required = true → (d.lookup f.name).isSome = true))

/-- The same value, of the same type, for every variable of `d` but the region. -/
def Agrees (d e : Dict) : Prop := ∀ k v, d.lookup k = some v → k ≠ "aws_region" → e.lookup k = some v

/-- A boolean, an integer that is not negative, or a string that is not blank, has no white
    space at its ends, is not true or false in any case, and has another character than
    digits. -/
def Stable : Value → Prop
  | .bool _ => True
  | .int n => 0 ≤ n
  | .str s => s.toList ≠ [] ∧ strip s.toList = s.toList ∧ lowerIn s.toList = none ∧ s.toList.all P.isDigit = false
  | .float _ | .list _ => False

variable {P}

/-! ## No integer is too long to be written -/

theorem ofDigitChars_lt {cs : List Char} (h : ∀ c ∈ cs, c.isDigit = true) (acc : Nat) :
    Nat.ofDigitChars 10 cs acc < (acc + 1) * Nat.pow 10 cs.length := by
  induction cs generalizing acc with
  | nil => simp
  | cons c cs ih =>
    have hc := digit_range (h c (by simp))
    have hlt : c.toNat - '0'.toNat < 10 := by
      have h0 : '0'.toNat = 48 := rfl
      omega
    have hstep := ih (fun d hd => h d (by simp [hd])) (10 * acc + (c.toNat - '0'.toNat))
    rw [Nat.ofDigitChars_cons]
    show _ < (acc + 1) * (Nat.pow 10 cs.length * 10)
    have hle : (10 * acc + (c.toNat - '0'.toNat) + 1) * Nat.pow 10 cs.length ≤
        (acc + 1) * 10 * Nat.pow 10 cs.length :=
      Nat.mul_le_mul_right _ (by omega)
    have heq : (acc + 1) * 10 * Nat.pow 10 cs.length = (acc + 1) * (Nat.pow 10 cs.length * 10) := by
      rw [Nat.mul_assoc, Nat.mul_comm 10]
    omega

theorem isDigit_of_digitsOk {digit : Bool} {cs : List Char} (h : digitsOk digit cs = true) :
    ∀ c ∈ cs.filter (· != '_'), c.isDigit = true := by
  induction cs generalizing digit with
  | nil => simp
  | cons d cs ih =>
    rw [digitsOk] at h
    by_cases hu : d = '_'
    · rw [if_pos hu, Bool.and_eq_true] at h
      simpa [hu] using ih h.2
    · rw [if_neg hu, Bool.and_eq_true] at h
      intro c hc
      rw [List.filter_cons_of_pos (by simpa using hu)] at hc
      rcases List.mem_cons.mp hc with rfl | hc
      · exact h.1
      · exact ih h.2 c hc

theorem natOfDigits_short {cs : List Char} {n : Nat} (h : natOfDigits cs = some n) :
    (Nat.toDigits 10 n).length ≤ 4300 := by
  simp only [natOfDigits, Option.ite_none_right_eq_some, Bool.and_eq_true, decide_eq_true_eq, Option.some.injEq] at h
  obtain ⟨⟨hok, hlen⟩, rfl⟩ := h
  generalize hm : 4300 = m at hlen ⊢
  have hpos : 0 < m := by omega
  rw [Nat.length_toDigits_le_iff (by decide) hpos]
  have hlt := ofDigitChars_lt (isDigit_of_digitsOk hok) 0
  rw [Nat.zero_add, Nat.one_mul] at hlt
  exact Nat.lt_of_lt_of_le hlt (Nat.pow_le_pow_right (by decide) hlen)

theorem int_short {s : List Char} {n : Int} (h : P.int s = some n) : (Nat.toDigits 10 n.natAbs).length ≤ 4300 := by
  unfold CPython.int asciiInt at h
  split at h
  · obtain ⟨m, hm, rfl⟩ := Option.map_eq_some_iff.mp h
    rw [Int.natAbs_neg]
    exact natOfDigits_short hm
  · obtain ⟨m, hm, rfl⟩ := Option.map_eq_some_iff.mp h
    exact natOfDigits_short hm
  · obtain ⟨m, hm, rfl⟩ := Option.map_eq_some_iff.mp h
    exact natOfDigits_short hm

/-- An integer that is read can be written. -/
def Short : Value → Prop
  | .int n => (Nat.toDigits 10 n.natAbs).length ≤ 4300
  | _ => True

theorem short_decode (s : List Char) : Short (decodeValue P s) := by
  unfold decodeValue
  dsimp only
  split
  · trivial
  split
  · trivial
  split
  · split <;> trivial
  split
  · next h => exact int_short h
  · split <;> trivial

theorem mem_setItem {d : Dict} {k : String} {v : Value} {f : String × Value} (h : f ∈ setItem d k v) :
    f ∈ d ∨ f.2 = v := by
  unfold setItem at h
  split at h
  · obtain ⟨g, hg, rfl⟩ := List.mem_map.mp h
    split
    · exact Or.inr rfl
    · exact Or.inl hg
  · rcases List.mem_append.mp h with h | h
    · exact Or.inl h
    · rw [List.mem_singleton.mp h]
      exact Or.inr rfl

theorem short_parse (text : String) : ∀ f ∈ parse P text, Short f.2 := by
  suffices h : ∀ (lines : List (List Char)) (out : Dict), (∀ f ∈ out, Short f.2) →
      ∀ f ∈ lines.foldl (parseLine P) out, Short f.2 from h _ [] (by simp)
  intro lines
  induction lines with
  | nil => exact fun out h => h
  | cons line lines ih =>
    intro out h
    refine ih _ ?_
    unfold parseLine
    dsimp only
    split
    · exact h
    · split
      · exact h
      · intro f hf
        rcases mem_setItem hf with hf | hf
        · exact h f hf
        · rw [hf]
          exact short_decode _

/-! ## The text of an input -/

theorem mem_of_mem_strip {cs : List Char} {c : Char} (h : c ∈ strip cs) : c ∈ cs := by
  have h := List.mem_reverse.mp h
  have h := (List.dropWhile_sublist _).mem h
  exact (List.dropWhile_sublist _).mem (List.mem_reverse.mp h)

theorem hexChar_visible (d : Nat) : 33 ≤ (hexChar d).toNat ∧ (hexChar d).toNat ≤ 126 := by
  have hall : ∀ c ∈ "0123456789abcdef".toList, 33 ≤ c.toNat ∧ c.toNat ≤ 126 := by decide
  rw [hexChar, List.getD_eq_getElem?_getD]
  cases h : "0123456789abcdef".toList[d]? with
  | none => decide
  | some c => exact hall c (List.mem_of_getElem? h)

theorem hexDigits_visible {k n : Nat} {c : Char} (h : c ∈ hexDigits k n) : 33 ≤ c.toNat ∧ c.toNat ≤ 126 := by
  induction k with
  | zero => cases h
  | succ k ih =>
    rcases List.mem_cons.mp h with rfl | h
    · exact hexChar_visible _
    · exact ih h

/-- What `repr` writes of a character ends no line. -/
theorem reprChar_breaks (quote : Char) (hq : isBreak quote = false) (c : Char) :
    ∀ d ∈ P.reprChar quote c, isBreak d = false := by
  have hhex {k n : Nat} {m : Char} (hm : isBreak m = false) :
      ∀ d ∈ '\\' :: m :: hexDigits k n, isBreak d = false := by
    intro d hd
    rcases List.mem_cons.mp hd with rfl | hd
    · decide
    · rcases List.mem_cons.mp hd with rfl | hd
      · exact hm
      · have := hexDigits_visible hd
        exact isBreak_visible (by omega)
  unfold CPython.reprChar
  split
  · rename_i h
    intro d hd
    rcases List.mem_cons.mp hd with rfl | hd
    · decide
    · rw [List.mem_singleton.mp hd]
      simp only [Bool.or_eq_true, decide_eq_true_eq] at h
      rcases h with rfl | rfl
      · exact hq
      · decide
  split
  · decide
  split
  · decide
  split
  · decide
  split
  · rename_i h
    intro d hd
    rw [List.mem_singleton.mp hd]
    unfold CPython.isPrintable at h
    split at h
    · exact isBreak_visible (by simpa using h)
    · rw [Bool.eq_false_iff]
      intro hb
      rw [isSpace_of_isBreak hb] at h
      cases h
  split
  · exact hhex (by decide)
  split
  · exact hhex (by decide)
  · exact hhex (by decide)

theorem repr_breaks (s : String) : ∀ c ∈ (P.repr s).toList, isBreak c = false := by
  have hq : ∀ b : Bool, isBreak (if b then '"' else Char.ofNat 39) = false := by decide
  unfold CPython.repr
  intro c hc
  rw [String.toList_ofList] at hc
  rcases List.mem_append.mp hc with hc | hc
  · rcases List.mem_cons.mp hc with rfl | hc
    · exact hq _
    · obtain ⟨d, -, hc⟩ := List.mem_flatMap.mp hc
      exact reprChar_breaks _ (hq _) d c hc
  · rw [List.mem_singleton.mp hc]
    exact hq _

theorem intercalate_breaks {xs : List String} (h : ∀ x ∈ xs, ∀ c ∈ x.toList, isBreak c = false) :
    ∀ c ∈ (String.intercalate ", " xs).toList, isBreak c = false := by
  induction xs with
  | nil => simp
  | cons x xs ih =>
    have hx := h x (by simp)
    have hxs := ih fun y hy => h y (by simp [hy])
    cases xs with
    | nil => simpa using hx
    | cons y ys =>
      intro c hc
      rw [String.intercalate_cons_cons, String.toList_append, String.toList_append] at hc
      simp only [List.mem_append] at hc
      rcases hc with (hc | hc) | hc
      · exact hx c hc
      · revert c
        decide
      · exact hxs c hc

/-- The text of a supported value is of one line. -/
theorem str_breaks {v : Value} (h : v.Supported) : ∀ c ∈ (P.str v).toList, isBreak c = false := by
  cases v with
  | str s => exact h
  | bool b =>
    show ∀ c ∈ (if b then "True" else "False").toList, isBreak c = false
    cases b <;> decide
  | int n =>
    intro c hc
    have := int_visible hc
    exact isBreak_visible (by omega)
  | float literal => exact h.elim
  | list items =>
    intro c hc
    simp only [CPython.str, String.toList_append, List.mem_append] at hc
    rcases hc with (hc | hc) | hc
    · revert c
      decide
    · refine intercalate_breaks (fun x hx => ?_) c hc
      obtain ⟨s, -, rfl⟩ := List.mem_map.mp hx
      exact repr_breaks s
    · revert c
      decide

/-! ## What comes back of a value -/

theorem isDigit_digit {c : Char} (h : c.isDigit = true) : P.isDigit c = true := by
  have := digit_range h
  rw [CPython.isDigit, if_pos (by omega), h]

theorem lowerIn_int (n : Int) : lowerIn (toString n).toList = none := by
  have hlow {c : Char} (h : c = '-' ∨ c.isDigit = true) : c.toLower = c := by
    rcases h with rfl | h
    · rfl
    · have hd := digit_range h
      refine dif_neg fun hu => ?_
      have hA : 65 ≤ c.toNat := UInt32.le_iff_toNat_le.mp hu.1
      omega
  have hmap : (toString n).toList.map Char.toLower = (toString n).toList := by
    conv => rhs; rw [← List.map_id (toString n).toList]
    exact List.map_congr_left fun c hc => hlow (int_range hc)
  have hne (w : List Char) (hw : ∀ c ∈ w, ¬ (c = '-' ∨ c.isDigit = true)) (hnil : w ≠ []) :
      (toString n).toList ≠ w := by
    intro he
    obtain ⟨c, hc⟩ := List.exists_mem_of_ne_nil w hnil
    exact hw c hc (int_range (he ▸ hc))
  rw [lowerIn, hmap, if_neg (hne _ (by decide) (by decide)), if_neg (hne _ (by decide) (by decide))]

theorem strip_int (n : Int) : strip (toString n).toList = (toString n).toList :=
  strip_eq (fun _ hc => isSpace_visible (int_visible (List.mem_of_mem_head? hc)))
    fun _ hc => isSpace_visible (int_visible (List.mem_of_mem_getLast? hc))

theorem coerce_int {n : Int} (h : (Nat.toDigits 10 n.natAbs).length ≤ 4300) :
    coerce P (toString n).toList = .ok (if 0 ≤ n then .int n else .str (toString n)) := by
  rw [coerce, lowerIn_int]
  dsimp only
  by_cases hn : 0 ≤ n
  · have hall : (toString n).toList.all P.isDigit = true := by
      rw [List.all_eq_true]
      intro c hc
      rw [toList_int, if_pos hn] at hc
      exact isDigit_digit (isDigit_toDigits hc)
    rw [hall, if_pos rfl, int_toString h, if_pos hn]
  · have hany : (toString n).toList.all P.isDigit = false := by
      rw [toList_int, if_neg hn]
      rfl
    rw [hany, if_neg (by decide), if_neg hn, String.ofList_toList]

/-- The guess of a type has no lists and no floats. -/
theorem coerce_plain {v : List Char} {x : Value} (h : coerce P v = .ok x) :
    (∃ b, lowerIn v = some b ∧ x = .bool b) ∨
    (lowerIn v = none ∧ v.all P.isDigit = true ∧ ∃ n, P.int v = some n ∧ x = .int n) ∨
    (lowerIn v = none ∧ v.all P.isDigit = false ∧ x = .str (String.ofList v)) := by
  unfold coerce at h
  cases hl : lowerIn v with
  | some b =>
    rw [hl] at h
    exact Or.inl ⟨b, rfl, (Except.ok.inj h).symm⟩
  | none =>
    rw [hl] at h
    cases hd : v.all P.isDigit with
    | true =>
      simp only [hd, if_true] at h
      cases hn : P.int v with
      | none => rw [hn] at h; cases h
      | some n =>
        rw [hn] at h
        exact Or.inr (Or.inl ⟨rfl, rfl, n, rfl, (Except.ok.inj h).symm⟩)
    | false =>
      simp only [hd] at h
      exact Or.inr (Or.inr ⟨rfl, rfl, (Except.ok.inj h).symm⟩)

/-- The form makes `x` of an input that is not blank. -/
structure Comes (P : CPython) (text : String) (x : Value) : Prop where
  notBlank : strip text.toList ≠ []
  coerced : coerce P (strip text.toList) = .ok x

theorem comes_bool (b : Bool) : Comes P (P.str (.bool b)) (.bool b) := by
  have hstrip : strip (P.str (.bool b)).toList = (P.str (.bool b)).toList := by
    show strip (if b then "True" else "False").toList = (if b then "True" else "False").toList
    cases b <;> decide
  have hlow : lowerIn (P.str (.bool b)).toList = some b := by
    show lowerIn (if b then "True" else "False").toList = some b
    cases b <;> decide
  constructor
  · rw [hstrip]
    show (if b then "True" else "False").toList ≠ []
    cases b <;> decide
  · rw [hstrip, coerce, hlow]

/-- The minus sign is no digit. -/
theorem comes_int {n : Int} (hs : Short (.int n)) : Comes P (toString n) (.int n) ↔ 0 ≤ n := by
  constructor
  · intro h
    have hc := h.coerced
    rw [strip_int, coerce_int hs] at hc
    by_cases hn : 0 ≤ n
    · exact hn
    · rw [if_neg hn] at hc
      cases hc
  · intro hn
    constructor
    · rw [strip_int, toList_int, if_pos hn]
      exact Nat.toDigits_ne_nil
    · rw [strip_int, coerce_int hs, if_pos hn]

/-- A text that is stripped already and reads as nothing else. -/
theorem comes_str (s : String) : Comes P s (.str s) ↔ Stable P (.str s) := by
  constructor
  · intro h
    rcases coerce_plain h.coerced with ⟨b, -, hx⟩ | ⟨-, -, n, -, hx⟩ | ⟨hl, hd, hx⟩
    · cases hx
    · cases hx
    · have he : strip s.toList = s.toList := by
        have := congrArg String.toList (Value.str.inj hx)
        rw [String.toList_ofList] at this
        exact this.symm
      have hnb : strip s.toList ≠ [] := h.notBlank
      have hl : lowerIn (strip s.toList) = none := hl
      have hd : (strip s.toList).all P.isDigit = false := hd
      rw [he] at hnb hl hd
      exact ⟨hnb, he, hl, hd⟩
  · intro h
    obtain ⟨hne, hstrip, hl, hd⟩ := h
    constructor
    · show strip s.toList ≠ []
      rwa [hstrip]
    · show coerce P (strip s.toList) = _
      rw [hstrip, coerce, hl, hd, String.ofList_toList]
      rfl

/-- A value comes back as itself if and only if it is stable. -/
theorem comes_iff {v : Value} (hs : Short v) : Comes P (P.str v) v ↔ Stable P v := by
  cases v with
  | bool b => exact iff_of_true (comes_bool b) trivial
  | int n => exact comes_int hs
  | str s => exact comes_str s
  | float literal =>
    refine iff_of_false (fun h => ?_) id
    rcases coerce_plain h.coerced with ⟨b, -, hx⟩ | ⟨-, -, n, -, hx⟩ | ⟨-, -, hx⟩ <;> cases hx
  | list items =>
    refine iff_of_false (fun h => ?_) id
    rcases coerce_plain h.coerced with ⟨b, -, hx⟩ | ⟨-, -, n, -, hx⟩ | ⟨-, -, hx⟩ <;> cases hx

/-! ## What is saved -/

/-- What the loop over the fields collects. -/
structure Collected (P : CPython) (inputs : List (Field × String)) (values : Dict) (missing : List String) :
    Prop where
  from_input : ∀ g ∈ values, ∃ i ∈ inputs, i.1.name = g.1 ∧ Comes P i.2 g.2
  of_input : ∀ i ∈ inputs, ∀ x, Comes P i.2 x → (i.1.name, x) ∈ values
  names : (values.map (·.1)).Sublist (inputs.map (·.1.name))
  missing : missing = [] ↔ ∀ i ∈ inputs, i.1.required = true → strip i.2.toList ≠ []

theorem collected {inputs : List (Field × String)} {values : Dict} {missing : List String}
    (h : collect P inputs = .ok (values, missing)) : Collected P inputs values missing := by
  induction inputs generalizing values missing with
  | nil =>
    cases h
    exact ⟨by simp, by simp, List.Sublist.refl _, by simp⟩
  | cons i inputs ih =>
    obtain ⟨f, value⟩ := i
    rw [collect] at h
    dsimp only at h
    cases hc : collect P inputs with
    | error e =>
      rw [hc] at h
      split at h
      · cases h
      · cases hx : coerce P (strip value.toList) <;> rw [hx] at h <;> cases h
    | ok r =>
      obtain ⟨values', missing'⟩ := r
      have hr := ih hc
      rw [hc] at h
      split at h
      · rename_i hblank
        obtain ⟨rfl, rfl⟩ : values' = values ∧
          (if f.required = true then f.name :: missing' else missing') = missing := by
          simpa [bind, Except.bind, pure, Except.pure] using h
        refine ⟨fun g hg => ?_, fun i hi x hx => ?_, hr.names.cons _, ?_⟩
        · obtain ⟨i, hi, hi'⟩ := hr.from_input g hg
          exact ⟨i, List.mem_cons_of_mem _ hi, hi'⟩
        · rcases List.mem_cons.mp hi with rfl | hi
          · exact absurd hblank hx.notBlank
          · exact hr.of_input i hi x hx
        · cases hreq : f.required with
          | true => simp [hreq, hblank]
          | false => simp [hreq, hr.missing]
      · rename_i hnb
        cases hx : coerce P (strip value.toList) with
        | error e =>
          rw [hx] at h
          cases h
        | ok x =>
          rw [hx] at h
          obtain ⟨rfl, rfl⟩ : (f.name, x) :: values' = values ∧ missing' = missing := by
            simpa [bind, Except.bind, pure, Except.pure] using h
          refine ⟨fun g hg => ?_, fun i hi y hy => ?_, hr.names.cons_cons _, ?_⟩
          · rcases List.mem_cons.mp hg with rfl | hg
            · exact ⟨(f, value), List.mem_cons_self, rfl, hnb, hx⟩
            · obtain ⟨i, hi, hi'⟩ := hr.from_input g hg
              exact ⟨i, List.mem_cons_of_mem _ hi, hi'⟩
          · rcases List.mem_cons.mp hi with rfl | hi
            · have : x = y := Except.ok.inj (hx.symm.trans hy.coerced)
              rw [this]
              exact List.mem_cons_self
            · exact List.mem_cons_of_mem _ (hr.of_input i hi y hy)
          · rw [hr.missing]
            simp [hnb]

/-- Nothing raises where each input is blank or read. -/
theorem collect_ok {inputs : List (Field × String)} (h : ∀ i ∈ inputs, strip i.2.toList = [] ∨ ∃ x, Comes P i.2 x) :
    ∃ r, collect P inputs = .ok r := by
  induction inputs with
  | nil => exact ⟨_, rfl⟩
  | cons i inputs ih =>
    obtain ⟨f, value⟩ := i
    obtain ⟨⟨values, missing⟩, hr⟩ := ih fun j hj => h j (by simp [hj])
    rw [collect]
    dsimp only
    rcases h (f, value) (by simp) with hb | ⟨x, hx⟩
    · rw [if_pos hb, hr]
      exact ⟨_, rfl⟩
    · rw [if_neg hx.notBlank, hx.coerced, hr]
      exact ⟨_, rfl⟩

theorem comes_clean {text : String} (ht : ∀ c ∈ text.toList, isBreak c = false) {x : Value}
    (h : Comes P text x) : Clean x := by
  rcases coerce_plain h.coerced with ⟨b, -, rfl⟩ | ⟨-, -, n, hn, rfl⟩ | ⟨-, -, rfl⟩
  · trivial
  · exact int_short hn
  · intro c hc
    rw [String.toList_ofList] at hc
    exact ht c (mem_of_mem_strip hc)

theorem lookup_iff {d : Dict} (hn : (d.map (·.1)).Nodup) {k : String} {v : Value} :
    d.lookup k = some v ↔ (k, v) ∈ d := by
  induction d with
  | nil => simp
  | cons f d ih =>
    obtain ⟨k', v'⟩ := f
    have hn' := List.nodup_cons.mp hn
    rw [List.lookup_cons, List.mem_cons, Prod.mk.injEq]
    by_cases hk : k = k'
    · have hnot : (k, v) ∉ d := fun hm => hn'.1 (List.mem_map.mpr ⟨_, hm, hk⟩)
      simp [hk, hk ▸ hnot, eq_comm]
    · rw [beq_false_of_ne hk]
      simp [hk, ih hn'.2]

theorem region_name : IsName "aws_region" := ⟨by decide, by decide⟩

/-- The variables of the file that is written: what was collected, and the region. -/
theorem lookup_written {inputs : List (Field × String)} {values : Dict} {missing : List String}
    (hc : Collected P inputs values missing)
    (hbreaks : ∀ i ∈ inputs, ∀ c ∈ i.2.toList, isBreak c = false)
    (hnames : ∀ i ∈ inputs, IsName i.1.name ∧ i.1.name ≠ "aws_region")
    (hnodup : (inputs.map (·.1.name)).Nodup) (region : Region) {k : String} {v : Value} (hk : k ≠ "aws_region") :
    (parse P (render P (setItem values "aws_region" (.str region.text)))).lookup k = some v ↔ (k, v) ∈ values := by
  have hkeys : ∀ g ∈ values, IsName g.1 ∧ g.1 ≠ "aws_region" := by
    intro g hg
    obtain ⟨i, hi, hi', -⟩ := hc.from_input g hg
    exact hi' ▸ hnames i hi
  have hnew : "aws_region" ∉ values.map (·.1) := by
    intro hm
    obtain ⟨g, hg, he⟩ := List.mem_map.mp hm
    exact (hkeys g hg).2 he
  have hclean : ∀ g ∈ values ++ [("aws_region", .str region.text)], IsName g.1 ∧ Clean g.2 := by
    intro g hg
    rcases List.mem_append.mp hg with hg | hg
    · obtain ⟨i, hi, -, hx⟩ := hc.from_input g hg
      exact ⟨(hkeys g hg).1, comes_clean (hbreaks i hi) hx⟩
    · rw [List.mem_singleton.mp hg]
      exact ⟨region_name, region.oneLine⟩
  have hn : ((values ++ [("aws_region", Value.str region.text)]).map (·.1)).Nodup := by
    rw [List.map_append, List.nodup_append]
    refine ⟨hc.names.nodup hnodup, by simp, fun a ha b hb hab => ?_⟩
    rw [show b = "aws_region" by simpa using hb] at hab
    exact hnew (hab ▸ ha)
  have hperm := sortedItems_perm (values ++ [("aws_region", .str region.text)])
  rw [setItem_new hnew, parse_render hclean hn, lookup_iff ((hperm.map _).nodup_iff.mpr hn), hperm.mem_iff]
  simp [hk]

/-! ## Opening and saving -/

theorem fields_names : ∀ f ∈ fields, IsName f.name ∧ f.name ≠ "aws_region" := by
  have hall : ∀ f ∈ fields, ((∀ c ∈ f.name.toList, isNameChar c = true) ∧
      f.name.toList.head?.any isNameStart = true) ∧
      f.name ≠ "aws_region" := by decide
  exact fun f hf => ⟨⟨(hall f hf).1.1, (hall f hf).1.2⟩, (hall f hf).2⟩

theorem fields_nodup : (fields.map (·.name)).Nodup := by decide

/-- A default of a field is left out as blank, or read as a value. -/
theorem default_comes {f : Field} (hf : f ∈ fields) : strip f.default.toList = [] ∨ ∃ x, Comes P f.default x := by
  have hstr (s : String) (hs : Stable P (.str s)) : ∃ x, Comes P s x :=
    ⟨.str s, (comes_iff (v := .str s) trivial).mpr hs⟩
  simp only [fields, List.mem_cons, List.not_mem_nil, or_false] at hf
  rcases hf with rfl | rfl | rfl | rfl | rfl | rfl | rfl | rfl | rfl | rfl
  · exact Or.inr (hstr _ ⟨by decide, by decide, by decide, rfl⟩)
  · exact Or.inl (by decide)
  · exact Or.inl (by decide)
  · exact Or.inl (by decide)
  · exact Or.inl (by decide)
  · exact Or.inr (hstr _ ⟨by decide, by decide, by decide, rfl⟩)
  · exact Or.inr (hstr _ ⟨by decide, by decide, by decide, rfl⟩)
  · exact Or.inr ⟨.bool false, by decide, rfl⟩
  · exact Or.inr (hstr _ ⟨by decide, by decide, by decide, rfl⟩)
  · have hshort : (Nat.toDigits 10 8).length ≤ 4300 := by decide
    have h8 : (0 : Int) ≤ 8 := by decide
    exact Or.inr ⟨.int 8, (comes_iff (v := .int 8) hshort).mpr h8⟩

theorem default_breaks : ∀ f ∈ fields, ∀ c ∈ f.default.toList, isBreak c = false := by decide

theorem lookup_mem {d : Dict} {k : String} {v : Value} (h : d.lookup k = some v) : (k, v) ∈ d := by
  induction d with
  | nil => cases h
  | cons f d ih =>
    rw [List.lookup_cons] at h
    by_cases hk : k = f.1
    · rw [hk, beq_self_eq_true] at h
      rw [hk, ← Option.some.inj h]
      exact List.mem_cons_self
    · rw [beq_false_of_ne hk] at h
      exact List.mem_cons_of_mem _ (ih h)

theorem loadExisting_present {text : String} (h : Present (parse P text)) (example_ : Option String) :
    loadExisting P (some text) example_ = parse P text := by
  have hne : parse P text ≠ [] := by
    intro hnil
    have := h ⟨"domain", "", true⟩ (by decide) rfl
    rw [hnil] at this
    cases this
  exact if_neg hne

/-- The input of a field holds the variable's value, or the default. -/
theorem mem_compose {d : Dict} {i : Field × String} (h : i ∈ compose P d) :
    i.1 ∈ fields ∧ i.2 = P.str ((d.lookup i.1.name).getD (.str i.1.default)) := by
  obtain ⟨f, hf, rfl⟩ := List.mem_map.mp h
  exact ⟨hf, rfl⟩

theorem compose_breaks {d : Dict} (hd : Supported d) : ∀ i ∈ compose P d, ∀ c ∈ i.2.toList, isBreak c = false := by
  intro i hi
  obtain ⟨hf, ht⟩ := mem_compose hi
  rw [ht]
  cases hl : d.lookup i.1.name with
  | none => exact default_breaks i.1 hf
  | some v => exact str_breaks (hd _ (lookup_mem hl))

theorem compose_fields {d : Dict} : ∀ i ∈ compose P d, IsName i.1.name ∧ i.1.name ≠ "aws_region" :=
  fun i hi => fields_names i.1 (mem_compose hi).1

theorem compose_nodup {d : Dict} : ((compose P d).map (·.1.name)).Nodup := by
  rw [compose, List.map_map]
  exact fields_nodup

/-- The file is written over by one that agrees with it. -/
def Kept (P : CPython) (region : Region) (text : String) (example_ : Option String) : Prop :=
  ∃ text', openAndSave P region (some text) example_ = .written text' ∧ Agrees (parse P text) (parse P text')

theorem stable_of_kept {region : Region} {text : String} {example_ : Option String} (hd : Supported (parse P text))
    (hp : Present (parse P text)) (h : Kept P region text example_) {k : String} {v : Value}
    (hl : (parse P text).lookup k = some v) (hk : k ≠ "aws_region") : k ∈ fields.map (·.name) ∧ Stable P v := by
  obtain ⟨text', hsaved, hagrees⟩ := h
  rw [openAndSave, loadExisting_present hp, save] at hsaved
  cases hc : collect P (compose P (parse P text)) with
  | error e => rw [hc] at hsaved; cases hsaved
  | ok r =>
    obtain ⟨values, missing⟩ := r
    rw [hc] at hsaved
    dsimp only at hsaved
    split at hsaved
    · cases hsaved
    · obtain rfl : render P (setItem values "aws_region" (.str region.text)) = text' := by simpa using hsaved
      have hcol := collected hc
      have hmem :=
        (lookup_written hcol (compose_breaks hd) compose_fields compose_nodup region hk).mp (hagrees k v hl hk)
      obtain ⟨i, hi, rfl, hx⟩ := hcol.from_input _ hmem
      obtain ⟨hf, ht⟩ := mem_compose hi
      have hl : (parse P text).lookup i.1.name = some v := hl
      rw [ht, hl] at hx
      exact ⟨List.mem_map_of_mem hf, (comes_iff (short_parse text _ (lookup_mem hl))).mp hx⟩

theorem kept_of_stable (region : Region) {text : String} (example_ : Option String) (hd : Supported (parse P text))
    (hp : Present (parse P text))
    (h : ∀ k v, (parse P text).lookup k = some v → k ≠ "aws_region" → k ∈ fields.map (·.name) ∧ Stable P v) :
    Kept P region text example_ := by
  have hcomes {i : Field × String} (hi : i ∈ compose P (parse P text)) {v : Value}
      (hl : (parse P text).lookup i.1.name = some v) : Comes P i.2 v := by
    obtain ⟨hf, ht⟩ := mem_compose hi
    rw [ht, hl]
    exact (comes_iff (short_parse text _ (lookup_mem hl))).mpr (h _ v hl (fields_names _ hf).2).2
  obtain ⟨⟨values, missing⟩, hc⟩ := @collect_ok P (compose P (parse P text)) fun i hi => by
    obtain ⟨hf, ht⟩ := mem_compose hi
    cases hl : (parse P text).lookup i.1.name with
    | none =>
      rw [ht, hl]
      exact default_comes hf
    | some v => exact Or.inr ⟨v, hcomes hi hl⟩
  have hcol := collected hc
  have hmissing : missing = [] := hcol.missing.mpr fun i hi hreq => by
    obtain ⟨v, hl⟩ := Option.isSome_iff_exists.mp (hp i.1 (mem_compose hi).1 hreq)
    exact (hcomes hi hl).notBlank
  refine ⟨render P (setItem values "aws_region" (.str region.text)), ?_, fun k v hl hk => ?_⟩
  · rw [openAndSave, loadExisting_present hp, save, hc]
    exact if_neg (by simp [hmissing])
  · rw [lookup_written hcol (compose_breaks hd) compose_fields compose_nodup region hk]
    obtain ⟨f, hf, rfl⟩ := List.mem_map.mp (h k v hl hk).1
    have hi : (f, P.str (((parse P text).lookup f.name).getD (.str f.default))) ∈ compose P (parse P text) :=
      List.mem_map_of_mem hf
    exact hcol.of_input _ hi v (hcomes hi hl)

/-- An unedited save writes a file that agrees with the one that was opened if and only if
    every variable of that, but the region, is a field with a stable value. -/
theorem kept_iff_stable (P : CPython) (region : Region) (text : String) (example_ : Option String)
    (hd : Supported (parse P text)) (hp : Present (parse P text)) :
    Kept P region text example_ ↔
      ∀ k v, (parse P text).lookup k = some v → k ≠ "aws_region" → k ∈ fields.map (·.name) ∧ Stable P v :=
  ⟨fun h _ _ hl hk => stable_of_kept hd hp h hl hk, kept_of_stable region example_ hd hp⟩

/-! ### A file that is kept, and one that is not -/

def usEast1 : Region := ⟨"us-east-1", by decide⟩

def plainFile : String := "domain = \"c.example.com\"\nroute53_zone_id = \"Z1\"\nworker_max_count = 4\n"

theorem parse_plainFile : parse asciiOnly plainFile =
    [("domain", .str "c.example.com"), ("route53_zone_id", .str "Z1"), ("worker_max_count", .int 4)] := by decide

theorem plainFile_supported : Supported (parse asciiOnly plainFile) ∧ Present (parse asciiOnly plainFile) := by
  rw [parse_plainFile]
  decide

theorem kept_iff_stable_plainFile : Kept asciiOnly usEast1 plainFile none := by
  refine (kept_iff_stable asciiOnly usEast1 plainFile none plainFile_supported.1 plainFile_supported.2).mpr
    fun k v hl _ => ?_
  have hm := lookup_mem hl
  rw [parse_plainFile] at hm
  simp only [List.mem_cons, List.not_mem_nil, or_false, Prod.mk.injEq] at hm
  rcases hm with ⟨rfl, rfl⟩ | ⟨rfl, rfl⟩ | ⟨rfl, rfl⟩
  · exact ⟨by decide, by decide, by decide, by decide, by decide⟩
  · exact ⟨by decide, by decide, by decide, by decide, by decide⟩
  · exact ⟨by decide, show (0 : Int) ≤ 4 by decide⟩

/-- With a variable that the form does not know. -/
def protectedFile : String := "domain = \"c.example.com\"\nroute53_zone_id = \"Z1\"\nrds_deletion_protection = true\n"

theorem parse_protectedFile : parse asciiOnly protectedFile =
    [("domain", .str "c.example.com"), ("route53_zone_id", .str "Z1"), ("rds_deletion_protection", .bool true)] := by
      decide

/-- The save drops it. -/
theorem variable_dropped : ¬ Kept asciiOnly usEast1 protectedFile none := by
  intro h
  have hd : Supported (parse asciiOnly protectedFile) ∧ Present (parse asciiOnly protectedFile) := by
    rw [parse_protectedFile]
    decide
  have hl : (parse asciiOnly protectedFile).lookup "rds_deletion_protection" = some (.bool true) := by
    rw [parse_protectedFile]
    rfl
  exact absurd (stable_of_kept hd.1 hd.2 h hl (by decide)).1 (by decide)

end Connect.Tfvars
