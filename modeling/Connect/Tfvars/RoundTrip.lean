/-
  Connect.Tfvars.RoundTrip — what comes back of a dictionary that was written
  (connect_bootstrap/tfvars.py).

  Nothing is escaped. Between brackets the reader cuts at every comma, takes the quotes off
  both ends of a piece, and never makes a number of it: of a list only strings come back,
  without a comma and without a quote at an end (`list_kept`). A number of more than 4300
  digits is not written at all. A dictionary comes back exactly when none of its values is
  one of these (`round_trip_iff`).
-/

import Mathlib.Data.List.Nodup
import Connect.Tfvars.Format

namespace Connect.Tfvars

/-! ## Writing -/

inductive Item where
  | str (s : String)
  | int (n : Int)
  deriving DecidableEq, Repr

/-- A value that `write` is given. -/
inductive PyValue where
  | str (s : String)
  | bool (b : Bool)
  | int (n : Int)
  | float (literal : String)
  | list (items : List Item)
  deriving DecidableEq, Repr

/-- A value that was read. -/
def Value.given : Value → PyValue
  | .str s => .str s
  | .bool b => .bool b
  | .int n => .int n
  | .float literal => .float literal
  | .list items => .list (items.map .str)

def digitsOf (n : Int) : List Char := Nat.toDigits 10 n.natAbs

/-- `str(n)`. -/
def strInt (n : Int) : Except String String :=
  if (digitsOf n).length ≤ 4300 then .ok (toString n)
  else .error ("Exceeds the limit (4300 digits) for integer string conversion; " ++
    "use sys.set_int_max_str_digits() to increase the limit")

/-- `f'"{v}"'`. -/
def quoted (s : String) : String := "\"" ++ s ++ "\""

def Item.encode : Item → Except String String
  | .str s => .ok (quoted s)
  | .int n => strInt n

/-- `_encode_value`. -/
def PyValue.encode (P : CPython) : PyValue → Except String String
  | .bool b => .ok (if b then "true" else "false")
  | .int n => strInt n
  | .float literal => .ok (P.floatStr literal)
  | .list items => do return "[" ++ String.intercalate ", " (← items.mapM Item.encode) ++ "]"
  | .str s => .ok (quoted s)

abbrev Given := List (String × PyValue)

/-- `sorted(values)`, with the values. -/
def sortedGiven (values : Given) : Given := values.mergeSort fun f g => decide (f.1 ≤ g.1)

/-- One line of `render`. -/
def renderLine (P : CPython) (f : String × PyValue) : Except String String := do
  return assign f.1 (← f.2.encode P)

/-- `write`: the text of the file. -/
def write (P : CPython) (values : Given) : Except String String := do
  let lines ← (sortedGiven values).mapM (renderLine P)
  return String.intercalate "\n" lines ++ "\n"

/-- `parse` of a text, as what `write` may be given. -/
def reread (P : CPython) (text : String) : Given := (parse P text).map fun f => (f.1, f.2.given)

/-! ## Dictionaries -/

def Item.OneLine : Item → Prop
  | .str s => ∀ c ∈ s.toList, isBreak c = false
  | .int _ => True

/-- A boolean, an integer, a string of one line, or a list of such strings and integers. -/
def PyValue.Plain : PyValue → Prop
  | .str s => ∀ c ∈ s.toList, isBreak c = false
  | .bool _ | .int _ => True
  | .float _ => False
  | .list items => ∀ i ∈ items, i.OneLine

/-- A dictionary of plain values under identifiers. -/
structure Vars where
  items : Given
  distinct : (items.map (·.1)).Nodup
  names : ∀ f ∈ items, IsName f.1
  plain : ∀ f ∈ items, f.2.Plain

/-- It is written, read as the same dictionary, and then written as the same text. -/
def RoundTrips (P : CPython) (d : Vars) : Prop :=
  ∃ text, write P d.items = .ok text ∧ (reread P text).Perm d.items ∧ write P (reread P text) = .ok text

/-- A string that comes back from a list. -/
structure Separable (s : String) : Prop where
  comma : ',' ∉ s.toList
  first : s.toList.head? ≠ some '"'
  last : s.toList.getLast? ≠ some '"'

/-- A number of 4300 digits at most, or a list of such strings. -/
def PyValue.Kept : PyValue → Prop
  | .str _ | .bool _ => True
  | .float _ => False
  | .int n => (digitsOf n).length ≤ 4300
  | .list items => ∀ i ∈ items, ∃ s, i = .str s ∧ Separable s

/-! ## Lists -/

section Lists

variable {P : CPython}

theorem toList_quoted (s : String) : (quoted s).toList = '"' :: (s.toList ++ ['"']) := by
  simp [quoted, String.toList_append]

theorem written_quoted {s : String} (h : ∀ c ∈ s.toList, isBreak c = false) : Written (quoted s) :=
  written_between (by decide) (by decide) h (toList_quoted s)

theorem strip_quoted (s : String) : strip (quoted s).toList = (quoted s).toList := by
  have hlast : (quoted s).toList.getLast? = some '"' := by
    rw [toList_quoted, ← List.cons_append, List.getLast?_concat]
  refine strip_eq (fun c hc => ?_) fun c hc => ?_
  · rw [toList_quoted] at hc
    obtain rfl : '"' = c := by simpa using hc
    decide
  · obtain rfl : '"' = c := by simpa [hlast] using hc
    decide

/-- The quotes of an item come off. -/
theorem stripWith_quoted {s : String} (h : Separable s) : stripWith (· = '"') (quoted s).toList = s.toList := by
  have hfirst : ∀ c ∈ s.toList.head?, decide (c = '"') = false := by
    intro c hc
    simp only [decide_eq_false_iff_not]
    rintro rfl
    exact h.first hc
  have hlast : ∀ c ∈ s.toList.reverse.head?, decide (c = '"') = false := by
    intro c hc
    simp only [decide_eq_false_iff_not]
    rintro rfl
    rw [List.head?_reverse] at hc
    exact h.last hc
  rw [toList_quoted, stripWith, List.dropWhile_cons_of_pos (by decide)]
  cases hs : s.toList with
  | nil => rfl
  | cons c cs =>
    rw [hs] at hfirst hlast
    have hc : decide (c = '"') = false := hfirst c rfl
    rw [List.cons_append, List.dropWhile_cons_of_neg (by simpa using hc), ← List.cons_append,
      List.reverse_append, List.reverse_singleton,
      List.singleton_append, List.dropWhile_cons_of_pos (by decide), dropWhile_head hlast, List.reverse_reverse]

/-- The items of a list of strings, between its brackets. -/
def body : List String → List Char
  | [] => []
  | [s] => (quoted s).toList
  | s :: t :: rest => (quoted s).toList ++ ',' :: ' ' :: body (t :: rest)

theorem toList_intercalate (ss : List String) : (String.intercalate ", " (ss.map quoted)).toList = body ss := by
  match ss with
  | [] => rfl
  | [s] => rw [List.map_singleton, String.intercalate_singleton, body]
  | s :: t :: rest =>
    have ih := toList_intercalate (t :: rest)
    rw [List.map_cons] at ih
    rw [List.map_cons, List.map_cons, String.intercalate_cons_cons, String.toList_append,
      String.toList_append, ih, body, List.append_assoc]
    rfl

/-- A list that is not empty begins and ends with a quote. -/
theorem body_ends (s : String) (rest : List String) :
    (body (s :: rest)).head? = some '"' ∧ (body (s :: rest)).getLast? = some '"' := by
  induction rest generalizing s with
  | nil =>
    rw [body, toList_quoted]
    exact ⟨rfl, by rw [← List.cons_append, List.getLast?_concat]⟩
  | cons t rest ih =>
    rw [body]
    refine ⟨by rw [toList_quoted]; rfl, ?_⟩
    rw [List.getLast?_append, List.getLast?_cons, List.getLast?_cons, (ih t).2]
    rfl

theorem strip_body (ss : List String) : strip (body ss) = body ss := by
  cases ss with
  | nil => rfl
  | cons s rest =>
    obtain ⟨hfirst, hlast⟩ := body_ends s rest
    refine strip_eq (fun c hc => ?_) fun c hc => ?_
    · cases hfirst.symm.trans hc
      decide
    · cases hlast.symm.trans hc
      decide

/-- Cut at its commas, the text of a list is its items. -/
theorem pieces_body {ss : List String} (hne : ss ≠ []) (h : ∀ s ∈ ss, Separable s) :
    ((body ss).splitOn ',').map (fun p => String.ofList (stripWith (· = '"') (strip p))) = ss := by
  have hquoted : ∀ s ∈ ss, ',' ∉ (quoted s).toList := by
    intro s hs hc
    rw [toList_quoted] at hc
    simp only [List.mem_cons, List.mem_append, List.not_mem_nil, or_false, Char.reduceEq, false_or] at hc
    exact (h s hs).comma hc
  match ss with
  | [] => exact absurd rfl hne
  | [s] =>
    rw [body, List.splitOn_eq_singleton (hquoted s (by simp)), List.map_singleton, strip_quoted,
      stripWith_quoted (h s (by simp)), String.ofList_toList]
  | s :: t :: rest =>
    have ih := @pieces_body (t :: rest) (by simp) fun u hu => h u (List.mem_cons_of_mem _ hu)
    have hspace : (' ' :: body (t :: rest)).splitOn ',' =
        ((body (t :: rest)).splitOn ',').modifyHead (List.cons ' ') := by
      rw [List.splitOn_cons_eq_if_modifyHead, if_neg (by decide)]
    rw [body, List.splitOn_append_cons_self_of_not_mem (hquoted s (by simp)), List.map_cons, strip_quoted,
      stripWith_quoted (h s (by simp)), String.ofList_toList, hspace]
    refine congrArg (s :: ·) (Eq.trans ?_ ih)
    -- the space before a piece is stripped
    cases (body (t :: rest)).splitOn ',' with
    | nil => rfl
    | cons piece pieces => rfl

theorem decode_list {ss : List String} (h : ∀ s ∈ ss, Separable s) {enc : String}
    (he : enc = "[" ++ String.intercalate ", " (ss.map quoted) ++ "]") : decodeValue P enc.toList = .list ss := by
  have hl : enc.toList = '[' :: (body ss ++ [']']) := by
    rw [he, String.toList_append, String.toList_append, toList_intercalate, ← List.cons_append]
    rfl
  have hlast : ('[' :: (body ss ++ [']'])).getLast? = some ']' := by rw [← List.cons_append, List.getLast?_concat]
  have hs : strip ('[' :: (body ss ++ [']'])) = '[' :: (body ss ++ [']']) := by
    refine strip_eq (fun c hc => ?_) fun c hc => ?_
    · cases hc
      decide
    · cases hlast.symm.trans hc
      decide
  have hq : enclosed '"' '"' ('[' :: (body ss ++ [']'])) = false := by simp [enclosed]
  have ht : ¬ ('[' :: (body ss ++ [']']) = "true".toList ∨ '[' :: (body ss ++ [']']) = "false".toList) := by simp
  have hb : enclosed '[' ']' ('[' :: (body ss ++ [']'])) = true := by simp [enclosed, hlast]
  have hi : strip (inside ('[' :: (body ss ++ [']']))) = body ss := by
    rw [inside, List.drop_one, List.tail_cons, List.dropLast_concat, strip_body]
  rw [hl, decodeValue, hs, hq, if_neg (by decide), if_neg ht, if_pos hb, hi]
  cases ss with
  | nil => rfl
  | cons s rest =>
    have hne : body (s :: rest) ≠ [] := by
      intro hnil
      have hfirst := (body_ends s rest).1
      rw [hnil] at hfirst
      cases hfirst
    rw [if_neg hne, pieces_body (by simp) h]

/-- Whatever is read as a list has items without a comma, and without a quote at an end. -/
theorem decoded_separable {cs : List Char} {ss : List String} (h : decodeValue P cs = .list ss) :
    ∀ s ∈ ss, Separable s := by
  unfold decodeValue at h
  extract_lets v inner at h
  split at h
  · cases h
  split at h
  · cases h
  split at h
  · split at h
    · cases h
      exact nofun
    · cases h
      intro s hs
      obtain ⟨piece, hp, rfl⟩ := List.mem_map.mp hs
      obtain ⟨hfirst, hlast⟩ := @stripWith_ends (· = '"') (strip piece) '"' (by decide)
      refine ⟨fun hc => ?_, ?_, ?_⟩
      · rw [String.toList_ofList] at hc
        exact notMem_of_mem_splitOn hp (mem_of_mem_stripWith (mem_of_mem_stripWith hc))
      · rwa [String.toList_ofList]
      · rwa [String.toList_ofList]
  · cases hint : P.int v with
    | some n =>
      simp only [hint] at h
      cases h
    | none =>
      simp only [hint] at h
      split at h
      · cases h
      · cases h

end Lists

/-! ## Values -/

section Values

variable {P : CPython}

theorem strInt_ok {n : Int} {enc : String} (h : strInt n = .ok enc) :
    (digitsOf n).length ≤ 4300 ∧ enc = toString n := by
  unfold strInt at h
  split at h
  · rename_i hn
    cases h
    exact ⟨hn, rfl⟩
  · cases h

/-- The text of a list. -/
theorem encode_list {items : List Item} {enc : String} : (PyValue.list items).encode P = .ok enc ↔
    ∃ encs, items.map Item.encode = encs.map .ok ∧ enc = "[" ++ String.intercalate ", " encs ++ "]" := by
  have hencode : (PyValue.list items).encode P =
      (items.mapM Item.encode >>= fun encs => pure ("[" ++ String.intercalate ", " encs ++ "]")) := rfl
  rw [hencode]
  constructor
  · intro h
    cases hm : items.mapM Item.encode with
    | error e =>
      rw [hm] at h
      cases h
    | ok encs =>
      rw [hm] at h
      cases h
      exact ⟨encs, mapM_ok_iff.mp hm, rfl⟩
  · intro h
    obtain ⟨encs, hm, rfl⟩ := h
    rw [mapM_ok_iff.mpr hm]
    rfl

theorem encode_strings (ss : List String) :
    (PyValue.list (ss.map .str)).encode P = .ok ("[" ++ String.intercalate ", " (ss.map quoted) ++ "]") := by
  refine encode_list.mpr ⟨_, ?_, rfl⟩
  rw [List.map_map, List.map_map]
  rfl

/-- The strings of a list that is kept. -/
theorem kept_list {items : List Item} (h : (PyValue.list items).Kept) : ∃ ss :
    List String, items = ss.map .str ∧ ∀ s ∈ ss, Separable s := by
  induction items with
  | nil => exact ⟨[], rfl, nofun⟩
  | cons item items ih =>
    obtain ⟨hitem, hitems⟩ := List.forall_mem_cons.mp h
    obtain ⟨s, rfl, hs⟩ := hitem
    obtain ⟨ss, rfl, hss⟩ := ih hitems
    exact ⟨s :: ss, rfl, List.forall_mem_cons.mpr ⟨hs, hss⟩⟩

theorem mem_intercalate {encs : List String} {c : Char} (h : c ∈ (String.intercalate ", " encs).toList) :
    c = ',' ∨ c = ' ' ∨ ∃ enc ∈ encs, c ∈ enc.toList := by
  match encs with
  | [] => cases h
  | [enc] =>
    rw [String.intercalate_singleton] at h
    exact Or.inr (Or.inr ⟨enc, List.mem_singleton_self enc, h⟩)
  | enc :: enc' :: rest =>
    rw [String.intercalate_cons_cons, String.toList_append, String.toList_append] at h
    rcases List.mem_append.mp h with h | h
    · rcases List.mem_append.mp h with h | h
      · exact Or.inr (Or.inr ⟨enc, List.mem_cons_self, h⟩)
      · rcases List.mem_cons.mp h with h | h
        · exact Or.inl h
        · exact Or.inr (Or.inl (List.mem_singleton.mp h))
    · refine (mem_intercalate h).imp_right (Or.imp_right fun hrest => ?_)
      obtain ⟨e, he, hc⟩ := hrest
      exact ⟨e, List.mem_cons_of_mem _ he, hc⟩

/-- Every item is written in one line. -/
theorem item_breaks {item : Item} {enc : String} (hi : item.OneLine) (h : item.encode = .ok enc) :
    ∀ c ∈ enc.toList, isBreak c = false := by
  cases item with
  | str s =>
    cases h
    exact (written_quoted hi).line
  | int n =>
    obtain ⟨-, rfl⟩ := strInt_ok h
    exact (written_visible (toList_int_ne_nil n) fun c hc => int_visible hc).line

/-- A plain value is written in one line. -/
theorem written_plain {v : PyValue} {enc : String} (hv : v.Plain) (h : v.encode P = .ok enc) : Written enc := by
  cases v with
  | str s =>
    cases h
    exact written_quoted hv
  | bool b =>
    cases h
    exact written_bool b
  | int n =>
    obtain ⟨-, rfl⟩ := strInt_ok h
    exact written_visible (toList_int_ne_nil n) fun c hc => int_visible hc
  | float literal => exact hv.elim
  | list items =>
    obtain ⟨encs, hm, rfl⟩ := encode_list.mp h
    refine @written_between '[' ']' (String.intercalate ", " encs).toList (by decide) (by decide)
      (fun c hc => ?_) _ ?_
    · rcases mem_intercalate hc with rfl | rfl | ⟨enc, he, hc⟩
      · decide
      · decide
      · have hok : Except.ok enc ∈ items.map Item.encode := hm ▸ List.mem_map.mpr ⟨enc, he, rfl⟩
        obtain ⟨item, hitem, hienc⟩ := List.mem_map.mp hok
        exact item_breaks (hv item hitem) hienc c hc
    · rw [String.toList_append, String.toList_append]
      rfl

/-- A value that was written comes back exactly when it is kept. -/
theorem decode_given {v : PyValue} {enc : String} (hv : v.Plain) (h : v.encode P = .ok enc) :
    (decodeValue P enc.toList).given = v ↔ v.Kept := by
  cases v with
  | str s =>
    cases h
    exact iff_of_true (congrArg Value.given (decode_quoted s)) trivial
  | bool b =>
    cases h
    exact iff_of_true (congrArg Value.given (decode_bool b)) trivial
  | int n =>
    obtain ⟨hn, rfl⟩ := strInt_ok h
    exact iff_of_true (congrArg Value.given (decode_encode (v := .int n) hn)) hn
  | float literal => exact hv.elim
  | list items =>
    constructor
    · intro hd
      cases hdec : decodeValue P enc.toList with
      | list ss =>
        rw [hdec] at hd
        cases hd
        intro item hitem
        obtain ⟨s, hs, rfl⟩ := List.mem_map.mp hitem
        exact ⟨s, rfl, decoded_separable hdec s hs⟩
      | _ =>
        rw [hdec] at hd
        cases hd
    · intro hk
      obtain ⟨ss, rfl, hss⟩ := kept_list hk
      rw [encode_strings] at h
      rw [decode_list hss (Except.ok.inj h).symm]
      rfl

theorem encode_kept {v : PyValue} (h : v.Kept) : ∃ enc, v.encode P = .ok enc := by
  cases v with
  | str s => exact ⟨_, rfl⟩
  | bool b => exact ⟨_, rfl⟩
  | int n => exact ⟨_, if_pos h⟩
  | float literal => exact ⟨_, rfl⟩
  | list items =>
    obtain ⟨ss, rfl, -⟩ := kept_list h
    exact ⟨_, encode_strings ss⟩

end Values

/-! ## Files -/

section Files

variable {P : CPython}

/-- The text of a value that is written. -/
def PyValue.text (P : CPython) (v : PyValue) : String := ((v.encode P).toOption).getD ""

theorem encode_text {v : PyValue} {enc : String} (h : v.encode P = .ok enc) : v.text P = enc := by
  rw [PyValue.text, h]
  rfl

theorem sortedGiven_perm (values : Given) : (sortedGiven values).Perm values := List.mergeSort_perm _ _

theorem sortedGiven_sorted (values : Given) : (sortedGiven values).Pairwise fun f g => decide (f.1 ≤ g.1) = true := by
  refine List.pairwise_mergeSort (fun f g h hfg hgh => ?_) (fun f g => ?_) values
  · simp only [decide_eq_true_eq] at hfg hgh ⊢
    exact String.le_trans hfg hgh
  · simp only [Bool.or_eq_true, decide_eq_true_eq]
    exact String.le_total f.1 g.1

/-- Sorted once, the order stays. -/
theorem sortedGiven_idem (values : Given) : sortedGiven (sortedGiven values) = sortedGiven values :=
  List.mergeSort_of_pairwise (sortedGiven_sorted values)

/-- The text of a file whose values are written. -/
theorem write_texts {values : Given} (h : ∀ f ∈ values, ∃ enc, f.2.encode P = .ok enc) : write P values =
    .ok (String.intercalate "\n" ((sortedGiven values).map fun f => assign f.1 (f.2.text P)) ++ "\n") := by
  unfold write
  rw [mapM_eq_ok (g := fun f => assign f.1 (f.2.text P))]
  · rfl
  · intro f hf
    obtain ⟨enc, he⟩ := h f ((sortedGiven_perm values).mem_iff.mp hf)
    rw [renderLine, he, encode_text he]
    rfl

/-- A file is written when each of its values is. -/
theorem write_ok {values : Given} {text : String} (h : write P values = .ok text) :
    ∀ f ∈ values, ∃ enc, f.2.encode P = .ok enc := by
  intro f hf
  unfold write at h
  cases hm : (sortedGiven values).mapM (renderLine P) with
  | error e =>
    rw [hm] at h
    cases h
  | ok lines =>
    have hline : renderLine P f ∈ (sortedGiven values).map (renderLine P) :=
      List.mem_map.mpr ⟨f, (sortedGiven_perm values).mem_iff.mpr hf, rfl⟩
    rw [mapM_ok_iff.mp hm] at hline
    obtain ⟨line, -, hline⟩ := List.mem_map.mp hline
    cases he : f.2.encode P with
    | error e =>
      rw [renderLine, he] at hline
      cases hline
    | ok enc => exact ⟨enc, rfl⟩

/-- What is read of a file that was written, in the order of the names. -/
theorem reread_write {d : Vars} {text : String} (h : write P d.items = .ok text) :
    reread P text = (sortedGiven d.items).map fun f => (f.1, (decodeValue P (f.2.text P).toList).given) := by
  have hperm := sortedGiven_perm d.items
  have hlines : ((sortedGiven d.items).map fun f => (f.1, f.2.text P)).map (fun e => assign e.1 e.2) =
      (sortedGiven d.items).map fun f => assign f.1 (f.2.text P) := by
    rw [List.map_map]
    rfl
  have hok := write_ok h
  rw [write_texts hok, ← hlines] at h
  cases h
  rw [reread, parse_assigns, List.map_map, List.map_map]
  · simp only [Function.comp_def]
  · intro e he
    obtain ⟨f, hf, rfl⟩ := List.mem_map.mp he
    have hf := hperm.mem_iff.mp hf
    obtain ⟨enc, henc⟩ := hok f hf
    refine ⟨d.names f hf, ?_⟩
    show Written (f.2.text P)
    rw [encode_text henc]
    exact written_plain (d.plain f hf) henc
  · rw [List.map_map]
    exact (hperm.map _).nodup_iff.mpr d.distinct

/-- What does not come back from a list is lost. -/
theorem kept_of_roundTrips {d : Vars} (h : RoundTrips P d) : ∀ f ∈ d.items, f.2.Kept := by
  intro f hf
  obtain ⟨text, hw, hsame, -⟩ := h
  obtain ⟨enc, henc⟩ := write_ok hw f hf
  have hback : (f.1, (decodeValue P enc.toList).given) ∈ d.items := by
    rw [reread_write hw] at hsame
    rw [← encode_text henc]
    exact hsame.mem_iff.mp (List.mem_map.mpr ⟨f, (sortedGiven_perm d.items).mem_iff.mpr hf, rfl⟩)
  -- a name has one value
  have hvalue : (decodeValue P enc.toList).given = f.2 :=
    congrArg Prod.snd (List.inj_on_of_nodup_map d.distinct hback hf rfl)
  exact (decode_given (d.plain f hf) henc).mp hvalue

theorem reread_kept {d : Vars} (hk : ∀ f ∈ d.items, f.2.Kept) {text : String} (hw : write P d.items = .ok text) :
    reread P text = sortedGiven d.items := by
  rw [reread_write hw]
  conv => rhs; rw [← List.map_id (sortedGiven d.items)]
  refine List.map_congr_left fun f hf => ?_
  have hf := (sortedGiven_perm d.items).mem_iff.mp hf
  obtain ⟨enc, henc⟩ := write_ok hw f hf
  rw [encode_text henc, (decode_given (d.plain f hf) henc).mpr (hk f hf)]
  rfl

/-! ### The values that were read -/

theorem insertKey_sorted {f : String × Value} {d : Dict} (h : d.Pairwise fun a b => a.1 ≤ b.1) :
    (insertKey f d).Pairwise fun a b => a.1 ≤ b.1 := by
  induction d with
  | nil => exact List.pairwise_singleton _ _
  | cons g d ih =>
    obtain ⟨hg, hd⟩ := List.pairwise_cons.mp h
    rw [insertKey]
    split
    · rename_i hfg
      refine List.pairwise_cons.mpr ⟨fun b hb => ?_, h⟩
      rcases List.mem_cons.mp hb with rfl | hb
      · exact hfg
      · exact String.le_trans hfg (hg b hb)
    · rename_i hfg
      refine List.pairwise_cons.mpr ⟨fun b hb => ?_, ih hd⟩
      rcases List.mem_cons.mp ((insertKey_perm f d).mem_iff.mp hb) with rfl | hb
      · exact (String.le_total b.1 g.1).resolve_left hfg
      · exact hg b hb

theorem sortedItems_sorted (d : Dict) : (sortedItems d).Pairwise fun a b => a.1 ≤ b.1 := by
  induction d with
  | nil => exact List.Pairwise.nil
  | cons f d ih => exact insertKey_sorted ih

/-- Both ways of sorting put the names in the one order they have. -/
theorem sortedGiven_given {d : Dict} (hn : (d.map (·.1)).Nodup) :
    sortedGiven (d.map fun f => (f.1, f.2.given)) = (sortedItems d).map fun f => (f.1, f.2.given) := by
  have hperm := sortedGiven_perm (d.map fun f => (f.1, f.2.given))
  have hnames : ((d.map fun f => (f.1, f.2.given)).map (·.1)).Nodup := by
    rw [List.map_map]
    exact hn
  refine List.Perm.eq_of_pairwise (fun a b ha hb hab hba => ?_) (sortedGiven_sorted _) ?_
    (hperm.trans ((sortedItems_perm d).symm.map _))
  · have ha := hperm.mem_iff.mp ha
    have hb := ((sortedItems_perm d).map _).mem_iff.mp hb
    exact List.inj_on_of_nodup_map hnames ha hb (String.le_antisymm (of_decide_eq_true hab) (of_decide_eq_true hba))
  · refine List.pairwise_map.mpr ((sortedItems_sorted d).imp fun h => ?_)
    exact decide_eq_true h

theorem encode_given {v : Value} (h : ∀ n, v = .int n → (digitsOf n).length ≤ 4300) :
    v.given.encode P = .ok (encodeValue P v) := by
  cases v with
  | str s => rfl
  | bool b => rfl
  | int n => exact if_pos (h n rfl)
  | float literal => rfl
  | list items => exact encode_strings items

/-- Where no number is too long, the text is the one of `render`. -/
theorem write_given {d : Dict} (hn : (d.map (·.1)).Nodup)
    (hd : ∀ f ∈ d, ∀ n, f.2 = .int n → (digitsOf n).length ≤ 4300) :
    write P (d.map fun f => (f.1, f.2.given)) = .ok (render P d) := by
  unfold write
  rw [sortedGiven_given hn]
  have hlines : ((sortedItems d).map fun f => (f.1, f.2.given)).mapM (renderLine P) =
      .ok ((sortedItems d).map (lineOf P)) := by
    rw [mapM_ok_iff, List.map_map, List.map_map]
    refine List.map_congr_left fun f hf => ?_
    have he := encode_given (P := P) (hd f ((sortedItems_perm d).mem_iff.mp hf))
    show renderLine P (f.1, f.2.given) = .ok (lineOf P f)
    rw [renderLine, he]
    rfl
  rw [hlines]
  rfl

end Files

/-- A dictionary comes back exactly when its numbers have 4300 digits at most, and its lists
    hold only strings, without a comma and without a quote at an end. -/
theorem round_trip_iff (P : CPython) (d : Vars) : RoundTrips P d ↔ ∀ f ∈ d.items, f.2.Kept := by
  refine ⟨kept_of_roundTrips, fun hk => ?_⟩
  have hperm := sortedGiven_perm d.items
  have hok : ∀ f ∈ d.items, ∃ enc, f.2.encode P = .ok enc := fun f hf => encode_kept (hk f hf)
  obtain ⟨text, hw⟩ : ∃ text, write P d.items = .ok text := ⟨_, write_texts hok⟩
  have hback := reread_kept hk hw
  refine ⟨text, hw, ?_, ?_⟩
  · rw [hback]
    exact hperm
  · rw [hback, ← hw, write_texts hok, write_texts fun f hf => hok f (hperm.mem_iff.mp hf), sortedGiven_idem]

theorem isName_ports : IsName "ports" := ⟨List.all_eq_true.mp (by decide), by decide⟩

/-- `{"ports": [443]}`. -/
def ports : Vars where
  items := [("ports", .list [.int 443])]
  distinct := List.nodup_singleton _
  names := List.forall_mem_singleton.mpr isName_ports
  plain := List.forall_mem_singleton.mpr (List.forall_mem_singleton.mpr trivial)

/-- The number comes back as a string. -/
theorem ports_lost : ¬ RoundTrips asciiOnly ports := by
  intro h
  have hk : (PyValue.list [.int 443]).Kept :=
    kept_of_roundTrips h ("ports", .list [.int 443]) (List.mem_singleton_self _)
  obtain ⟨s, hs, -⟩ := List.forall_mem_singleton.mp hk
  cases hs

end Connect.Tfvars
