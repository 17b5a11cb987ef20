/-
  Connect.Path — path strings, names with slashes between them.

  `split` is Python's `s.split("/")`, `named` what it leaves once the empty names are
  dropped, `absolute` the path of a list of names, `parent` what stands before the last
  slash. A path of names is its own normal form exactly when no name in it is empty
  (`absolute_named_iff`), and `os.path.dirname` leads to the same names as `parent`.
-/

import Connect.Py

namespace Connect.Path

/-- `s.split("/")`. -/
def split (s : String) : List String := (s.toList.splitOn '/').map String.ofList

/-- `[p for p in names if p]`. -/
def named (names : List String) : List String := names.filter (· != "")

def absolute : List String → String
  | [] => ""
  | name :: rest => "/" ++ name ++ absolute rest

/-- `"/".join(names)`. -/
def join : List String → String
  | [] => ""
  | [name] => name
  | name :: next :: rest => name ++ "/" ++ join (next :: rest)

/-- `s.rpartition("/")[0]`. -/
def parent (s : String) : String := String.ofList (s.toList.reverse.dropWhile (· != '/')).tail.reverse

/-- `s.endswith("/")`. -/
def endsSlash (s : String) : Bool := s.toList.getLast? == some '/'

/-! ## Splitting -/

theorem split_ne_nil (s : String) : split s ≠ [] := by
  simp [split, List.splitOn_ne_nil]

@[simp] theorem split_slash (s t : String) : split (s ++ "/" ++ t) = split s ++ split t := by
  simp [split, List.splitOn_append_cons_self]

@[simp] theorem split_root (t : String) : split ("/" ++ t) = "" :: split t := by
  have h := split_slash "" t
  simpa [split] using h

theorem split_single {s : String} (h : '/' ∉ s.toList) : split s = [s] := by
  simp [split, List.splitOn_eq_singleton h]

/-- Names hold no slash. -/
theorem mem_split {s name : String} (h : name ∈ split s) : '/' ∉ name.toList := by
  obtain ⟨piece, hp, rfl⟩ := List.mem_map.mp h
  simpa using notMem_of_mem_splitOn hp

/-- A text with a slash, cut at its last one. -/
theorem last_slash {cs : List Char} (h : '/' ∈ cs) : ∃ front base, cs = front ++ '/' :: base ∧ '/' ∉ base := by
  induction cs with
  | nil => cases h
  | cons c cs ih =>
    by_cases hcs : '/' ∈ cs
    · obtain ⟨front, base, rfl, hb⟩ := ih hcs
      exact ⟨c :: front, base, rfl, hb⟩
    · rcases List.mem_cons.mp h with rfl | h
      · exact ⟨[], cs, rfl, hcs⟩
      · exact absurd h hcs

/-- A path without a slash, or cut at its last one. -/
theorem no_slash_or_last (s : String) :
    '/' ∉ s.toList ∨ ∃ front base, s = front ++ "/" ++ base ∧ '/' ∉ base.toList := by
  by_cases h : '/' ∈ s.toList
  · obtain ⟨front, base, hs, hb⟩ := last_slash h
    refine Or.inr ⟨String.ofList front, String.ofList base, ?_, by simpa using hb⟩
    rw [← String.toList_inj]
    simp [hs]
  · exact Or.inl h

theorem toList_slash (front base : String) : (front ++ "/" ++ base).toList = front.toList ++ '/' :: base.toList := by
  simp

/-- What `dropWhile` finds from behind. -/
theorem dropWhile_last {front base : List Char} (hb : '/' ∉ base) :
    (front ++ '/' :: base).reverse.dropWhile (· != '/') = '/' :: front.reverse := by
  have hall : ∀ c ∈ base.reverse, (c != '/') = true := by
    intro c hc
    have hc : c ∈ base := List.mem_reverse.mp hc
    have hne : c ≠ '/' := fun he => hb (he ▸ hc)
    simpa using hne
  rw [List.reverse_append, List.reverse_cons, List.append_assoc, List.dropWhile_append_of_pos hall]
  simp

theorem dropWhile_absent {cs : List Char} (h : '/' ∉ cs) : cs.reverse.dropWhile (· != '/') = [] := by
  have hall : ∀ c ∈ cs.reverse, (c != '/') = true := by
    intro c hc
    have hne : c ≠ '/' := fun he => h (by simpa [he] using hc)
    simpa using hne
  have h := @List.dropWhile_append_of_pos _ _ _ [] hall
  simpa using h

theorem parent_slash {s base : String} (hb : '/' ∉ base.toList) : parent (s ++ "/" ++ base) = s := by
  rw [parent, toList_slash, dropWhile_last hb]
  simp

theorem split_dropLast {front base : String} (hb : '/' ∉ base.toList) :
    (split (front ++ "/" ++ base)).dropLast = split front := by
  rw [split_slash, split_single hb, List.dropLast_concat]

/-! ## Joining -/

theorem absolute_append (xs ys : List String) : absolute (xs ++ ys) = absolute xs ++ absolute ys := by
  induction xs with
  | nil => simp [absolute]
  | cons x xs ih => simp [absolute, ih, String.append_assoc]

theorem absolute_pieces (piece : List Char) (pieces : List (List Char)) :
    absolute ((piece :: pieces).map String.ofList) = "/" ++ String.ofList (['/'].intercalate (piece :: pieces)) := by
  induction pieces generalizing piece with
  | nil => simp [absolute]
  | cons next pieces ih =>
    have hnext := ih next
    rw [List.map_cons, absolute, hnext]
    simp [List.intercalate_cons_cons, String.append_assoc]

/-- Joining undoes splitting. -/
theorem absolute_split (s : String) : absolute (split s) = "/" ++ s := by
  cases hp : s.toList.splitOn '/' with
  | nil => exact absurd hp (List.splitOn_ne_nil _ _)
  | cons piece pieces =>
    have hj : ['/'].intercalate (s.toList.splitOn '/') = s.toList := List.intercalate_splitOn '/'
    rw [hp] at hj
    rw [split, hp, absolute_pieces, hj, String.ofList_toList]

theorem absolute_join (name : String) (names : List String) :
    absolute (name :: names) = "/" ++ join (name :: names) := by
  induction names generalizing name with
  | nil => simp [absolute, join]
  | cons next rest ih =>
    rw [absolute, ih, join]
    simp only [String.append_assoc]

theorem join_split (s : String) : join (split s) = s := by
  have h := absolute_split s
  cases hs : split s with
  | nil => exact absurd hs (split_ne_nil s)
  | cons name names =>
    rw [hs, absolute_join, ← String.toList_inj] at h
    rw [← String.toList_inj]
    simpa using h

theorem split_absolute {names : List String} (h : ∀ name ∈ names, '/' ∉ name.toList) (name : String)
    (hname : '/' ∉ name.toList) : split (absolute (name :: names)) = "" :: name :: names := by
  induction names generalizing name with
  | nil => simp [absolute, split_single hname]
  | cons next names ih =>
    have hnext := ih (fun n hn => h n (List.mem_cons_of_mem _ hn)) next (h next List.mem_cons_self)
    have hs : absolute (name :: next :: names) = "/" ++ name ++ "/" ++ (next ++ absolute names) := by
      simp [absolute, String.append_assoc]
    have ht : split (next ++ absolute names) = next :: names := by
      have : absolute (next :: names) = "/" ++ (next ++ absolute names) := by simp [absolute, String.append_assoc]
      rw [this, split_root] at hnext
      exact (List.cons.inj hnext).2
    rw [hs, split_slash, split_root, split_single hname, ht]
    rfl

theorem split_absolute_all {names : List String} (hne : names ≠ []) (h : ∀ name ∈ names, '/' ∉ name.toList) :
    split (absolute names) = "" :: names := by
  cases names with
  | nil => exact absurd rfl hne
  | cons name names =>
    exact split_absolute (fun n hn => h n (List.mem_cons_of_mem name hn)) name (h name List.mem_cons_self)

/-! ## Normal form -/

theorem named_self {names : List String} : named names = names ↔ ∀ name ∈ names, name ≠ "" := by
  simp [named, List.filter_eq_self]

theorem absolute_cons_length (name : String) (names : List String) :
    (absolute (name :: names)).length = 1 + name.length + (absolute names).length := by
  simp only [absolute, String.length_append]
  rfl

theorem length_le_absolute (names : List String) : names.length ≤ (absolute names).length := by
  induction names with
  | nil => exact Nat.le_refl _
  | cons name names ih =>
    rw [absolute_cons_length, List.length_cons]
    omega

/-- A longer prefix of the names is a longer path. -/
theorem absolute_take_lt {names : List String} {i j : Nat} (hij : i < j) (hj : j ≤ names.length) :
    (absolute (names.take i)).length < (absolute (names.take j)).length := by
  obtain ⟨d, rfl⟩ := Nat.exists_eq_add_of_lt hij
  have hlen := length_le_absolute ((names.drop i).take (d + 1))
  rw [List.length_take, List.length_drop] at hlen
  rw [Nat.add_assoc, List.take_add, absolute_append, String.length_append]
  omega

theorem named_le (names : List String) : (absolute (named names)).length ≤ (absolute names).length := by
  induction names with
  | nil => exact Nat.le_refl _
  | cons name names ih =>
    rw [absolute_cons_length]
    by_cases h : name = ""
    · rw [named, List.filter_cons_of_neg (by simp [h])]
      exact Nat.le_add_left_of_le ih
    · rw [named, List.filter_cons_of_pos (by simp [h]), absolute_cons_length]
      exact Nat.add_le_add_left ih _

/-- A path stays as it is exactly when no name in it is empty: dropping one shortens it. -/
theorem absolute_named_iff (names : List String) :
    absolute (named names) = absolute names ↔ ∀ name ∈ names, name ≠ "" := by
  constructor
  · intro h
    have hlen := congrArg String.length h
    clear h
    induction names with
    | nil => simp
    | cons name names ih =>
      have hle := named_le names
      rw [absolute_cons_length] at hlen
      by_cases hn : name = ""
      · rw [named, List.filter_cons_of_neg (by simp [hn])] at hlen
        simp only [named] at hle
        omega
      · rw [named, List.filter_cons_of_pos (by simp [hn]), absolute_cons_length] at hlen
        simp only [List.forall_mem_cons]
        exact ⟨hn, ih (by simp only [named]; omega)⟩
  · intro h
    rw [named_self.mpr h]

@[simp] theorem named_append (xs ys : List String) : named (xs ++ ys) = named xs ++ named ys := List.filter_append ..

@[simp] theorem named_empty (names : List String) : named ("" :: names) = named names :=
  List.filter_cons_of_neg (by decide)

/-- The last name of a path is empty when the path is, or ends with a slash. -/
theorem split_last (s : String) : ∃ base, split s = (split s).dropLast ++ [base] ∧
    (base = "" ↔ s = "" ∨ endsSlash s = true) := by
  rcases no_slash_or_last s with h | ⟨front, base, rfl, hb⟩
  · refine ⟨s, by rw [split_single h]; rfl, ?_⟩
    have hend : endsSlash s ≠ true := by
      intro he
      exact h (List.mem_of_getLast? (by simpa [endsSlash] using he))
    simp [hend]
  · refine ⟨base, by rw [split_dropLast hb, split_slash, split_single hb], ?_⟩
    have hne : front ++ "/" ++ base ≠ "" := by
      rw [ne_eq, ← String.toList_inj, toList_slash]
      simp
    have hempty : base = "" ↔ base.toList = [] := by simp
    rw [endsSlash, toList_slash, hempty]
    cases hcs : base.toList with
    | nil => simp
    | cons c cs =>
      rw [hcs] at hb
      have hc : (c :: cs).getLast (List.cons_ne_nil c cs) ≠ '/' := fun he => hb (he ▸ List.getLast_mem _)
      rw [List.getLast?_append, List.getLast?_cons_cons,
        List.getLast?_eq_some_getLast (List.cons_ne_nil c cs), Option.some_or]
      simp [hne, hc]

/-! ## dirname -/

theorem dropSlashes_spec (cs : List Char) : ∃ n, cs = List.replicate n '/' ++ dropSlashes cs := by
  induction cs with
  | nil => exact ⟨0, rfl⟩
  | cons c cs ih =>
    by_cases h : c = '/'
    · subst h
      obtain ⟨n, hn⟩ := ih
      exact ⟨n + 1, by rw [List.replicate_succ, List.cons_append, dropSlashes, ← hn]⟩
    · exact ⟨0, by simp [dropSlashes, h]⟩

/-- Slashes at the end make no name. -/
theorem named_trailing (s : List Char) (n : Nat) :
    named (split (String.ofList (s ++ List.replicate n '/'))) = named (split (String.ofList s)) := by
  induction n with
  | zero => simp
  | succ n ih =>
    have h : String.ofList (s ++ List.replicate (n + 1) '/') = String.ofList (s ++ List.replicate n '/') ++
        "/" ++ "" := by
      rw [List.replicate_succ', ← List.append_assoc, String.ofList_append]
      simp
    rw [h, split_slash, named_append, ih]
    have : named (split "") = [] := by decide
    rw [this, List.append_nil]

theorem named_slashes {cs : List Char} (h : ∀ c ∈ cs, c = '/') : named (split (String.ofList cs)) = [] := by
  rw [List.eq_replicate_of_mem h]
  exact named_trailing [] cs.length

/-- `dirname` drops the last name and slashes next to it. -/
theorem named_dirname (s : String) : named (split (dirname s)) = named (split s).dropLast := by
  rcases no_slash_or_last s with h | ⟨front, base, rfl, hb⟩
  · rw [dirname, dropWhile_absent h, split_single h]
    rfl
  · rw [split_dropLast hb, dirname, toList_slash, dropWhile_last hb]
    obtain ⟨n, hn⟩ := dropSlashes_spec ('/' :: front.toList.reverse)
    by_cases hall : ('/' :: front.toList.reverse).all (· == '/') = true
    · have hfront : ∀ c ∈ front.toList, c = '/' := by simpa using hall
      have hslashes := named_slashes hfront
      rw [String.ofList_toList] at hslashes
      rw [if_pos hall, named_slashes (by simpa using hall), hslashes]
    · rw [if_neg hall]
      have hf : front.toList ++ ['/'] = (dropSlashes ('/' :: front.toList.reverse)).reverse ++
          List.replicate n '/' := by
        have := congrArg List.reverse hn
        simpa using this
      have htrailing := named_trailing front.toList 1
      rw [String.ofList_toList] at htrailing
      rw [← named_trailing _ n, ← hf]
      exact htrailing

end Connect.Path
