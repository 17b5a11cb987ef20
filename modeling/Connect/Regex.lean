/-
  Connect.Regex — Python's `re` on patterns in which a repetition repeats one character class.

  `ways` lists every way a pattern matches at the front of a text, in the order in which
  Python's backtracking tries them: a greedy repetition from the longest on, a lazy one from
  the shortest. `reMatch` and `reSearch` take the first.

  A repetition is decided where what follows it cannot begin with one of its characters:
  it takes all there are, greedy or not (`ways_group_many_seq`). A pattern built of such
  parts has one way at most. A greedy repetition at the end takes all there are as its
  first way (`head?_ways_many`).
-/

namespace Connect.Regex

inductive Pattern where
  | empty
  | char (p : Char → Bool)
  /-- `[...]*` for `least` 0 and `[...]+` for 1; lazy with a `?` behind. -/
  | many (greedy : Bool) (least : Nat) (p : Char → Bool)
  | group (a : Pattern)
  | seq (a b : Pattern)
  /-- `^`. -/
  | start
  /-- `$`, which also stands before a last newline. -/
  | stop

/-- One way to match: the characters it takes, those behind them, and its groups. -/
structure Found where
  taken : List Char
  rest : List Char
  groups : List (List Char)
  deriving DecidableEq, Repr

namespace Found

/-- `f`, then `g` on what is behind it. -/
def andThen (f g : Found) : Found := ⟨f.taken ++ g.taken, g.rest, f.groups ++ g.groups⟩

/-- As a group. -/
def grouped (f : Found) : Found := { f with groups := f.taken :: f.groups }

@[simp] theorem andThen_nothing (cs : List Char) : andThen ⟨[], cs, []⟩ = id := rfl

end Found

/-- The splits of a text behind some of its characters in `p`, the shortest first. -/
def spans (p : Char → Bool) : List Char → List (List Char × List Char)
  | [] => [([], [])]
  | c :: cs => ([], c :: cs) :: if p c then (spans p cs).map fun s => (c :: s.1, s.2) else []

/-- All ways to match at the front of a text; `atStart` says whether nothing is before it. -/
def ways : Pattern → Bool → List Char → List Found
  | .empty, _, cs => [⟨[], cs, []⟩]
  | .char _, _, [] => []
  | .char p, _, c :: cs => if p c then [⟨[c], cs, []⟩] else []
  | .many greedy least p, _, cs =>
    (if greedy then (spans p cs).reverse else spans p cs).flatMap
    fun s => if least ≤ s.1.length then [⟨s.1, s.2, []⟩] else []
  | .group a, atStart, cs => (ways a atStart cs).map Found.grouped
  | .seq a b, atStart, cs =>
    (ways a atStart cs).flatMap fun f => (ways b (atStart && f.taken.isEmpty) f.rest).map f.andThen
  | .start, atStart, cs => if atStart then [⟨[], cs, []⟩] else []
  | .stop, _, cs => if cs = [] ∨ cs = ['\n'] then [⟨[], cs, []⟩] else []

/-- `re.match`. -/
def reMatch (a : Pattern) (s : String) : Option Found := (ways a true s.toList).head?

/-- `re.search` from here on. -/
def searchFrom (a : Pattern) (atStart : Bool) : List Char → Option Found
  | [] => (ways a atStart []).head?
  | c :: cs => match (ways a atStart (c :: cs)).head? with
    | some f => some f
    | none => searchFrom a false cs

/-- `re.search`. -/
def reSearch (a : Pattern) (s : String) : Option Found := searchFrom a true s.toList

/-- These patterns one behind the other. -/
def seqs (as : List Pattern) : Pattern := as.foldr .seq .empty

def lit (cs : List Char) : List Pattern := cs.map fun c => .char (· == c)

/-- `.`: any character but a newline. -/
def dot (c : Char) : Bool := c != '\n'

/-! ## One part -/

theorem ways_char (p : Char → Bool) (atStart : Bool) (c : Char) (cs : List Char) :
    ways (.char p) atStart (c :: cs) = if p c then [⟨[c], cs, []⟩] else [] := rfl

theorem ways_many (greedy : Bool) (least : Nat) (p : Char → Bool) (atStart : Bool) (cs : List Char) :
    ways (.many greedy least p) atStart cs =
      (if greedy then (spans p cs).reverse else spans p cs).flatMap
      fun s => if least ≤ s.1.length then [⟨s.1, s.2, []⟩] else [] := rfl

theorem ways_group (a : Pattern) (atStart : Bool) (cs : List Char) :
    ways (.group a) atStart cs = (ways a atStart cs).map Found.grouped := rfl

theorem ways_seq (a b : Pattern) (atStart : Bool) (cs : List Char) :
    ways (.seq a b) atStart cs = (ways a atStart cs).flatMap
    fun f => (ways b (atStart && f.taken.isEmpty) f.rest).map f.andThen := rfl

theorem ways_empty (atStart : Bool) (cs : List Char) : ways .empty atStart cs = [⟨[], cs, []⟩] := rfl

theorem ways_start (cs : List Char) : ways .start true cs = [⟨[], cs, []⟩] := rfl

theorem ways_stop (atStart : Bool) (cs : List Char) :
    ways .stop atStart cs = if cs = [] ∨ cs = ['\n'] then [⟨[], cs, []⟩] else [] := rfl

/-! ## Repetitions -/

section Spans

variable {p : Char → Bool}

/-- The last split is behind all of them; before it, the text goes on with one more. -/
theorem spans_eq (p : Char → Bool) (cs : List Char) :
    ∃ shorter, spans p cs = shorter ++ [(cs.takeWhile p, cs.dropWhile p)] ∧
    ∀ s ∈ shorter, ∃ c rest, s.2 = c :: rest ∧ p c = true := by
  induction cs with
  | nil => exact ⟨[], rfl, nofun⟩
  | cons c cs ih =>
    obtain ⟨shorter, hs, hall⟩ := ih
    unfold spans
    by_cases hc : p c = true
    · rw [if_pos hc, hs, List.map_append, List.takeWhile_cons_of_pos hc, List.dropWhile_cons_of_pos hc]
      refine ⟨([], c :: cs) :: shorter.map fun s => (c :: s.1, s.2), by simp, fun s hm => ?_⟩
      rcases List.mem_cons.mp hm with rfl | hm
      · exact ⟨c, cs, rfl, hc⟩
      · obtain ⟨s, hs, rfl⟩ := List.mem_map.mp hm
        exact hall s hs
    · rw [if_neg hc, List.takeWhile_cons_of_neg hc, List.dropWhile_cons_of_neg hc]
      exact ⟨[], rfl, nofun⟩

/-- Where shorter splits lead to nothing, the last one is left. -/
theorem flatMap_ways_many {β : Type} {greedy : Bool} {least : Nat} {atStart : Bool} {cs : List Char}
    {f : Found → List β} (hf : ∀ w c rest, p c = true → f ⟨w, c :: rest, []⟩ = []) :
    (ways (.many greedy least p) atStart cs).flatMap f =
      if least ≤ (cs.takeWhile p).length then f ⟨cs.takeWhile p, cs.dropWhile p, []⟩ else [] := by
  obtain ⟨shorter, hs, hall⟩ := spans_eq p cs
  have hnone : ∀ ss : List (List Char × List Char), (∀ s ∈ ss, s ∈ shorter) →
      ss.flatMap (fun s => (if least ≤ s.1.length then [(⟨s.1, s.2, []⟩ : Found)] else []).flatMap f) = [] := by
    intro ss hss
    rw [List.flatMap_eq_nil_iff]
    intro s hm
    obtain ⟨c, rest, he, hc⟩ := hall s (hss s hm)
    split
    · rw [List.flatMap_singleton, he, hf _ _ _ hc]
    · rfl
  have hlast : (if least ≤ (cs.takeWhile p).length then [(⟨cs.takeWhile p, cs.dropWhile p, []⟩ : Found)]
      else []).flatMap f =
        if least ≤ (cs.takeWhile p).length then f ⟨cs.takeWhile p, cs.dropWhile p, []⟩ else [] := by
    split
    · exact List.flatMap_singleton ..
    · rfl
  rw [ways_many, List.flatMap_assoc, hs]
  cases greedy with
  | true =>
    rw [if_pos rfl, List.reverse_append, List.flatMap_append, hnone _ fun s hm => List.mem_reverse.mp hm,
      List.append_nil]
    simpa using hlast
  | false =>
    rw [if_neg (by decide), List.flatMap_append, hnone _ fun s hm => hm, List.nil_append]
    simpa using hlast

/-- A greedy repetition takes all there are as its first way. -/
theorem head?_ways_many {least : Nat} {atStart : Bool} {cs : List Char} (h : least ≤ (cs.takeWhile p).length) :
    (ways (.many true least p) atStart cs).head? = some ⟨cs.takeWhile p, cs.dropWhile p, []⟩ := by
  obtain ⟨shorter, hs, -⟩ := spans_eq p cs
  simp [ways_many, hs, h]

end Spans

/-- Characters in `p` before one that is not. -/
theorem span_stop {p : Char → Bool} {w rest : List Char} {c : Char} (h : ∀ d ∈ w, p d = true) (hc : p c = false) :
    (w ++ c :: rest).takeWhile p = w ∧ (w ++ c :: rest).dropWhile p = c :: rest := by
  constructor
  · rw [List.takeWhile_append_of_pos h, List.takeWhile_cons_of_neg (by simp [hc]), List.append_nil]
  · rw [List.dropWhile_append_of_pos h, List.dropWhile_cons_of_neg (by simp [hc])]

/-! ## Sequences -/

section Seq

variable {p : Char → Bool} {greedy : Bool} {least : Nat} {atStart : Bool} {k : Pattern} {c : Char} {cs : List Char}

@[simp] theorem ways_char_seq : ways (.seq (.char p) k) atStart (c :: cs) =
    if p c = true then (ways k false cs).map (Found.andThen ⟨[c], cs, []⟩) else [] := by
  rw [ways_seq, ways_char]
  split <;> simp

/-- A repetition in a group, whose characters nothing behind it begins with. -/
theorem ways_group_many_seq (hk : ∀ b d rest, p d = true → ways k b (d :: rest) = []) :
    ways (.seq (.group (.many greedy least p)) k) atStart cs =
      if least ≤ (cs.takeWhile p).length then
        (ways k (atStart && (cs.takeWhile p).isEmpty) (cs.dropWhile p)).map
          (Found.andThen ⟨cs.takeWhile p, cs.dropWhile p, [cs.takeWhile p]⟩)
      else [] := by
  rw [ways_seq, ways_group, List.flatMap_map, flatMap_ways_many]
  · rfl
  · intro w d rest hd
    show (ways k _ (d :: rest)).map _ = []
    rw [hk _ _ _ hd, List.map_nil]

/-- A greedy group at the end. -/
theorem head?_ways_group_many (h : least ≤ (cs.takeWhile p).length) :
    (ways (.group (.many true least p)) atStart cs).head? =
      some ⟨cs.takeWhile p, cs.dropWhile p, [cs.takeWhile p]⟩ := by
  rw [ways_group, List.head?_map, head?_ways_many h]
  rfl

@[simp] theorem ways_seq_empty {a : Pattern} : ways (.seq a .empty) atStart cs = ways a atStart cs := by
  simp [ways_seq, ways_empty, Found.andThen]

/-- `re.search` goes on behind a character where there is no match. -/
theorem searchFrom_skip {a : Pattern} (h : ways a atStart (c :: cs) = []) :
    searchFrom a atStart (c :: cs) = searchFrom a false cs := by
  rw [searchFrom, h]
  rfl

theorem searchFrom_found {a : Pattern} {f : Found} (h : (ways a atStart cs).head? = some f) :
    searchFrom a atStart cs = some f := by
  cases cs with
  | nil => exact h
  | cons c cs => rw [searchFrom, h]

/-- A text that is there as it stands. -/
theorem ways_lit (w : List Char) (as : List Pattern) : ways (seqs (lit w ++ as)) atStart (w ++ cs) =
    (ways (seqs as) (atStart && w.isEmpty) cs).map (Found.andThen ⟨w, cs, []⟩) := by
  induction w generalizing atStart with
  | nil => simp [lit]
  | cons d w ih =>
    show ways (.seq (.char (· == d)) (seqs (lit w ++ as))) atStart (d :: (w ++ cs)) = _
    rw [ways_char_seq, ih]
    simp [Found.andThen, Function.comp_def]

end Seq

/-! ## What matches -/

theorem mem_spans {p : Char → Bool} {cs : List Char} {s : List Char × List Char} :
    s ∈ spans p cs ↔ cs = s.1 ++ s.2 ∧ ∀ c ∈ s.1, p c = true := by
  induction cs generalizing s with
  | nil =>
    obtain ⟨w, rest⟩ := s
    constructor
    · intro h
      cases List.mem_singleton.mp h
      exact ⟨rfl, nofun⟩
    · intro h
      obtain ⟨rfl, rfl⟩ := List.append_eq_nil_iff.mp h.1.symm
      exact List.mem_singleton_self _
  | cons d cs ih =>
    obtain ⟨w, rest⟩ := s
    unfold spans
    constructor
    · intro h
      rcases List.mem_cons.mp h with h | h
      · cases h
        exact ⟨rfl, nofun⟩
      · split at h
        · rename_i hd
          obtain ⟨s, hs, he⟩ := List.mem_map.mp h
          cases he
          obtain ⟨rfl, hw⟩ := ih.mp hs
          exact ⟨rfl, List.forall_mem_cons.mpr ⟨hd, hw⟩⟩
        · cases h
    · intro h
      obtain ⟨he, hw⟩ := h
      cases w with
      | nil =>
        cases he
        exact List.mem_cons_self
      | cons c w =>
        obtain ⟨rfl, rfl⟩ := List.cons.inj he
        obtain ⟨hd, hw⟩ := List.forall_mem_cons.mp hw
        rw [if_pos hd]
        exact List.mem_cons_of_mem _ (List.mem_map.mpr ⟨(w, rest), ih.mpr ⟨rfl, hw⟩, rfl⟩)

/-- There is a way. -/
def Matches (a : Pattern) (atStart : Bool) (cs : List Char) : Prop := ∃ f, f ∈ ways a atStart cs

theorem isSome_reMatch {a : Pattern} {s : String} : (reMatch a s).isSome = true ↔ Matches a true s.toList := by
  unfold reMatch Matches
  cases ways a true s.toList with
  | nil => simp
  | cons f fs => simp

section Matches

variable {p : Char → Bool} {greedy : Bool} {least : Nat} {atStart : Bool} {a k : Pattern} {cs : List Char}

theorem matches_empty : Matches .empty atStart cs := ⟨_, List.mem_singleton_self _⟩

theorem matches_seq : Matches (.seq a k) atStart cs ↔
    ∃ f ∈ ways a atStart cs, Matches k (atStart && f.taken.isEmpty) f.rest := by
  constructor
  · intro h
    obtain ⟨_, h⟩ := h
    obtain ⟨f, hf, h⟩ := List.mem_flatMap.mp h
    obtain ⟨g, hg, _⟩ := List.mem_map.mp h
    exact ⟨f, hf, g, hg⟩
  · intro h
    obtain ⟨f, hf, g, hg⟩ := h
    exact ⟨_, List.mem_flatMap.mpr ⟨f, hf, List.mem_map.mpr ⟨g, hg, rfl⟩⟩⟩

theorem matches_start_seq : Matches (.seq .start k) true cs ↔ Matches k true cs := by
  simp [matches_seq, ways_start]

theorem matches_stop_seq : Matches (.seq .stop k) atStart cs ↔ (cs = [] ∨ cs = ['\n']) ∧ Matches k atStart cs := by
  rw [matches_seq, ways_stop]
  split
  · simp [*]
  · simp [*]

theorem matches_char_seq : Matches (.seq (.char p) k) atStart cs ↔
    ∃ c rest, cs = c :: rest ∧ p c = true ∧ Matches k false rest := by
  rw [matches_seq]
  cases cs with
  | nil =>
    constructor
    · rintro ⟨f, hf, _⟩
      cases hf
    · rintro ⟨c, rest, he, _⟩
      cases he
  | cons c cs =>
    rw [ways_char]
    constructor
    · intro h
      obtain ⟨f, hf, hk⟩ := h
      split at hf
      · rename_i hc
        cases List.mem_singleton.mp hf
        exact ⟨c, cs, rfl, hc, by simpa using hk⟩
      · cases hf
    · intro h
      obtain ⟨_, _, he, hc, hk⟩ := h
      cases he
      rw [if_pos hc]
      exact ⟨_, List.mem_singleton_self _, by simpa using hk⟩

/-- Some of the characters are taken, and what follows matches behind them. -/
theorem matches_many_seq : Matches (.seq (.many greedy least p) k) atStart cs ↔
    ∃ w rest, cs = w ++ rest ∧ (∀ c ∈ w, p c = true) ∧ least ≤ w.length ∧ Matches k (atStart && w.isEmpty) rest := by
  have hspans : ∀ s, s ∈ (if greedy then (spans p cs).reverse else spans p cs) ↔ s ∈ spans p cs := by
    intro s
    split
    · exact List.mem_reverse
    · rfl
  rw [matches_seq]
  constructor
  · intro h
    obtain ⟨f, hf, hk⟩ := h
    obtain ⟨s, hs, hf⟩ := List.mem_flatMap.mp hf
    obtain ⟨he, hw⟩ := mem_spans.mp ((hspans s).mp hs)
    split at hf
    · rename_i hl
      cases List.mem_singleton.mp hf
      exact ⟨s.1, s.2, he, hw, hl, hk⟩
    · cases hf
  · intro h
    obtain ⟨w, rest, he, hw, hl, hk⟩ := h
    refine ⟨⟨w, rest, []⟩, List.mem_flatMap.mpr ⟨(w, rest), (hspans _).mpr (mem_spans.mpr ⟨he, hw⟩), ?_⟩, hk⟩
    rw [if_pos hl]
    exact List.mem_singleton_self _

end Matches

end Connect.Regex
