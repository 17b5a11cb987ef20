/-
  Connect.Doc.ReadWrite — a shared document that any number of parties read, change and
  write back whole, with nothing that ties a write to the read before it. A history is
  newest first.

  A write carries on the writes that its party's read had seen and drops the others. The
  `lineage` of a document are the parties it carries, from the last write back, and the
  document is their changes one on top of the other (`run_eq`). Where no write comes between
  a party's read and its write the lineage is all the writers (`lineage_isolated`).

  `Edits` is for documents of entries, where a change puts some entries, keeps some of the
  others and drops the rest; `holds_foldr` says what a lineage of such changes leaves.
-/

namespace Connect.Doc

inductive Act where
  | read (i : Nat)
  | write (i : Nat)
  deriving DecidableEq, Repr

structure State (Doc : Type) where
  doc : Doc
  /-- What a party last read. -/
  seen : Nat → Doc

variable {Doc : Type} (f : Nat → Doc → Doc) (d₀ : Doc)

/-- The document after some acts; a write of party `i` makes the change `f i` to what it read. -/
def run : List Act → State Doc
  | [] => ⟨d₀, fun _ => d₀⟩
  | .read i :: h => { run h with seen := fun j => if j = i then (run h).doc else (run h).seen j }
  | .write i :: h => { run h with doc := f i ((run h).seen i) }

structure Lineage where
  /-- The parties whose changes the document carries. -/
  writers : List Nat
  /-- Those that the document a party read carried. -/
  read : Nat → List Nat

def lineage : List Act → Lineage
  | [] => ⟨[], fun _ => []⟩
  | .read i :: h => { lineage h with read := fun j => if j = i then (lineage h).writers else (lineage h).read j }
  | .write i :: h => { lineage h with writers := i :: (lineage h).read i }

theorem run_eq (h : List Act) :
    (run f d₀ h).doc = (lineage h).writers.foldr f d₀ ∧
    ∀ i, (run f d₀ h).seen i = ((lineage h).read i).foldr f d₀ := by
  induction h with
  | nil => exact ⟨rfl, fun _ => rfl⟩
  | cons a h ih =>
    obtain ⟨hdoc, hseen⟩ := ih
    cases a with
    | read i =>
      refine ⟨hdoc, fun j => ?_⟩
      by_cases hj : j = i
      · simp only [run, lineage, hj, if_true, hdoc]
      · simp only [run, lineage, if_neg hj, hseen]
    | write i => exact ⟨by simp only [run, lineage, hseen, List.foldr_cons], hseen⟩

/-- A party's changes are its own. -/
theorem run_seen_ne {h : List Act} {a : Act} {i : Nat} (ha : a ≠ .read i) :
    (run f d₀ (a :: h)).seen i = (run f d₀ h).seen i := by
  cases a with
  | read j =>
    have hne : i ≠ j := by
      intro h
      subst h
      exact ha rfl
    simp only [run, if_neg hne]
  | write j => rfl

/-- Who the lineage names has written. -/
theorem write_of_lineage {h : List Act} :
    (∀ i ∈ (lineage h).writers, .write i ∈ h) ∧ ∀ j, ∀ i ∈ (lineage h).read j, .write i ∈ h := by
  induction h with
  | nil => exact ⟨fun _ hi => absurd hi List.not_mem_nil, fun _ _ hi => absurd hi List.not_mem_nil⟩
  | cons a h ih =>
    obtain ⟨hwriters, hread⟩ := ih
    have hread' : ∀ j, ∀ i ∈ (lineage h).read j, .write i ∈ a :: h :=
      fun j i hi => List.mem_cons_of_mem _ (hread j i hi)
    have hwriters' : ∀ i ∈ (lineage h).writers, .write i ∈ a :: h :=
      fun i hi => List.mem_cons_of_mem _ (hwriters i hi)
    cases a with
    | read k =>
      refine ⟨hwriters', fun j i hi => ?_⟩
      simp only [lineage] at hi
      split at hi
      · exact hwriters' i hi
      · exact hread' j i hi
    | write k =>
      refine ⟨fun i hi => ?_, hread'⟩
      rcases List.mem_cons.mp hi with rfl | hi
      · exact List.mem_cons_self
      · exact hread' k i hi

/-! ## Writes that follow their reads -/

def writers (h : List Act) : List Nat :=
  h.filterMap fun
    | .read _ => none
    | .write i => some i

/-- No write since the party last read. -/
def sawLast (i : Nat) : List Act → Bool
  | [] => false
  | .read j :: h => j = i || sawLast i h
  | .write _ :: _ => false

/-- No write comes between a party's read and its write. -/
def Isolated : List Act → Prop
  | [] => True
  | .read _ :: h => Isolated h
  | .write i :: h => sawLast i h = true ∧ Isolated h

theorem read_of_sawLast {h : List Act} {i : Nat} (hi : sawLast i h = true) :
    (lineage h).read i = (lineage h).writers := by
  induction h with
  | nil => cases hi
  | cons a h ih =>
    cases a with
    | read j =>
      by_cases hj : i = j
      · simp only [lineage, if_pos hj]
      · have hrest : sawLast i h = true := by simpa [sawLast, Ne.symm hj] using hi
        simp only [lineage, if_neg hj, ih hrest]
    | write j => cases hi

theorem lineage_isolated {h : List Act} (hi : Isolated h) : (lineage h).writers = writers h := by
  induction h with
  | nil => rfl
  | cons a h ih =>
    cases a with
    | read j => exact ih hi
    | write j =>
      show j :: (lineage h).read j = j :: writers h
      rw [read_of_sawLast hi.1, ih hi.2]

theorem mem_writers {h : List Act} {i : Nat} : i ∈ writers h ↔ .write i ∈ h := by
  constructor
  · intro hi
    obtain ⟨a, ha, he⟩ := List.mem_filterMap.mp hi
    cases a with
    | read j => cases he
    | write j =>
      cases he
      exact ha
  · intro hi
    exact List.mem_filterMap.mpr ⟨_, hi, rfl⟩

/-! ## Documents of entries -/

/-- The change `f i` puts the entries of `puts i`, and keeps of the others those of `keeps i`. -/
structure Edits {Entry : Type} (holds : Doc → Entry → Prop) (f : Nat → Doc → Doc) where
  puts : Nat → Entry → Prop
  keeps : Nat → Entry → Prop
  holds_iff : ∀ i d x, holds (f i d) x ↔ puts i x ∨ (holds d x ∧ keeps i x)

/-- Where no change drops what another puts, an entry is there if one of them put it, or if it
    was there and all keep it. -/
theorem Edits.holds_foldr {Entry : Type} {holds : Doc → Entry → Prop} {f : Nat → Doc → Doc}
    (E : Edits holds f) {l : List Nat}
    (hl : ∀ i ∈ l, ∀ j ∈ l, i ≠ j → ∀ x, E.puts i x → E.keeps j x) (d₀ : Doc) (x : Entry) :
    holds (l.foldr f d₀) x ↔ (∃ i ∈ l, E.puts i x) ∨ (holds d₀ x ∧ ∀ i ∈ l, E.keeps i x) := by
  induction l with
  | nil => simp
  | cons i l ih =>
    have hrest := ih fun j hj k hk => hl j (List.mem_cons_of_mem _ hj) k (List.mem_cons_of_mem _ hk)
    rw [List.foldr_cons, E.holds_iff, hrest]
    constructor
    · intro h
      rcases h with hput | ⟨⟨j, hj, hput⟩ | ⟨hold, hkeep⟩, hi⟩
      · exact .inl ⟨i, List.mem_cons_self, hput⟩
      · exact .inl ⟨j, List.mem_cons_of_mem _ hj, hput⟩
      · exact .inr ⟨hold, List.forall_mem_cons.mpr ⟨hi, hkeep⟩⟩
    · intro h
      rcases h with ⟨j, hj, hput⟩ | ⟨hold, hkeep⟩
      · by_cases hji : j = i
        · exact .inl (hji ▸ hput)
        · have hin : j ∈ l := (List.mem_cons.mp hj).resolve_left hji
          exact .inr ⟨.inl ⟨j, hin, hput⟩, hl j hj i List.mem_cons_self hji x hput⟩
      · exact .inr ⟨.inr ⟨hold, fun j hj => hkeep j (List.mem_cons_of_mem _ hj)⟩, hkeep i List.mem_cons_self⟩

end Connect.Doc
