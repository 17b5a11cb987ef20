/-
  Connect.Sql.Table — tables as a server keeps them: rows with a primary key, drawn from a
  sequence or not, and what SELECT, UPDATE, DELETE and INSERT do to them.

  Rows stand in the order a scan returns them, which SQL leaves open: every list of rows is
  some table. A new row is scanned last and an updated one keeps its place.

  A statement whose condition implies `q` reads the rows of `q` and nothing else
  (`select_restrict`, `join_restrict`), leaves the others alone (`delete_outside`,
  `update_outside`), and does to the rows of `q` what it would do were they the whole table
  (`delete_restrict`, `update_restrict`).
-/

namespace Connect.Sql

variable {Row Key : Type}

/-- UNIQUE over nullable columns: a row with a NULL among them (`none`) conflicts with no row. -/
def UniqueBy (col : Row → Option Key) (rows : List Row) : Prop := (rows.filterMap col).Nodup

theorem UniqueBy.sublist {col : Row → Option Key} {rows rows' : List Row} (h : UniqueBy col rows)
    (hs : rows'.Sublist rows) : UniqueBy col rows' := (hs.filterMap col).nodup h

theorem UniqueBy.map {col : Row → Option Key} {rows : List Row} {f : Row → Row} (h : UniqueBy col rows)
    (hf : ∀ r, col (f r) = col r) : UniqueBy col (rows.map f) := by
  have hcol : col ∘ f = col := funext hf
  unfold UniqueBy
  rw [List.filterMap_map, hcol]
  exact h

theorem UniqueBy.append {col : Row → Option Key} {rows : List Row} {row : Row} (h : UniqueBy col rows)
    (hr : ∀ r ∈ rows, col r = col row → col row = none) : UniqueBy col (rows ++ [row]) := by
  cases hc : col row with
  | none => simpa [UniqueBy, List.filterMap_append, hc] using h
  | some k =>
    have hk : ∀ a x, x ∈ rows → col x = some a → a ≠ k := by
      intro a x hx hxa h
      subst h
      simpa [hc] using hr x hx (hxa.trans hc.symm)
    simpa [UniqueBy, List.filterMap_append, hc, List.nodup_append] using ⟨h, hk⟩

/-- The rows under a column's value are one at most. -/
theorem UniqueBy.eq {col : Row → Option Key} {rows : List Row} (h : UniqueBy col rows) {r r' : Row} (hr : r ∈ rows)
    (hr' : r' ∈ rows) {k : Key} (hk : col r = some k) (hk' : col r' = some k) : r = r' := by
  induction rows with
  | nil => cases hr
  | cons a rows ih =>
    have hin : ∀ x ∈ rows, col x = some k → k ∈ rows.filterMap col := fun x hx e => List.mem_filterMap.mpr ⟨x, hx, e⟩
    have ht : UniqueBy col rows := h.sublist (List.sublist_cons_self a rows)
    have ha : col a = some k → k ∉ rows.filterMap col := by
      intro e
      have := h
      simp only [UniqueBy, List.filterMap_cons, e, List.nodup_cons] at this
      exact this.1
    rcases List.mem_cons.mp hr with rfl | hm
    · rcases List.mem_cons.mp hr' with rfl | hm'
      · rfl
      · exact absurd (hin _ hm' hk') (ha hk)
    · rcases List.mem_cons.mp hr' with rfl | hm'
      · exact absurd (hin _ hm hk) (ha hk')
      · exact ih ht hm hm'

/-- Under a key that no two rows share, a lookup finds one row. -/
theorem UniqueBy.filter_eq [DecidableEq Key] {key : Row → Key} {rows : List Row}
    (h : UniqueBy (fun r => some (key r)) rows)
    {row : Row} (hr : row ∈ rows) {k : Key} (hk : key row = k) :
    (rows.filter fun r => decide (key r = k)) = [row] := by
  subst hk
  induction rows with
  | nil => cases hr
  | cons a rows ih =>
    have hd : key a ∉ rows.map key ∧ (rows.map key).Nodup := by simpa [UniqueBy] using h
    have hrest : UniqueBy (fun r => some (key r)) rows := h.sublist (List.sublist_cons_self a rows)
    rcases List.mem_cons.mp hr with rfl | hin
    · have hnone : (rows.filter fun r => decide (key r = key row)) = [] := by
        refine List.filter_eq_nil_iff.mpr fun r hm he => hd.1 ?_
        exact List.mem_map.mpr ⟨r, hm, of_decide_eq_true he⟩
      rw [List.filter_cons, if_pos (by simp), hnone]
    · have hne : key a ≠ key row := fun he => hd.1 (he ▸ List.mem_map_of_mem hin)
      rw [List.filter_cons, if_neg (by simpa using hne)]
      exact ih hrest hin

@[ext]
structure Table (pk : Row → Key) where
  rows : List Row
  primary : UniqueBy (fun r => some (pk r)) rows

namespace Table

variable {pk : Row → Key}

def select (t : Table pk) (p : Row → Bool) : List Row := t.rows.filter p

/-- The rowcount of an UPDATE or DELETE, and `count(*)`. -/
def count (t : Table pk) (p : Row → Bool) : Nat := (t.select p).length

/-- The part of a table that `q` picks. -/
def restrict (t : Table pk) (q : Row → Bool) : Table pk := ⟨t.rows.filter q, t.primary.sublist List.filter_sublist⟩

def delete (t : Table pk) (p : Row → Bool) : Table pk := t.restrict fun r => !p r

def update (t : Table pk) (p : Row → Bool) (f : Row → Row) (hf : ∀ r, pk (f r) = pk r) : Table pk where
  rows := t.rows.map fun r => if p r then f r else r
  primary := t.primary.map fun r => by
    split
    · rw [hf]
    · rfl

/-- A row whose key is taken is refused. -/
def insert [DecidableEq Key] (t : Table pk) (row : Row) : Table pk :=
  if h : ∀ r ∈ t.rows, pk r ≠ pk row then
    ⟨t.rows ++ [row], t.primary.append fun r hr e => absurd (Option.some.inj e) (h r hr)⟩
  else t

@[simp] theorem restrict_rows (t : Table pk) (q : Row → Bool) : (t.restrict q).rows = t.rows.filter q := rfl

@[simp] theorem delete_rows (t : Table pk) (p : Row → Bool) : (t.delete p).rows = t.rows.filter fun r => !p r := rfl

@[simp] theorem update_rows (t : Table pk) (p : Row → Bool) (f : Row → Row) (hf : ∀ r, pk (f r) = pk r) :
    (t.update p f hf).rows = t.rows.map fun r => if p r then f r else r := rfl

theorem insert_rows [DecidableEq Key] {t : Table pk} {row : Row} (h : ∀ r ∈ t.rows, pk r ≠ pk row) :
    (t.insert row).rows = t.rows ++ [row] := by
  unfold insert
  rw [dif_pos h]

end Table

/-- A table whose key the server draws from a sequence: `next` is the value to come. -/
@[ext]
structure Serial (id : Row → Nat) extends Table id where
  next : Nat
  below : ∀ r ∈ rows, id r < next

namespace Serial

variable {id : Row → Nat}

def restrict (t : Serial id) (q : Row → Bool) : Serial id :=
  ⟨t.toTable.restrict q, t.next, fun r hr => t.below r (List.mem_filter.mp hr).1⟩

def delete (t : Serial id) (p : Row → Bool) : Serial id := t.restrict fun r => !p r

def update (t : Serial id) (p : Row → Bool) (f : Row → Row) (hf : ∀ r, id (f r) = id r) : Serial id where
  toTable := t.toTable.update p f hf
  next := t.next
  below := by
    intro r hr
    obtain ⟨r₀, h₀, rfl⟩ := List.mem_map.mp hr
    have hb := t.below r₀ h₀
    split
    · rw [hf]; exact hb
    · exact hb

/-- `nextval`, which no rollback takes back. -/
def draw (t : Serial id) : Serial id := ⟨t.toTable, t.next + 1, fun r hr => Nat.lt_succ_of_lt (t.below r hr)⟩

def insert (t : Serial id) (new : Nat → Row) (hid : ∀ n, id (new n) = n) : Serial id where
  rows := t.rows ++ [new t.next]
  primary := t.primary.append fun r hr e => by
    have hlt := t.below r hr
    rw [Option.some.inj e, hid] at hlt
    exact absurd hlt (Nat.lt_irrefl _)
  next := t.next + 1
  below := by
    intro r hr
    rcases List.mem_append.mp hr with hr | hr
    · exact Nat.lt_succ_of_lt (t.below r hr)
    · rw [List.mem_singleton.mp hr, hid]
      exact Nat.lt_succ_self _

@[simp] theorem restrict_rows (t : Serial id) (q : Row → Bool) : (t.restrict q).rows = t.rows.filter q := rfl

@[simp] theorem update_rows (t : Serial id) (p : Row → Bool) (f : Row → Row) (hf : ∀ r, id (f r) = id r) :
    (t.update p f hf).rows = t.rows.map fun r => if p r then f r else r := rfl

@[simp] theorem insert_rows (t : Serial id) (new : Nat → Row) (hid : ∀ n, id (new n) = n) :
    (t.insert new hid).rows = t.rows ++ [new t.next] := rfl

end Serial

/-! ## Queries -/

def insertDesc (key : Row → Int) (row : Row) : List Row → List Row
  | [] => [row]
  | r :: rows => if key r ≤ key row then row :: r :: rows else r :: insertDesc key row rows

/-- `ORDER BY key DESC`; rows with equal keys stay in the order of the scan. -/
def orderByDesc (key : Row → Int) (rows : List Row) : List Row := rows.foldr (insertDesc key) []

theorem mem_insertDesc {key : Row → Int} {row r : Row} {rows : List Row} :
    r ∈ insertDesc key row rows ↔ r = row ∨ r ∈ rows := by
  induction rows with
  | nil => simp [insertDesc]
  | cons a rows ih =>
    simp only [insertDesc]
    split
    · simp
    · simp only [List.mem_cons, ih]
      exact or_left_comm

@[simp] theorem mem_orderByDesc {key : Row → Int} {r : Row} {rows : List Row} :
    r ∈ orderByDesc key rows ↔ r ∈ rows := by
  induction rows with
  | nil => simp [orderByDesc]
  | cons a rows ih =>
    rw [orderByDesc, List.foldr_cons, mem_insertDesc, List.mem_cons]
    exact or_congr Iff.rfl ih

/-- `LIMIT limit OFFSET offset`. -/
def page (limit offset : Nat) (rows : List Row) : List Row := (rows.drop offset).take limit

theorem mem_of_mem_page {limit offset : Nat} {r : Row} {rows : List Row} (h : r ∈ page limit offset rows) :
    r ∈ rows :=
  List.mem_of_mem_drop (List.mem_of_mem_take h)

variable {Row' : Type}

/-- `left JOIN right ON on`. -/
def join (left : List Row) (right : List Row') (on : Row → Row' → Bool) : List (Row × Row') :=
  left.flatMap fun a => (right.filter (on a)).map (a, ·)

theorem mem_join {left : List Row} {right : List Row'} {on : Row → Row' → Bool} {x : Row × Row'} :
    x ∈ join left right on ↔ x.1 ∈ left ∧ x.2 ∈ right ∧ on x.1 x.2 = true := by
  obtain ⟨a, b⟩ := x
  simp only [join, List.mem_flatMap, List.mem_map, List.mem_filter, Prod.mk.injEq]
  constructor
  · intro h
    obtain ⟨a', ha, b', ⟨hb, hon⟩, rfl, rfl⟩ := h
    exact ⟨ha, hb, hon⟩
  · intro h
    obtain ⟨ha, hb, hon⟩ := h
    exact ⟨a, ha, b, ⟨hb, hon⟩, rfl, rfl⟩

/-! ## Statements that keep to a part of the table -/

theorem filter_restrict {p q : Row → Bool} (h : ∀ r, p r = true → q r = true) (rows : List Row) :
    (rows.filter q).filter p = rows.filter p := by
  rw [List.filter_filter]
  refine List.filter_congr fun r _ => ?_
  cases hp : p r
  · rfl
  · simp [h r hp]

theorem any_restrict {p q : Row → Bool} (h : ∀ r, p r = true → q r = true) (rows : List Row) :
    (rows.filter q).any p = rows.any p := by
  rw [List.any_filter]
  congr 1
  funext r
  cases hp : p r
  · exact Bool.and_false _
  · rw [h r hp, Bool.and_self]

theorem filter_outside {p q : Row → Bool} (h : ∀ r, p r = true → q r = true) (rows : List Row) :
    (rows.filter fun r => !p r).filter (fun r => !q r) = rows.filter fun r => !q r := by
  rw [List.filter_filter]
  refine List.filter_congr fun r _ => ?_
  cases hp : p r
  · simp
  · simp [h r hp]

theorem filter_comm (p q : Row → Bool) (rows : List Row) : (rows.filter p).filter q = (rows.filter q).filter p := by
  simp only [List.filter_filter, Bool.and_comm]

theorem filter_update {p q : Row → Bool} {f : Row → Row} (hq : ∀ r, q (f r) = q r) (rows : List Row) :
    (rows.map fun r => if p r then f r else r).filter q = (rows.filter q).map fun r => if p r then f r else r := by
  rw [List.filter_map]
  congr 1
  refine List.filter_congr fun r _ => ?_
  simp only [Function.comp]
  split
  · exact hq r
  · rfl

theorem filter_update_outside {p q : Row → Bool} {f : Row → Row} (h : ∀ r, p r = true → q r = true)
    (hq : ∀ r, q (f r) = q r) (rows : List Row) :
    (rows.map fun r => if p r then f r else r).filter (fun r => !q r) = rows.filter fun r => !q r := by
  rw [filter_update (q := fun r => !q r) fun r => by rw [hq r]]
  conv => rhs; rw [← List.map_id (rows.filter _)]
  refine List.map_congr_left fun r hr => ?_
  have hn : p r = false := by
    cases hp : p r
    · rfl
    · simp [h r hp] at hr
  simp [hn]

namespace Table

variable {pk : Row → Key} (t : Table pk) {p q : Row → Bool} {f : Row → Row}

theorem select_restrict (h : ∀ r, p r = true → q r = true) : (t.restrict q).select p = t.select p :=
  filter_restrict h t.rows

theorem count_restrict (h : ∀ r, p r = true → q r = true) : (t.restrict q).count p = t.count p := by
  rw [count, count, t.select_restrict h]

theorem delete_restrict (p q : Row → Bool) : (t.restrict q).delete p = (t.delete p).restrict q :=
  Table.ext (filter_comm q (fun r => !p r) t.rows)

theorem update_restrict (hf : ∀ r, pk (f r) = pk r) (hq : ∀ r, q (f r) = q r) :
    (t.restrict q).update p f hf = (t.update p f hf).restrict q :=
  Table.ext (filter_update hq t.rows).symm

theorem insert_restrict [DecidableEq Key] {row : Row} (h : ∀ r ∈ t.rows, pk r ≠ pk row) (hq : q row = true) :
    (t.restrict q).insert row = (t.insert row).restrict q := by
  refine Table.ext ?_
  have h' : ∀ r ∈ (t.restrict q).rows, pk r ≠ pk row := fun r hr => h r (List.mem_filter.mp hr).1
  simp [insert_rows h, insert_rows h', hq]

theorem delete_outside (h : ∀ r, p r = true → q r = true) :
    ((t.delete p).select fun r => !q r) = t.select fun r => !q r :=
  filter_outside h t.rows

theorem update_outside (hf : ∀ r, pk (f r) = pk r) (h : ∀ r, p r = true → q r = true) (hq : ∀ r, q (f r) = q r) :
    ((t.update p f hf).select fun r => !q r) = t.select fun r => !q r :=
  filter_update_outside h hq t.rows

theorem insert_outside [DecidableEq Key] {row : Row} (hq : q row = true) :
    ((t.insert row).select fun r => !q r) = t.select fun r => !q r := by
  unfold insert
  split
  · simp [select, hq]
  · rfl

end Table

namespace Serial

variable {id : Row → Nat} (t : Serial id) {p q : Row → Bool} {f : Row → Row}

theorem delete_restrict (p q : Row → Bool) : (t.restrict q).delete p = (t.delete p).restrict q :=
  Serial.ext (filter_comm q (fun r => !p r) t.rows) rfl

theorem update_restrict (hf : ∀ r, id (f r) = id r) (hq : ∀ r, q (f r) = q r) :
    (t.restrict q).update p f hf = (t.update p f hf).restrict q :=
  Serial.ext (filter_update hq t.rows).symm rfl

theorem insert_restrict (new : Nat → Row) (hid : ∀ n, id (new n) = n) (hq : q (new t.next) = true) :
    (t.restrict q).insert new hid = (t.insert new hid).restrict q :=
  Serial.ext (by simp [restrict, hq]) rfl

theorem insert_outside (new : Nat → Row) (hid : ∀ n, id (new n) = n) (hq : q (new t.next) = true) :
    ((t.insert new hid).select fun r => !q r) = t.select fun r => !q r := by
  simp [Table.select, hq]

end Serial

theorem join_restrict {p : Row → Bool} {q : Row' → Bool} {on : Row → Row' → Bool} {left : List Row}
    {right : List Row'}
    (hq : ∀ a b, on a b = true → q b = true) (hp : ∀ a, ∀ b ∈ right, on a b = true → p a = true) :
    join (left.filter p) (right.filter q) on = join left right on := by
  have hin : ∀ a, (right.filter q).filter (on a) = right.filter (on a) := fun a => filter_restrict (hq a) right
  simp only [join, hin]
  induction left with
  | nil => rfl
  | cons a left ih =>
    cases hpa : p a with
    | true => simp only [List.filter_cons, hpa, if_true, List.flatMap_cons, ih]
    | false =>
      have hnil : right.filter (on a) = [] := by
        refine List.filter_eq_nil_iff.mpr fun b hb hon => ?_
        simp [hp a b hb hon] at hpa
      simp only [List.filter_cons, hpa, List.flatMap_cons, hnil, List.map_nil, List.nil_append]
      exact ih

end Connect.Sql
