/-
  Connect.Sql.Order — ORDER BY with a key that several rows may share, and the pages of its
  answers under LIMIT and OFFSET.

  `Ordered key rows out`: `out` is an answer to `SELECT ... ORDER BY key DESC` over these rows.
  Rows with equal keys come in any order, in each query anew; `orderByDesc` gives every
  answer, one for each order of the scan (`ordered_orderByDesc`, `orderByDesc_ordered`).

  Of the rows one knows from the keys alone where they stand: behind those with a greater
  key, among those with the same. So the pages of several queries fit together when no group
  of equal keys reaches over the edge of a page, and only then (`paged_ordered_iff`): over
  the edge, the row before it and the row behind it may change places between two queries.
-/

import Connect.Sql.Table
import Connect.Py

namespace Connect.Sql

variable {Row : Type} {key : Row → Int} {rows out : List Row}

structure Ordered (key : Row → Int) (rows out : List Row) : Prop where
  perm : out.Perm rows
  desc : out.Pairwise fun a b => key b ≤ key a

theorem insertDesc_perm (key : Row → Int) (row : Row) (rows : List Row) :
    (insertDesc key row rows).Perm (row :: rows) := by
  induction rows with
  | nil => exact .refl _
  | cons r rows ih =>
    unfold insertDesc
    split
    · exact .refl _
    · exact (ih.cons r).trans (.swap row r rows)

theorem insertDesc_desc {row : Row} (h : rows.Pairwise fun a b => key b ≤ key a) :
    (insertDesc key row rows).Pairwise fun a b => key b ≤ key a := by
  induction rows with
  | nil => simp [insertDesc]
  | cons r rows ih =>
    obtain ⟨hr, hrows⟩ := List.pairwise_cons.mp h
    unfold insertDesc
    split
    · rename_i hle
      refine List.pairwise_cons.mpr ⟨fun b hb => ?_, h⟩
      rcases List.mem_cons.mp hb with rfl | hb
      · exact hle
      · exact Int.le_trans (hr b hb) hle
    · refine List.pairwise_cons.mpr ⟨fun b hb => ?_, ih hrows⟩
      rcases mem_insertDesc.mp hb with rfl | hb
      · omega
      · exact hr b hb

theorem ordered_orderByDesc (key : Row → Int) (rows : List Row) : Ordered key rows (orderByDesc key rows) := by
  unfold orderByDesc
  induction rows with
  | nil => exact ⟨.refl _, .nil⟩
  | cons r rows ih => exact ⟨(insertDesc_perm key r _).trans (ih.perm.cons r), insertDesc_desc ih.desc⟩

/-- What stands in order stays as it is. -/
theorem orderByDesc_ordered (h : out.Pairwise fun a b => key b ≤ key a) : orderByDesc key out = out := by
  induction out with
  | nil => rfl
  | cons r out ih =>
    obtain ⟨hr, hout⟩ := List.pairwise_cons.mp h
    rw [orderByDesc, List.foldr_cons]
    show insertDesc key r (orderByDesc key out) = _
    rw [ih hout]
    cases out with
    | nil => rfl
    | cons b out => rw [insertDesc, if_pos (hr b List.mem_cons_self)]

/-- The same table, scanned in another order. -/
def Serial.rescan {id : Row → Nat} (t : Serial id) (rows : List Row) (h : rows.Perm t.rows) : Serial id where
  rows := rows
  primary := (h.filterMap _).nodup_iff.mpr t.primary
  next := t.next
  below r hr := t.below r (h.mem_iff.mp hr)

theorem ordered_scan (key : Row → Int) {id : Row → Nat} {t scan : Serial id} (p : Row → Bool)
    (h : scan.rows.Perm t.rows) :
    Ordered key (t.select p) (orderByDesc key (scan.select p)) := by
  have hout := ordered_orderByDesc key (scan.select p)
  exact ⟨hout.perm.trans (h.filter p), hout.desc⟩

/-- Every answer comes from some scan of the table. -/
theorem Ordered.scan {id : Row → Nat} {t : Serial id} {p : Row → Bool} (h : Ordered key (t.select p) out) :
    ∃ t' : Serial id, t'.rows.Perm t.rows ∧ orderByDesc key (t'.select p) = out := by
  have hrows : (out ++ t.rows.filter fun r => !p r).Perm t.rows :=
    (h.perm.append_right _).trans (List.filter_append_perm p _)
  refine ⟨t.rescan _ hrows, hrows, ?_⟩
  have hselect : (t.rescan _ hrows).select p = out := by
    have hp : ∀ r ∈ out, p r = true := fun r hr => (List.mem_filter.mp (h.perm.mem_iff.mp hr)).2
    show (out ++ t.rows.filter fun r => !p r).filter p = out
    rw [List.filter_append, List.filter_eq_self.mpr hp, List.filter_filter]
    simp
  rw [hselect]
  exact orderByDesc_ordered h.desc

/-- What holds of the query over every scan holds of every answer. -/
theorem forall_scan_iff {id : Row → Nat} {t : Serial id} {p : Row → Bool} (P : List Row → Prop) :
    (∀ scan : Serial id, scan.rows.Perm t.rows → P (orderByDesc key (scan.select p))) ↔
    ∀ out, Ordered key (t.select p) out → P out := by
  constructor
  · intro h out hout
    obtain ⟨scan, hperm, rfl⟩ := hout.scan
    exact h scan hperm
  · intro h scan hperm
    exact h _ (ordered_scan key p hperm)

/-- Under a primary key no row stands twice. -/
theorem Table.nodup {Key : Type} {pk : Row → Key} (t : Table pk) : t.rows.Nodup := by
  have h : (t.rows.map pk).Nodup := by simpa [UniqueBy] using t.primary
  exact (List.pairwise_map.mp h).imp fun hne he => hne (congrArg pk he)

/-! ## Where a row stands -/

/-- How many rows have a greater key. -/
def newer (key : Row → Int) (rows : List Row) (r : Row) : Nat := rows.countP fun a => decide (key r < key a)

/-- How many have as great a key, the row itself among them. -/
def atLeast (key : Row → Int) (rows : List Row) (r : Row) : Nat := rows.countP fun a => decide (key r ≤ key a)

theorem Ordered.newer_eq (h : Ordered key rows out) (r : Row) : newer key out r = newer key rows r :=
  h.perm.countP_eq _

theorem Ordered.atLeast_eq (h : Ordered key rows out) (r : Row) : atLeast key out r = atLeast key rows r :=
  h.perm.countP_eq _

section Place

variable {front back : List Row} {r z : Row}

/-- The rows with a greater key stand in front. -/
theorem newer_le (h : (front ++ z :: back).Pairwise fun a b => key b ≤ key a) :
    newer key (front ++ z :: back) z ≤ front.length := by
  obtain ⟨-, hz, -⟩ := List.pairwise_append.mp h
  have hback : back.countP (fun a => decide (key z < key a)) = 0 := by
    refine List.countP_eq_zero.mpr fun a ha => ?_
    have := (List.pairwise_cons.mp hz).1 a ha
    simp only [decide_eq_true_eq]
    omega
  have hfront := List.countP_le_length (p := fun a => decide (key z < key a)) (l := front)
  simp only [newer, List.countP_append, List.countP_cons, hback, Int.lt_irrefl, decide_false]
  simpa using hfront

/-- And the rows in front have as great a key. -/
theorem lt_atLeast (h : (front ++ z :: back).Pairwise fun a b => key b ≤ key a) :
    front.length < atLeast key (front ++ z :: back) z := by
  obtain ⟨-, -, hfront⟩ := List.pairwise_append.mp h
  have hall : front.countP (fun a => decide (key z ≤ key a)) = front.length := by
    refine List.countP_eq_length.mpr fun a ha => ?_
    simpa using hfront a ha z List.mem_cons_self
  simp only [atLeast, List.countP_append, List.countP_cons, hall, Int.le_refl, decide_true, if_true]
  omega

/-- A row with the place of a group has the key of the group. -/
theorem key_eq (h : (front ++ z :: back).Pairwise fun a b => key b ≤ key a)
    (hlo : newer key (front ++ z :: back) r ≤ front.length)
    (hhi : front.length < atLeast key (front ++ z :: back) r) : key z = key r := by
  obtain ⟨-, hz, hfront⟩ := List.pairwise_append.mp h
  apply Classical.byContradiction
  intro hne
  rcases Int.lt_or_gt_of_ne hne with hlt | hgt
  · have hnone : (z :: back).countP (fun a => decide (key r ≤ key a)) = 0 := by
      refine List.countP_eq_zero.mpr fun a ha => ?_
      simp only [decide_eq_true_eq]
      rcases List.mem_cons.mp ha with rfl | ha
      · omega
      · have := (List.pairwise_cons.mp hz).1 a ha
        omega
    have hle := List.countP_le_length (p := fun a => decide (key r ≤ key a)) (l := front)
    rw [atLeast, List.countP_append, hnone] at hhi
    omega
  · have hall : front.countP (fun a => decide (key r < key a)) = front.length := by
      refine List.countP_eq_length.mpr fun a ha => ?_
      have := hfront a ha z List.mem_cons_self
      simp only [decide_eq_true_eq]
      omega
    have hz1 : decide (key r < key z) = true := by
      simp only [decide_eq_true_eq]
      omega
    rw [newer, List.countP_append, hall, List.countP_cons, if_pos hz1] at hlo
    omega

end Place

section Edge

variable {r : Row} {edge : Nat}

/-- A row in front of this place has fewer rows with a greater key. -/
theorem Ordered.newer_take (h : Ordered key rows out) (hr : r ∈ out.take edge) : newer key rows r < edge := by
  obtain ⟨front, back, he⟩ := List.append_of_mem hr
  have hout : out = front ++ r :: (back ++ out.drop edge) := by
    rw [← List.cons_append, ← List.append_assoc, ← he, List.take_append_drop]
  have hle := newer_le (hout ▸ h.desc)
  rw [← hout, h.newer_eq] at hle
  have hlen := congrArg List.length he
  simp only [List.length_take, List.length_append, List.length_cons] at hlen
  omega

/-- A row behind it has more with as great a key. -/
theorem Ordered.atLeast_drop (h : Ordered key rows out) (hr : r ∈ out.drop edge) : edge < atLeast key rows r := by
  obtain ⟨front, back, he⟩ := List.append_of_mem hr
  have hout : out = (out.take edge ++ front) ++ r :: back := by rw [List.append_assoc, ← he, List.take_append_drop]
  have hlt := lt_atLeast (hout ▸ h.desc)
  rw [← hout, h.atLeast_eq, List.length_append, List.length_take] at hlt
  have hpos := List.length_pos_of_mem hr
  rw [List.length_drop] at hpos
  omega

theorem newer_lt_length (key : Row → Int) (hr : r ∈ rows) : newer key rows r < rows.length := by
  have hout := ordered_orderByDesc key rows
  refine hout.newer_take ?_
  rw [← hout.perm.length_eq, List.take_length]
  exact hout.perm.mem_iff.mpr hr

end Edge

/-! ## The first rows -/

/-- A row may come behind all others of its key. -/
theorem ordered_behind (key : Row → Int) {r : Row} (hr : r ∈ rows) :
    ∃ before after, Ordered key rows (before ++ r :: after) ∧ before.length + 1 = atLeast key rows r := by
  obtain ⟨front, back, rfl⟩ := List.append_of_mem hr
  have hothers := ordered_orderByDesc key (front ++ back)
  refine ⟨(orderByDesc key (front ++ back)).filter fun a => decide (key r ≤ key a),
    (orderByDesc key (front ++ back)).filter fun a => !decide (key r ≤ key a), ⟨?_, ?_⟩, ?_⟩
  · have hsplit := (List.filter_append_perm (fun a => decide (key r ≤ key a))
      (orderByDesc key (front ++ back))).trans hothers.perm
    exact List.perm_middle.trans ((hsplit.cons r).trans List.perm_middle.symm)
  · refine List.pairwise_append.mpr ⟨hothers.desc.filter _,
      List.pairwise_cons.mpr ⟨fun b hb => ?_, hothers.desc.filter _⟩, fun a ha b hb => ?_⟩
    · have := (List.mem_filter.mp hb).2
      simp only [Bool.not_eq_true', decide_eq_false_iff_not] at this
      omega
    · have hra := (List.mem_filter.mp ha).2
      simp only [decide_eq_true_eq] at hra
      rcases List.mem_cons.mp hb with rfl | hb
      · exact hra
      · have := (List.mem_filter.mp hb).2
        simp only [Bool.not_eq_true', decide_eq_false_iff_not] at this
        omega
  · rw [← List.countP_eq_length_filter, hothers.perm.countP_eq]
    simp only [atLeast, List.countP_append, List.countP_cons, Int.le_refl, decide_true, if_true]
    omega

/-- Among the first rows all that satisfy `p` are counted, whatever the order of the ties, if and
    only if each of them has at most so many rows with as great a key. -/
theorem countP_take_iff (p : Row → Bool) (limit : Nat) :
    (∀ out, Ordered key rows out → (out.take limit).countP p = rows.countP p) ↔ ∀ r ∈ rows, p r = true →
    atLeast key rows r ≤ limit := by
  constructor
  · intro h r hr hp
    apply Nat.le_of_not_lt
    intro hlt
    obtain ⟨before, after, hout, hlen⟩ := ordered_behind key hr
    have hcount := h _ hout
    rw [List.take_append_of_le_length (by omega), ← hout.perm.countP_eq, List.countP_append,
      List.countP_cons, if_pos hp] at hcount
    have hle := (List.take_sublist limit before).countP_le (p := p)
    omega
  · intro h out hout
    have hnone : (out.drop limit).countP p = 0 := by
      refine List.countP_eq_zero.mpr fun r hr hp => ?_
      have hlt := hout.atLeast_drop hr
      have hle := h r (hout.perm.mem_iff.mp (List.mem_of_mem_drop hr)) hp
      omega
    have hsum := congrArg (List.countP p) (List.take_append_drop limit out)
    rw [List.countP_append, hnone] at hsum
    rw [← hout.perm.countP_eq, ← hsum, Nat.add_zero]

/-! ## Pages -/

/-- No group of rows with equal keys stands on both sides of this place. -/
def CleanAt (key : Row → Int) (rows : List Row) (edge : Nat) : Prop :=
  ∀ r ∈ rows, ¬(newer key rows r < edge ∧ edge < atLeast key rows r)

/-- What stands in front of a clean place does not go by the order of the ties. -/
theorem Ordered.take_perm (h : Ordered key rows out) {edge : Nat} (hc : CleanAt key rows edge) :
    (out.take edge).Perm (rows.filter fun r => decide (newer key rows r < edge)) := by
  have hsplit : out.filter (fun r => decide (newer key rows r < edge)) = out.take edge := by
    conv => lhs; rw [← List.take_append_drop edge out]
    rw [List.filter_append, List.filter_eq_self.mpr, List.filter_eq_nil_iff.mpr, List.append_nil]
    · intro r hr
      have hlt := h.atLeast_drop hr
      have hclean := hc r (h.perm.mem_iff.mp (List.mem_of_mem_drop hr))
      simp only [decide_eq_true_eq]
      exact fun hnewer => hclean ⟨hnewer, hlt⟩
    · intro r hr
      simp only [decide_eq_true_eq]
      exact h.newer_take hr
  rw [← hsplit]
  exact h.perm.filter _

/-- The pages at the offsets below the number of rows, each of an answer of its own. -/
def paged (limit count : Nat) (outs : Nat → List Row) : List Row :=
  (pyRange count limit).flatMap fun offset => page limit offset (outs offset)

/-- So many pages, put together. -/
theorem pages_take {limit : Nat} (hc : ∀ k, CleanAt key rows (limit * k)) {outs : Nat → List Row}
    (ho : ∀ offset, Ordered key rows (outs offset)) (count : Nat) :
    ((List.range count).flatMap fun k => page limit (limit * k) (outs (limit * k))).Perm
        (rows.filter fun r => decide (newer key rows r < limit * count)) ∧
      ((List.range count).flatMap fun k => page limit (limit * k) (outs (limit * k))).Pairwise
      fun a b => key b ≤ key a := by
  induction count with
  | zero =>
    have hnone : rows.filter (fun r => decide (newer key rows r < limit * 0)) = [] := by simp
    rw [hnone]
    exact ⟨.refl _, .nil⟩
  | succ count ih =>
    obtain ⟨hperm, hdesc⟩ := ih
    have hout := ho (limit * count)
    have hlast : ((List.range (count + 1)).flatMap fun k => page limit (limit * k) (outs (limit * k))) =
        ((List.range count).flatMap fun k => page limit (limit * k) (outs (limit * k))) ++
        page limit (limit * count) (outs (limit * count)) := by
      rw [List.range_succ, List.flatMap_append, List.flatMap_singleton]
    have htake : (outs (limit * count)).take (limit * (count + 1)) =
        (outs (limit * count)).take (limit * count) ++ page limit (limit * count) (outs (limit * count)) := by
      rw [Nat.mul_succ, List.take_add]
      rfl
    have hbefore := hperm.trans (hout.take_perm (hc count)).symm
    rw [hlast]
    constructor
    · refine .trans (hbefore.append_right _) ?_
      rw [← htake]
      exact hout.take_perm (hc (count + 1))
    · have hd := hout.desc.sublist (List.take_sublist (limit * (count + 1)) _)
      rw [htake] at hd
      obtain ⟨-, hpage, hcross⟩ := List.pairwise_append.mp hd
      exact List.pairwise_append.mpr ⟨hdesc, hpage, fun a ha b hb => hcross a (hbefore.mem_iff.mp ha) b hb⟩

theorem paged_eq (limit count : Nat) (outs : Nat → List Row) :
    paged limit count outs = (List.range ((count + limit - 1) / limit)).flatMap
    fun k => page limit (limit * k) (outs (limit * k)) := by
  rw [paged, pyRange, List.flatMap_map]

/-- The pages reach to the end. -/
theorem le_pages {limit : Nat} (hl : 0 < limit) (count : Nat) : count ≤ limit * ((count + limit - 1) / limit) := by
  have hdiv := Nat.div_add_mod (count + limit - 1) limit
  have hmod := Nat.mod_lt (count + limit - 1) hl
  omega

/-- Neighbours with equal keys may change places. -/
theorem Ordered.swap {front back : List Row} {x y : Row} (h : Ordered key rows (front ++ x :: y :: back))
    (hk : key x = key y) :
    Ordered key rows (front ++ y :: x :: back) where
  perm := (List.Perm.append_left front (.swap x y back)).trans h.perm
  desc := by
    have hdesc : ((front ++ x :: y :: back).map key).Pairwise fun a b => b ≤ a := List.pairwise_map.mpr h.desc
    have hsame : (front ++ x :: y :: back).map key = (front ++ y :: x :: back).map key := by simp [hk]
    rw [hsame] at hdesc
    exact List.pairwise_map.mp hdesc

/-- The two rows on the sides of an edge that ties reach over. -/
theorem tied_neighbours {edge : Nat} (hpos : 0 < edge) (h : ¬CleanAt key rows edge) :
    ∃ front x y back, Ordered key rows (front ++ x :: y :: back) ∧ front.length + 1 = edge ∧ key x = key y := by
  simp only [CleanAt, Classical.not_forall, Classical.not_not] at h
  obtain ⟨r, hr, hlo, hhi⟩ := h
  have hout := ordered_orderByDesc key rows
  have hcount : atLeast key rows r ≤ rows.length := List.countP_le_length
  have hlen := hout.perm.length_eq
  obtain ⟨front, x, y, back, hall, hfront⟩ :
    ∃ front x y back, orderByDesc key rows = front ++ x :: y :: back ∧ front.length + 1 = edge := by
    obtain ⟨before, rfl⟩ := Nat.exists_eq_succ_of_ne_zero (Nat.ne_of_gt hpos)
    refine ⟨(orderByDesc key rows).take before, (orderByDesc key rows)[before], (orderByDesc key rows)[before + 1],
      (orderByDesc key rows).drop (before + 1 + 1), ?_, ?_⟩
    · rw [← List.drop_eq_getElem_cons, ← List.drop_eq_getElem_cons, List.take_append_drop]
    · rw [List.length_take]
      omega
  rw [hall] at hout
  refine ⟨front, x, y, back, hout, hfront, ?_⟩
  have hassoc : front ++ x :: y :: back = (front ++ [x]) ++ y :: back := by simp
  have hx : key x = key r := by
    refine key_eq hout.desc ?_ ?_
    · rw [hout.newer_eq]
      omega
    · rw [hout.atLeast_eq]
      omega
  have hy : key y = key r := by
    rw [hassoc] at hout
    refine key_eq hout.desc ?_ ?_
    · rw [hout.newer_eq, List.length_append, List.length_singleton]
      omega
    · rw [hout.atLeast_eq, List.length_append, List.length_singleton]
      omega
  rw [hx, hy]

/-- The pages fit together, whatever the order of the ties in each query, if and only if no group
    of ties reaches over an edge. -/
theorem paged_ordered_iff {limit : Nat} (hl : 0 < limit) (hd : rows.Nodup) :
    (∀ outs : Nat → List Row, (∀ offset, Ordered key rows (outs offset)) →
      Ordered key rows (paged limit rows.length outs)) ↔
      ∀ k, CleanAt key rows (limit * k) := by
  constructor
  · intro h k
    apply Classical.byContradiction
    intro hedge
    have hpos : 0 < limit * k := by
      apply Nat.pos_of_ne_zero
      intro h0
      rw [h0] at hedge
      exact hedge fun r _ hr => Nat.not_lt_zero _ hr.1
    obtain ⟨front, x, y, back, hout, hfront, hk⟩ := tied_neighbours hpos hedge
    -- the queries up to the edge put x before y, and the others y before x
    have hpaged := h (fun offset => if offset < limit * k then front ++ x :: y :: back else front ++ y ::
      x :: back) (fun offset => by
      split
      · exact hout
      · exact hout.swap hk)
    have hlen : limit * k < rows.length := by
      rw [← hout.perm.length_eq, List.length_append, List.length_cons, List.length_cons]
      omega
    obtain ⟨more, hmore⟩ : ∃ more, (rows.length + limit - 1) / limit = k + (more + 1) := by
      have hall := le_pages hl rows.length
      have hlt : k < (rows.length + limit - 1) / limit := Nat.lt_of_mul_lt_mul_left (Nat.lt_of_lt_of_le hlen hall)
      exact ⟨(rows.length + limit - 1) / limit - k - 1, by omega⟩
    have hnodup := hpaged.perm.nodup_iff.mpr hd
    rw [paged_eq, hmore, List.range_add, List.flatMap_append, List.nodup_append] at hnodup
    refine hnodup.2.2 x ?_ x ?_ rfl
    · have hfirst : ∀ j ∈ List.range k,
          page limit (limit * j) (if limit * j < limit * k then front ++ x :: y :: back else front ++
          y :: x :: back) =
            slice (front ++ x :: y :: back) (limit * j) limit := by
        intro j hj
        rw [if_pos (Nat.mul_lt_mul_of_pos_left (List.mem_range.mp hj) hl)]
        rfl
      rw [List.flatMap_def, List.map_congr_left hfirst, ← List.flatMap_def, flatMap_slice, ← hfront]
      simp [List.take_append]
    · refine List.mem_flatMap.mpr ⟨k + 0, List.mem_map_of_mem (List.mem_range.mpr (Nat.succ_pos more)), ?_⟩
      have hassoc : front ++ y :: x :: back = (front ++ [y]) ++ x :: back := by simp
      have hdrop : (front ++ y :: x :: back).drop (limit * k) = x :: back := by
        rw [hassoc]
        exact List.drop_left' (by simp [hfront])
      rw [Nat.add_zero, if_neg (Nat.lt_irrefl _), page, hdrop]
      exact List.mem_take_iff_getElem.mpr ⟨0, by rw [List.length_cons]; omega, rfl⟩
  · intro h outs ho
    obtain ⟨hperm, hdesc⟩ := pages_take h ho ((rows.length + limit - 1) / limit)
    rw [paged_eq]
    refine ⟨hperm.trans ?_, hdesc⟩
    rw [List.filter_eq_self.mpr]
    intro r hr
    have hlt := newer_lt_length key hr
    have hall := le_pages hl rows.length
    simp only [decide_eq_true_eq]
    omega

end Connect.Sql
