/-
  Connect.Data.LogPaging — the activity log page by page: `count_filtered`, then
  `list_filtered` at the offsets 0, limit, 2 * limit and so on below the count, while the
  table stays as it is.

  `created_at` is the only key of the order, and `now()` gives all rows of a transaction the
  same. Every query may scan the table in an order of its own, so two pages fit together
  only where no such group reaches over the edge between them (`paging_exact_iff`).
-/

import Connect.Data.Credentials
import Connect.Sql.Order

namespace Connect.Data

open Sql

structure LogFilter where
  category : Option String
  userId : Option Uuid
  includeAllUsers : Bool

/-- The rows of the table that match, as they are scanned. -/
def LogFilter.rows (f : LogFilter) (s : Tables) : List ActivityLog :=
  s.activityLogs.select (ActivityLogRepository.filtered f.category f.userId f.includeAllUsers)

/-- `count_filtered`, with the parameters the driver takes. -/
def countLogs (s : Tables) (f : LogFilter) : Except SqlError Nat :=
  if f.category.all isText then
    .ok (ActivityLogRepository.countFiltered s f.category f.userId f.includeAllUsers)
  else .error .dataError

/-- `list_filtered`, with the parameters the driver takes. -/
def listLogs (s : Tables) (f : LogFilter) (limit offset : Nat) : Except SqlError (List ActivityLog) :=
  if f.category.all isText && isLimit limit && isLimit offset then
    .ok (ActivityLogRepository.listFiltered s f.category f.userId f.includeAllUsers limit offset)
  else .error .dataError

/-- All pages, each from a scan of its own. -/
def pageThrough (s : Tables) (f : LogFilter) (limit : Nat) (scans : Nat → Serial ActivityLog.id) :
    Except SqlError (List ActivityLog) := do
  let count ← countLogs s f
  let pages ← (pyRange count limit).mapM fun offset => listLogs { s with activityLogs := scans offset } f limit offset
  return pages.flatten

/-- Every matching row once, the newest first, whatever the order of each scan. -/
def PagingExact (s : Tables) (f : LogFilter) (limit : Nat) : Prop :=
  ∀ scans : Nat → Serial ActivityLog.id, (∀ offset, (scans offset).rows.Perm s.activityLogs.rows) →
    ∃ rows, pageThrough s f limit scans = .ok rows ∧ Ordered ActivityLog.createdAt (f.rows s) rows

section Paging

variable {s : Tables} {f : LogFilter} {limit : Nat}

/-- As many rows match as there are keys of the column's type, at most. -/
theorem length_rows_le (hid : ∀ r ∈ s.activityLogs.rows, r.id ≤ maxInteger) : (f.rows s).length ≤ maxInteger + 1 := by
  have hnodup : (s.activityLogs.rows.map (·.id)).Nodup := by simpa [UniqueBy] using s.activityLogs.primary
  have hsub : ∀ i ∈ s.activityLogs.rows.map (·.id), i ∈ List.range (maxInteger + 1) := by
    intro i hi
    obtain ⟨r, hr, rfl⟩ := List.mem_map.mp hi
    exact List.mem_range.mpr (Nat.lt_succ_of_le (hid r hr))
  have hle := hnodup.length_le_of_subset hsub
  rw [List.length_map, List.length_range] at hle
  exact Nat.le_trans (List.length_filter_le _ _) hle

theorem offsets_cons {count : Nat} (hl : 0 < limit) (hc : 0 < count) : ∃ rest, pyRange count limit = 0 :: rest := by
  have hpages := le_pages hl count
  obtain ⟨more, hmore⟩ : ∃ more, (count + limit - 1) / limit = more + 1 := by
    refine Nat.exists_eq_succ_of_ne_zero fun h0 => ?_
    rw [h0] at hpages
    omega
  exact ⟨_, by rw [pyRange, hmore, List.range_succ_eq_map, List.map_cons]; rfl⟩

/-- A limit that the driver does not take is refused with the first page. -/
theorem limit_of_exact (hl : 0 < limit) (h : PagingExact s f limit) (ht : f.category.all isText = true)
    (hne : f.rows s ≠ []) :
    isLimit limit = true := by
  obtain ⟨rows, hrows, -⟩ := h (fun _ => s.activityLogs) fun _ => .refl _
  obtain ⟨rest, hrest⟩ := offsets_cons hl (List.length_pos_iff.mpr hne)
  apply Classical.byContradiction
  intro hn
  have hfirst : listLogs s f limit 0 = .error .dataError := by
    unfold listLogs
    rw [if_neg (by simp [hn])]
  have hcount : countLogs s f = .ok (f.rows s).length := by
    unfold countLogs
    rw [if_pos ht]
    rfl
  have herror : pageThrough s f limit (fun _ => s.activityLogs) = .error .dataError := by
    unfold pageThrough
    rw [hcount]
    show (do
      let pages ← (pyRange (f.rows s).length limit).mapM fun offset => listLogs s f limit offset
      return pages.flatten) = _
    rw [hrest, List.mapM_cons, hfirst]
    rfl
  rw [herror] at hrows
  cases hrows

theorem mem_offsets {count offset : Nat} (hl : 0 < limit) (h : offset ∈ pyRange count limit) : offset < count := by
  obtain ⟨k, hk, rfl⟩ := List.mem_map.mp h
  have hk := List.mem_range.mp hk
  have hmul : limit * (k + 1) ≤ limit * ((count + limit - 1) / limit) := Nat.mul_le_mul_left limit hk
  have hdiv := Nat.mul_div_le (count + limit - 1) limit
  rw [Nat.mul_succ] at hmul
  omega

/-- With parameters the driver takes, the pages are those of the answers. -/
theorem pageThrough_eq (hid : ∀ r ∈ s.activityLogs.rows, r.id ≤ maxInteger) (hl : 0 < limit)
    (ht : f.category.all isText = true)
    (hb : f.rows s = [] ∨ isLimit limit = true) (scans : Nat → Serial ActivityLog.id) :
    pageThrough s f limit scans = .ok (paged limit (f.rows s).length fun offset =>
      orderByDesc ActivityLog.createdAt
        ((scans offset).select (ActivityLogRepository.filtered f.category f.userId f.includeAllUsers))) := by
  have hlist : ∀ offset ∈ pyRange (f.rows s).length limit,
      listLogs { s with activityLogs := scans offset } f limit offset =
        .ok (page limit offset (orderByDesc ActivityLog.createdAt
          ((scans offset).select (ActivityLogRepository.filtered f.category f.userId f.includeAllUsers)))) := by
    intro offset ho
    have hlt := mem_offsets hl ho
    have hlen := length_rows_le (f := f) hid
    have hlimit : isLimit limit = true := by
      rcases hb with hnil | hlimit
      · rw [hnil] at hlt
        cases hlt
      · exact hlimit
    have hoffset : isLimit offset = true := by
      simp only [maxInteger] at hlen
      simp only [isLimit, Bool.and_eq_true, decide_eq_true_eq]
      omega
    rw [listLogs, if_pos (by simp [ht, hlimit, hoffset])]
    rfl
  unfold pageThrough countLogs
  rw [if_pos ht]
  show (do
    let pages ← (pyRange (f.rows s).length limit).mapM
      fun offset => listLogs { s with activityLogs := scans offset } f limit offset
    return pages.flatten) = _
  rw [mapM_eq_ok hlist, paged, List.flatMap_def]
  rfl

end Paging

/-- The pages give every matching row once and the newest first, if and only if the driver takes
    the parameters and no group of rows of one `created_at` reaches over the edge of a page. -/
theorem paging_exact_iff (s : Tables) (hid : ∀ r ∈ s.activityLogs.rows, r.id ≤ maxInteger) (f : LogFilter)
    (limit : Nat) (hl : 0 < limit) :
    PagingExact s f limit ↔
      f.category.all isText = true ∧ (f.rows s = [] ∨ isLimit limit = true) ∧
        ∀ k, CleanAt ActivityLog.createdAt (f.rows s) (limit * k) := by
  have hnodup : (f.rows s).Nodup := s.activityLogs.nodup.filter _
  constructor
  · intro h
    have ht : f.category.all isText = true := by
      obtain ⟨rows, hrows, -⟩ := h (fun _ => s.activityLogs) fun _ => .refl _
      apply Classical.byContradiction
      intro hn
      unfold pageThrough countLogs at hrows
      rw [if_neg hn] at hrows
      cases hrows
    have hb : f.rows s = [] ∨ isLimit limit = true :=
      (Classical.em (f.rows s = [])).imp_right fun hne => limit_of_exact hl h ht hne
    refine ⟨ht, hb, (paged_ordered_iff hl hnodup).mp fun outs houts => ?_⟩
    have hscan := fun offset => (houts offset).scan
    obtain ⟨scans, hscans⟩ := Classical.axiomOfChoice hscan
    obtain ⟨rows, hrows, hordered⟩ := h scans fun offset => (hscans offset).1
    rw [pageThrough_eq hid hl ht hb] at hrows
    cases hrows
    simpa only [(hscans _).2] using hordered
  · intro h scans hscans
    obtain ⟨ht, hb, hclean⟩ := h
    refine ⟨_, pageThrough_eq hid hl ht hb scans, ?_⟩
    refine (paged_ordered_iff hl hnodup).mpr hclean _ fun offset => ?_
    exact ordered_scan _ _ (hscans offset)

def logAt (id : Nat) (createdAt : Int) : ActivityLog :=
  ⟨id, "app", "login", "", "info", none, none, none, none, none, createdAt⟩

/-- Two entries, written at two times or in one transaction. -/
def twoLogs (first second : Int) : Tables :=
  { fresh [] with activityLogs := ⟨⟨[logAt 1 first, logAt 2 second], by simp [UniqueBy, logAt]⟩, 3, by simp [logAt]⟩ }

def everyLog : LogFilter := ⟨none, none, true⟩

theorem paging_exact_two : PagingExact (twoLogs 0 1) everyLog 1 := by
  refine (paging_exact_iff (twoLogs 0 1) (by decide) everyLog 1 (by decide)).mpr ⟨rfl, Or.inr rfl, fun k r hr => ?_⟩
  have hr : r = logAt 1 0 ∨ r = logAt 2 1 := by
    simpa [LogFilter.rows, twoLogs, everyLog, Table.select, ActivityLogRepository.filtered] using hr
  rcases hr with rfl | rfl
  · have hnewer : newer ActivityLog.createdAt (everyLog.rows (twoLogs 0 1)) (logAt 1 0) = 1 := by decide
    have hatLeast : atLeast ActivityLog.createdAt (everyLog.rows (twoLogs 0 1)) (logAt 1 0) = 2 := by decide
    omega
  · have hatLeast : atLeast ActivityLog.createdAt (everyLog.rows (twoLogs 0 1)) (logAt 2 1) = 1 := by decide
    omega

/-- Pages of one entry: the second query may give the entry of the first again. -/
theorem paging_not_exact : ¬PagingExact (twoLogs 0 0) everyLog 1 := by
  intro h
  have hswap : [logAt 2 0, logAt 1 0].Perm (twoLogs 0 0).activityLogs.rows := .swap _ _ _
  obtain ⟨rows, hrows, hordered⟩ := h
    (fun offset => if offset = 0 then (twoLogs 0 0).activityLogs else (twoLogs 0 0).activityLogs.rescan _ hswap) (by
    intro offset
    split
    · exact .refl _
    · exact hswap)
  have htwice : rows = [logAt 1 0, logAt 1 0] := (Except.ok.inj hrows).symm
  have hmissing : logAt 2 0 ∈ rows := hordered.perm.mem_iff.mpr (List.mem_cons_of_mem _ List.mem_cons_self)
  rw [htwice] at hmissing
  simp [logAt] at hmissing

end Connect.Data
