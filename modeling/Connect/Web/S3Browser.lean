/-
  Connect.Web.S3Browser — the S3 browser of main.py: the prefix that `browse_datastore_back`
  goes to, and the page of a listing that `browse_datastore` shows.

  S3 rolls the keys under a prefix up at the next slash, so a folder's key is the prefix with
  one name and a slash behind it, and the name is empty where slashes meet. Going back takes
  off all slashes at the end, then the last name. It leads where the drilling came from
  unless the name is empty or the prefix is a lone slash (`back_eq_iff`): for every folder
  under every prefix one can reach exactly when no key in the bucket has two slashes side by
  side, or a slash behind one that it begins with (`back_undoes_iff`).

  A listing is shown in slices of the clamped size (`pages_partition`). The quotient
  of two Python ints is a float, whose ceiling is exact for any list that fits in memory.
-/

import Connect.S3.ListObjects
import Mathlib.Data.Rat.Floor

namespace Connect.Web

open S3

/-! ## Going back -/

/-- The prefix that `browse_datastore_back` browses. -/
def browseDatastoreBack (keyPrefix : String) : String :=
  if keyPrefix = "" then ""
  else
    let parts := Path.split (rstripSlash keyPrefix)
    let newPrefix := Path.join parts.dropLast
    if newPrefix = "" then "" else newPrefix ++ "/"

example : browseDatastoreBack "a/b/" = "a/" := by decide

/-- The common prefix that S3 rolls a key up to, under a prefix and with delimiter "/". -/
def rollUp (keyPrefix key : String) : Option String :=
  if keyPrefix.toList.isPrefixOf key.toList then
    let rest := key.toList.drop keyPrefix.toList.length
    if '/' ∈ rest then some (keyPrefix ++ String.ofList (rest.takeWhile (· != '/')) ++ "/") else none
  else none

/-- These are the pages S3 gives for a prefix of these objects. -/
structure Gives (objects : List S3Object) (keyPrefix : String) (pages : List ListPage) : Prop where
  linked : Linked pages
  prefixes : ∀ p, (∃ page ∈ pages, p ∈ page.commonPrefixes.getD []) ↔
    ∃ obj ∈ objects, rollUp keyPrefix obj.key = some p
  contents : ∀ obj, (∃ page ∈ pages, obj ∈ page.contents.getD []) ↔
    obj ∈ objects ∧ keyPrefix.toList.isPrefixOf obj.key.toList = true ∧ rollUp keyPrefix obj.key = none

theorem takeWhile_name {name : List Char} (rest : List Char) (h : '/' ∉ name) :
    (name ++ '/' :: rest).takeWhile (· != '/') = name := by
  rw [List.takeWhile_append_of_pos]
  · simp
  · intro c hc
    have hne : c ≠ '/' := fun he => h (he ▸ hc)
    simpa using hne

/-- What a key is rolled up to: the prefix, one name, and a slash. -/
theorem rollUp_iff (keyPrefix key p : String) :
    rollUp keyPrefix key = some p ↔
      ∃ name rest, '/' ∉ name.toList ∧ key = keyPrefix ++ name ++ "/" ++ rest ∧ p = keyPrefix ++ name ++ "/" := by
  unfold rollUp
  constructor
  · intro h
    split at h
    · rename_i hprefix
      obtain ⟨tail, htail⟩ := List.isPrefixOf_iff_prefix.mp hprefix
      simp only [← htail, List.drop_left, Option.ite_none_right_eq_some, Option.some.injEq] at h
      obtain ⟨hslash, rfl⟩ := h
      obtain ⟨name, rest, rfl, hname⟩ := List.eq_append_cons_of_mem hslash
      rw [takeWhile_name rest hname]
      refine ⟨String.ofList name, String.ofList rest, by simpa using hname, ?_, rfl⟩
      rw [← String.toList_inj, ← htail]
      simp
    · cases h
  · intro h
    obtain ⟨name, rest, hname, rfl, rfl⟩ := h
    simp [takeWhile_name rest.toList hname]

theorem rstripSlash_slash (s : String) : rstripSlash (s ++ "/") = rstripSlash s := by
  simp [rstripSlash, dropSlashes]

/-- A name at the end stays. -/
theorem rstripSlash_name (s : String) {name : String} (hname : '/' ∉ name.toList) (hne : name ≠ "") :
    rstripSlash (s ++ name) = s ++ name := by
  unfold rstripSlash
  cases hr : name.toList.reverse with
  | nil => exact absurd (by simpa using hr) hne
  | cons c cs =>
    have hc : c ≠ '/' := by
      intro he
      apply hname
      rw [← List.mem_reverse, hr, he]
      exact List.mem_cons_self
    have hkeep : dropSlashes (s ++ name).toList.reverse = (s ++ name).toList.reverse := by
      simp [hr, dropSlashes, hc]
    rw [hkeep]
    simp

theorem length_rstripSlash_le (s : String) : (rstripSlash s).length ≤ s.length := by
  obtain ⟨n, hn⟩ := Path.dropSlashes_spec s.toList.reverse
  have hlen := congrArg List.length hn
  simp only [List.length_append, List.length_reverse, List.length_replicate] at hlen
  rw [rstripSlash, String.length_ofList, List.length_reverse, ← String.length_toList]
  omega

/-- Behind no slash there is nothing to go back to but the top. -/
theorem back_top {key : String} (h : '/' ∉ (rstripSlash key).toList) : browseDatastoreBack key = "" := by
  simp [browseDatastoreBack, Path.split_single h, Path.join]

theorem back_cut {key front base : String} (hk : key ≠ "") (h : rstripSlash key = front ++ "/" ++ base)
    (hb : '/' ∉ base.toList) :
    browseDatastoreBack key = if front = "" then "" else front ++ "/" := by
  simp only [browseDatastoreBack, if_neg hk, h, Path.split_dropLast hb, Path.join_split]

/-- Going back never leads to more than what is left of the key without its last slashes. -/
theorem length_back_le {key : String} (hk : key ≠ "") :
    (browseDatastoreBack key).length ≤ (rstripSlash key).length := by
  rcases Path.no_slash_or_last (rstripSlash key) with h | ⟨front, base, h, hb⟩
  · simp [back_top h]
  · rw [back_cut hk h hb]
    split
    · simp
    · simp only [h, String.length_append]
      omega

/-- Going back from a folder leads to the prefix it was chosen at. -/
theorem back_eq_iff {q name : String} (hname : '/' ∉ name.toList) :
    browseDatastoreBack (q ++ "/" ++ name ++ "/") = q ++ "/" ↔ q ≠ "" ∧ name ≠ "" := by
  have hk : q ++ "/" ++ name ++ "/" ≠ "" := by simp
  by_cases hn : name = ""
  · subst hn
    have hlen := length_back_le hk
    have hrest := length_rstripSlash_le q
    rw [rstripSlash_slash, String.append_empty, rstripSlash_slash] at hlen
    constructor
    · intro h
      rw [String.append_empty] at h
      rw [h, String.length_append] at hlen
      have : "/".length = 1 := rfl
      omega
    · intro h
      exact absurd rfl h.2
  · have hcut : rstripSlash (q ++ "/" ++ name ++ "/") = q ++ "/" ++ name := by
      rw [rstripSlash_slash, rstripSlash_name _ hname hn]
    rw [back_cut hk hcut hname]
    by_cases hq : q = ""
    · simp [hq]
    · simp [hq, hn]

theorem back_first {name : String} (hname : '/' ∉ name.toList) : browseDatastoreBack (name ++ "/") = "" := by
  apply back_top
  rw [rstripSlash_slash]
  by_cases hn : name = ""
  · rw [hn]
    decide
  · have h := rstripSlash_name "" hname hn
    rw [String.empty_append] at h
    rw [h]
    exact hname

section Drill

variable (lower : String → String) (other : S3Op → Except S3Exc ListPage) (bucket : String) (maxItems : Nat)
    (objects : List S3Object)

/-- `list_objects` gives a folder with this key under the prefix. -/
def Offered (keyPrefix key : String) : Prop :=
  ∃ pages r, Gives objects keyPrefix pages ∧
    (listed lower other pages.length bucket keyPrefix maxItems pages).outcome = .ok (some r) ∧
    ∃ item ∈ r.items, item.isFolder = true ∧ item.key = key

/-- The prefixes one comes to by choosing one folder after another. -/
inductive Reached : String → Prop
  | top : Reached ""
  | down {p key : String} : Reached p → Offered lower other bucket maxItems objects p key → Reached key

/-- Going back undoes every choice of a folder. -/
def BackUndoes : Prop :=
  ∀ p key, Reached lower other bucket maxItems objects p →
    Offered lower other bucket maxItems objects p key → browseDatastoreBack key = p

/-- No slashes side by side, and no slash behind one at the start. -/
def Retraceable (key : String) : Prop := (∀ a b, key ≠ a ++ "//" ++ b) ∧ ∀ a b, key ≠ "/" ++ a ++ "/" ++ b

/-- All that S3 has under a prefix, on one page. -/
def onePage (keyPrefix : String) : ListPage where
  commonPrefixes := some (pySet (objects.filterMap fun obj => rollUp keyPrefix obj.key))
  contents := some (objects.filter fun obj => keyPrefix.toList.isPrefixOf obj.key.toList &&
    (rollUp keyPrefix obj.key).isNone)
  isTruncated := false
  nextContinuationToken := none

theorem gives_onePage (keyPrefix : String) : Gives objects keyPrefix [onePage objects keyPrefix] where
  linked := rfl
  prefixes p := by simp [onePage, mem_pySet]
  contents obj := by simp [onePage]

variable {lower other bucket maxItems objects}

/-- The folders offered under a prefix are what the keys under it are rolled up to. -/
theorem offered_iff {keyPrefix key : String} :
    Offered lower other bucket maxItems objects keyPrefix key ↔
    ∃ obj ∈ objects, rollUp keyPrefix obj.key = some key := by
  constructor
  · intro h
    obtain ⟨pages, r, hgives, hr, item, hi, hfolder, rfl⟩ := h
    obtain ⟨r', pre, post, rfl, -, hr', -, -, hitems, -⟩ :=
      listObjects_spec lower other bucket keyPrefix maxItems hgives.linked (Nat.le_refl _)
    cases hr.symm.trans hr'
    rcases List.mem_append.mp (hitems.mem_iff.mp hi) with hi | hi
    · obtain ⟨page, hpage, hi⟩ := List.mem_flatMap.mp hi
      obtain ⟨p, hp, rfl⟩ := List.mem_map.mp hi
      exact (hgives.prefixes p).mp ⟨page, List.mem_append_left _ hpage, hp⟩
    · obtain ⟨page, -, hi⟩ := List.mem_flatMap.mp hi
      obtain ⟨obj, -, rfl⟩ := List.mem_map.mp hi
      cases hfolder
  · intro h
    obtain ⟨r, pre, post, he, hne, hr, -, -, hitems, -⟩ :=
      listObjects_spec lower other bucket keyPrefix maxItems (gives_onePage objects keyPrefix).linked (Nat.le_refl _)
    have hpre : pre = [onePage objects keyPrefix] := by
      cases pre with
      | nil => exact absurd rfl hne
      | cons page pre => simp_all
    refine ⟨_, r, gives_onePage objects keyPrefix, hr, folderItem key, hitems.mem_iff.mpr ?_, rfl, rfl⟩
    obtain ⟨page, hpage, hkey⟩ := ((gives_onePage objects keyPrefix).prefixes key).mpr h
    rw [hpre]
    exact List.mem_append_left _ (List.mem_flatMap.mpr ⟨page, hpage, List.mem_map_of_mem hkey⟩)

/-- That is the prefix with one name and a slash behind it. -/
theorem offered_name {p key : String} (h : Offered lower other bucket maxItems objects p key) :
    ∃ obj ∈ objects, ∃ name rest, '/' ∉ name.toList ∧ obj.key = p ++ name ++ "/" ++ rest ∧
    key = p ++ name ++ "/" := by
  obtain ⟨obj, ho, hroll⟩ := offered_iff.mp h
  exact ⟨obj, ho, (rollUp_iff _ _ _).mp hroll⟩

theorem offered_along {obj : S3Object} (ho : obj ∈ objects) {p name : String} (rest : String)
    (hname : '/' ∉ name.toList)
    (hkey : obj.key = p ++ name ++ "/" ++ rest) : Offered lower other bucket maxItems objects p (p ++ name ++ "/") :=
  offered_iff.mpr ⟨obj, ho, (rollUp_iff _ _ _).mpr ⟨name, rest, hname, hkey, rfl⟩⟩

theorem reached_slash {p : String} (h : Reached lower other bucket maxItems objects p) :
    p = "" ∨ ∃ q, p = q ++ "/" := by
  cases h with
  | top => exact Or.inl rfl
  | down _ hkey =>
    obtain ⟨_, _, _, _, _, _, rfl⟩ := offered_name hkey
    exact Or.inr ⟨_, rfl⟩

/-- One can drill down along any key. -/
theorem reached_along {obj : S3Object} (ho : obj ∈ objects) (q rest : String) (hkey : obj.key = q ++ "/" ++ rest) :
    Reached lower other bucket maxItems objects (q ++ "/") := by
  rcases Path.no_slash_or_last q with h | ⟨front, base, rfl, hb⟩
  · rw [← String.empty_append (s := q)] at hkey ⊢
    exact .down .top (offered_along ho rest h hkey)
  · have hfront : obj.key = front ++ "/" ++ (base ++ "/" ++ rest) := by
      rw [hkey]
      simp only [String.append_assoc]
    exact .down (reached_along ho front _ hfront) (offered_along ho rest hb hkey)
termination_by q.length
decreasing_by
  subst_vars
  simp only [String.length_append]
  have : "/".length = 1 := rfl
  omega

/-- Where going back from a folder leads to the prefix it was chosen at. -/
theorem back_offered_iff {p key : String} (hp : Reached lower other bucket maxItems objects p)
    (hk : Offered lower other bucket maxItems objects p key) :
    browseDatastoreBack key = p ↔ p = "" ∨ (p ≠ "/" ∧ key ≠ p ++ "/") := by
  obtain ⟨_, _, name, _, hname, _, rfl⟩ := offered_name hk
  rcases reached_slash hp with rfl | ⟨q, rfl⟩
  · rw [String.empty_append]
    exact iff_of_true (back_first hname) (Or.inl rfl)
  · rw [back_eq_iff hname]
    have hroot : q ++ "/" ≠ "/" ↔ q ≠ "" := by simp
    have hempty : q ++ "/" ++ name ++ "/" ≠ q ++ "/" ++ "/" ↔ name ≠ "" := by
      rw [Ne, ← String.toList_inj]
      simp
    have htop : q ++ "/" ≠ "" := by simp
    rw [hroot, hempty]
    simp [htop]

/-- A key with two slashes side by side, or with a slash behind its first one, has a choice that is not undone. -/
theorem retraceable_of_undoes (h : BackUndoes lower other bucket maxItems objects) {obj : S3Object}
    (ho : obj ∈ objects) :
    Retraceable obj.key := by
  constructor
  · intro a b hkey
    have hp : Reached lower other bucket maxItems objects (a ++ "/") := by
      refine reached_along ho a ("/" ++ b) ?_
      rw [hkey, ← String.toList_inj]
      simp
    have hk : Offered lower other bucket maxItems objects (a ++ "/") (a ++ "/" ++ "" ++ "/") := by
      refine offered_along ho b (by simp) ?_
      rw [hkey, ← String.toList_inj]
      simp
    rcases (back_offered_iff hp hk).mp (h _ _ hp hk) with htop | ⟨-, hne⟩
    · simp at htop
    · exact hne (by simp)
  · intro a b hkey
    have hp : Reached lower other bucket maxItems objects ("" ++ "/") := by
      refine reached_along ho "" (a ++ "/" ++ b) ?_
      rw [hkey, ← String.toList_inj]
      simp
    have hslash : '/' ∈ (a ++ "/" ++ b).toList := by simp
    obtain ⟨name, rest, hcut, hname⟩ := List.eq_append_cons_of_mem hslash
    have hk : Offered lower other bucket maxItems objects ("" ++ "/") ("" ++ "/" ++ String.ofList name ++ "/") := by
      refine offered_along ho (String.ofList rest) (by simpa using hname) ?_
      have hsplit : a.toList ++ '/' :: b.toList = name ++ '/' :: rest := by simpa using hcut
      rw [hkey, ← String.toList_inj]
      simp [hsplit]
    rcases (back_offered_iff hp hk).mp (h _ _ hp hk) with htop | ⟨hne, -⟩
    · simp at htop
    · exact hne (by simp)

theorem undoes_of_retraceable (h : ∀ obj ∈ objects, Retraceable obj.key) :
    BackUndoes lower other bucket maxItems objects := by
  intro p key hp hk
  obtain ⟨obj, ho, name, rest, hname, hkey, rfl⟩ := offered_name hk
  obtain ⟨hdouble, hlead⟩ := h obj ho
  apply (back_offered_iff hp hk).mpr
  rcases reached_slash hp with rfl | ⟨q, rfl⟩
  · exact Or.inl rfl
  · refine Or.inr ⟨?_, ?_⟩
    · intro he
      rw [he] at hkey
      exact hlead name rest hkey
    · intro he
      rw [he] at hkey
      refine hdouble q rest ?_
      rw [hkey, ← String.toList_inj]
      simp

end Drill

/-- Going back undoes a choice exactly at the top, or where neither the prefix is a lone slash
    nor the folder's name is empty; and it undoes every choice in a bucket if and only if all of
    its keys are retraceable. -/
theorem back_undoes_iff (lower : String → String) (other : S3Op → Except S3Exc ListPage) (bucket : String)
    (maxItems : Nat) (objects : List S3Object) :
    (∀ p key, Reached lower other bucket maxItems objects p → Offered lower other bucket maxItems objects p key →
      (browseDatastoreBack key = p ↔ p = "" ∨ (p ≠ "/" ∧ key ≠ p ++ "/"))) ∧
    (BackUndoes lower other bucket maxItems objects ↔ ∀ obj ∈ objects, Retraceable obj.key) :=
  ⟨fun _ _ hp hk => back_offered_iff hp hk, fun h _ ho => retraceable_of_undoes h ho, undoes_of_retraceable⟩

/-- A bucket whose one key begins with a slash: back from "/n/" leads to the top, not to "/". -/
theorem back_not_undone : ¬BackUndoes id noOther "b" 5000 [⟨"/n/f", 1⟩] := by
  intro h
  have hp : Reached id noOther "b" 5000 [⟨"/n/f", 1⟩] "/" :=
    .down .top (offered_iff.mpr ⟨⟨"/n/f", 1⟩, List.mem_singleton_self _, by decide⟩)
  have hk : Offered id noOther "b" 5000 [⟨"/n/f", 1⟩] "/" "/n/" :=
    offered_iff.mpr ⟨⟨"/n/f", 1⟩, List.mem_singleton_self _, by decide⟩
  exact absurd (h _ _ hp hk) (by decide)

/-! ## The pages of a listing -/

/-- What the template is given of a listing. -/
structure BrowserPage where
  items : List S3Item
  page : Int
  pageSize : Int
  totalPages : Int
  totalItems : Nat
  isTruncated : Bool

def browsePage (result : S3ListResult) (page pageSize : Int) : BrowserPage :=
  let pageSize := max 10 (min pageSize 200)
  let totalItems := result.totalCount
  let totalPages := max 1 (ceilDiv totalItems pageSize)
  let page := max 1 (min page totalPages)
  let start := (page - 1) * pageSize
  let stop := start + pageSize
  ⟨pySlice result.items start stop, page, pageSize, totalPages, totalItems, result.isTruncated⟩

section Pages

variable (items : List S3Item) (isTruncated : Bool)

/-- The page of a listing of these items. -/
def shown (page pageSize : Int) : BrowserPage := browsePage ⟨items, items.length, isTruncated⟩ page pageSize

/-- The pages are slices of one size; with one less of them an item would be left out. -/
theorem shown_slices (pageSize : Int) :
    ∃ size pages : Nat, (size : Int) = max 10 (min pageSize 200) ∧ 1 ≤ pages ∧ items.length ≤ size * pages ∧
      (pages = 1 ∨ size * (pages - 1) < items.length) ∧
      ∀ page, (shown items isTruncated page pageSize).totalPages = pages ∧
        ∃ k, k < pages ∧ (shown items isTruncated page pageSize).items = slice items (size * k) size ∧
          (1 ≤ page → page ≤ pages → page = k + 1) := by
  obtain ⟨size, hsize⟩ := Int.eq_ofNat_of_zero_le (a := max 10 (min pageSize 200)) (by omega)
  obtain ⟨hle, hlt⟩ := ceilDiv_spec items.length (d := size) (by omega)
  obtain ⟨pages, hpages⟩ := Int.eq_ofNat_of_zero_le (a := max 1 (ceilDiv items.length size)) (by omega)
  refine ⟨size, pages, hsize.symm, by omega, ?_, ?_, fun page => ⟨?_, ?_⟩⟩
  · have hmore : (size : Int) * ceilDiv items.length size ≤ size * pages :=
      Int.mul_le_mul_of_nonneg_left (by omega) (by omega)
    have hall : (items.length : Int) ≤ (size : Int) * pages := by omega
    exact_mod_cast hall
  · by_cases hone : pages = 1
    · exact Or.inl hone
    · have heq : ceilDiv items.length size = pages := by omega
      have hsub : ((pages - 1 : Nat) : Int) = pages - 1 := by omega
      rw [heq, ← hsub] at hlt
      exact Or.inr (by exact_mod_cast hlt)
  · simp only [shown, browsePage, hsize, hpages]
  · obtain ⟨k, hk⟩ := Int.eq_ofNat_of_zero_le (a := max 1 (min page pages) - 1) (by omega)
    have hstart : (k : Int) * size = (size * k : Nat) := by rw [Int.natCast_mul, Int.mul_comm]
    refine ⟨k, by omega, ?_, by omega⟩
    simp only [shown, browsePage, hsize, hpages, hk, hstart]
    exact pySlice_eq_slice items (size * k) size

theorem shown_all (pageSize : Int) :
    ((List.range (shown items isTruncated 1 pageSize).totalPages.toNat).flatMap fun k : Nat =>
      (shown items isTruncated (k + 1) pageSize).items) = items := by
  obtain ⟨size, pages, _, _, hall, _, hpage⟩ := shown_slices items isTruncated pageSize
  have hslices : ∀ k ∈ List.range pages, (shown items isTruncated ((k : Int) + 1) pageSize).items =
      slice items (size * k) size := by
    intro k hk
    have hk := List.mem_range.mp hk
    obtain ⟨j, -, hitems, hj⟩ := (hpage (k + 1)).2
    have hjk : j = k := by
      have := hj (by omega) (by omega)
      omega
    rw [hitems, hjk]
  rw [(hpage 1).1, Int.toNat_natCast, List.flatMap_def, List.map_congr_left hslices, ← List.flatMap_def,
    flatMap_slice]
  exact List.take_of_length_le hall

theorem shown_full (pageSize page : Int) (h1 : 1 ≤ page)
    (hlt : page < (shown items isTruncated 1 pageSize).totalPages) :
    (shown items isTruncated page pageSize).items.length = max 10 (min pageSize 200) := by
  obtain ⟨size, pages, hsize, _, _, hless, hpage⟩ := shown_slices items isTruncated pageSize
  rw [(hpage 1).1] at hlt
  obtain ⟨k, -, hitems, hk⟩ := (hpage page).2
  have hkp := hk h1 (by omega)
  have hmono : size * (k + 1) ≤ size * (pages - 1) := Nat.mul_le_mul_left size (by omega)
  rw [hitems, length_slice]
  rw [Nat.mul_succ] at hmono
  omega

theorem shown_ne_nil (pageSize page : Int) : (shown items isTruncated page pageSize).items ≠ [] ↔ items ≠ [] := by
  obtain ⟨size, pages, hsize, _, _, hless, hpage⟩ := shown_slices items isTruncated pageSize
  obtain ⟨k, hk, hitems, -⟩ := (hpage page).2
  rw [hitems]
  constructor
  · intro h he
    rw [he] at h
    exact h (by simp [slice])
  · intro hne hnil
    have hpos : 0 < items.length := List.length_pos_iff.mpr hne
    have hlen : (slice items (size * k) size).length = 0 := congrArg List.length hnil
    rw [length_slice] at hlen
    rcases hless with hone | hless
    · have hk0 : k = 0 := by omega
      subst hk0
      omega
    · have hmono : size * k ≤ size * (pages - 1) := Nat.mul_le_mul_left size (by omega)
      omega

theorem shown_numbers (pageSize page : Int) :
    (shown items isTruncated page pageSize).pageSize = max 10 (min pageSize 200) ∧
      (shown items isTruncated page pageSize).totalPages =
        max 1 ⌈(items.length : ℚ) / ((max 10 (min pageSize 200) : Int) : ℚ)⌉ ∧
      (shown items isTruncated page pageSize).page =
        max 1 (min page (shown items isTruncated page pageSize).totalPages) := by
  refine ⟨rfl, ?_, rfl⟩
  obtain ⟨size, hsize⟩ := Int.eq_ofNat_of_zero_le (a := max 10 (min pageSize 200)) (by omega)
  simp only [shown, browsePage, hsize, Int.cast_natCast]
  rw [Rat.ceil_natCast_div_natCast]
  rfl

/-- A page that is not there is shown as the nearest one that is. -/
theorem shown_clamped (pageSize page : Int) :
    (shown items isTruncated page pageSize).items =
      (shown items isTruncated (shown items isTruncated page pageSize).page pageSize).items := by
  simp only [shown, browsePage]
  generalize ceilDiv items.length (max 10 (min pageSize 200)) = total
  have hpage : max 1 (min (max 1 (min page (max 1 total))) (max 1 total)) = max 1 (min page (max 1 total)) := by omega
  rw [hpage]

theorem shown_length_le (pageSize page : Int) :
    (shown items isTruncated page pageSize).items.length ≤ (shown items isTruncated page pageSize).pageSize := by
  obtain ⟨size, pages, hsize, _, _, _, hpage⟩ := shown_slices items isTruncated pageSize
  obtain ⟨k, _, hitems, _⟩ := (hpage page).2
  rw [hitems, length_slice, (shown_numbers items isTruncated pageSize page).1, ← hsize]
  omega

end Pages

/-- The pages are the listing cut up: put together they are all of it, every one but the last
    is full and the last is no longer, there are as many as its length asks for, and whatever
    page is asked for, the nearest one is shown, empty only when the listing is. -/
theorem pages_partition (items : List S3Item) (isTruncated : Bool) (pageSize : Int) :
    ((List.range (shown items isTruncated 1 pageSize).totalPages.toNat).flatMap fun k : Nat =>
        (shown items isTruncated (k + 1) pageSize).items) = items ∧
      (∀ page, 1 ≤ page → page < (shown items isTruncated 1 pageSize).totalPages →
        (shown items isTruncated page pageSize).items.length = max 10 (min pageSize 200)) ∧
      ∀ page,
        ((shown items isTruncated page pageSize).items ≠ [] ↔ items ≠ []) ∧
        (shown items isTruncated page pageSize).pageSize = max 10 (min pageSize 200) ∧
        (shown items isTruncated page pageSize).totalPages =
          max 1 ⌈(items.length : ℚ) / ((max 10 (min pageSize 200) : Int) : ℚ)⌉ ∧
        (shown items isTruncated page pageSize).page =
          max 1 (min page (shown items isTruncated page pageSize).totalPages) ∧
        (shown items isTruncated page pageSize).items =
          (shown items isTruncated (shown items isTruncated page pageSize).page pageSize).items ∧
        (shown items isTruncated page pageSize).items.length ≤ (shown items isTruncated page pageSize).pageSize := by
  refine ⟨shown_all items isTruncated pageSize, shown_full items isTruncated pageSize, fun page => ?_⟩
  obtain ⟨hsize, htotal, hpage⟩ := shown_numbers items isTruncated pageSize page
  exact ⟨shown_ne_nil items isTruncated pageSize page, hsize, htotal, hpage,
    shown_clamped items isTruncated pageSize page, shown_length_le items isTruncated pageSize page⟩

/-- A folder of 25 files. -/
def manyFiles : List S3Item := (List.range 25).map fun i => ⟨toString i, "d/" ++ toString i, false, 0, ""⟩

/-- Asked for in pages of three, it comes in three of ten; page 99 is the third, page -7 the first. -/
theorem pages_partition_many :
    (shown manyFiles false 1 3).items ++ (shown manyFiles false 2 3).items ++
    (shown manyFiles false 3 3).items = manyFiles ∧
      (shown manyFiles false 2 3).items.length = 10 ∧
      (shown manyFiles false 99 3).page = 3 ∧ (shown manyFiles false 99 3).items = (shown manyFiles false 3 3).items ∧
      (shown manyFiles false 99 3).items.length = 5 ∧
      (shown manyFiles false (-7) 3).page = 1 ∧
      (shown manyFiles false (-7) 3).items = (shown manyFiles false 1 3).items := by
  obtain ⟨hall, hfull, hpage⟩ := pages_partition manyFiles false 3
  obtain ⟨_, _, _, _, hlast, _⟩ := hpage 99
  obtain ⟨_, _, _, _, hfirst, _⟩ := hpage (-7)
  refine ⟨?_, by exact_mod_cast hfull 2 (by decide) (by decide), by decide, hlast, by decide, by decide, hfirst⟩
  rw [List.append_assoc, ← List.append_nil (shown manyFiles false 3 3).items]
  exact hall

end Connect.Web
