/-
  Connect.S3.ListObjects — `S3Service.list_objects` (services/s3_service.py): the folders and
  the files directly under a prefix, page after page until S3 has no more or a cap is met.

  The loop is `listLoop` with a bound on its turns, of which it takes one for each page
  (`listObjects_spec`), so any bound from the number of pages on gives its result. A size
  is a number of bytes below 2^53, where the floats of the code are exact.

  The cap is tested before the end of the listing. So `is_truncated` says whether something
  is missing unless the cap is met by the listing as a whole and not before its last entry:
  then nothing is missing, and the flag is set (`truncation_exact_iff`).
-/

import Connect.Await.Exec
import Connect.Path

namespace Connect.S3

open Await

/-! ## Items -/

structure S3Item where
  name : String
  key : String
  isFolder : Bool
  /-- In MB. -/
  size : Rat := 0
  sizeFormatted : String := ""

structure S3ListResult where
  items : List S3Item
  totalCount : Nat
  isTruncated : Bool

/-- `num / den` to the nearest integer, and a half to the even one. -/
def roundHalfEven (num den : Nat) : Nat :=
  let q := num / den
  let twice := 2 * (num % den)
  if twice < den then q else if den < twice then q + 1 else q + q % 2

def pad (digits : Nat) (s : String) : String := "".pushn '0' (digits - s.length) ++ s

/-- `f"{num / den:.{digits}f}"`. -/
def fixed (digits num den : Nat) : String :=
  let n := roundHalfEven (num * Nat.pow 10 digits) den
  toString (n / Nat.pow 10 digits) ++ "." ++ pad digits (toString (n % Nat.pow 10 digits))

/-- `_format_size`. -/
def formatSize (sizeBytes : Nat) : String :=
  if sizeBytes < 1024 then toString sizeBytes ++ " B"
  else if sizeBytes < 1024 * 1024 then fixed 1 sizeBytes 1024 ++ " KB"
  else if sizeBytes < 1024 * 1024 * 1024 then fixed 2 sizeBytes (1024 * 1024) ++ " MB"
  else fixed 2 sizeBytes (1024 * 1024 * 1024) ++ " GB"

example : formatSize 1280 = "1.2 KB" := by decide

/-- `s.rstrip("/")`. -/
def rstripSlash (s : String) : String := String.ofList (dropSlashes s.toList.reverse).reverse

/-- `s.split("/")[-1]`. -/
def lastName (s : String) : String := (Path.split s).getLast (Path.split_ne_nil s)

/-! ## Pages -/

structure S3Object where
  key : String
  size : Nat
  deriving DecidableEq, Repr

/-- A response of `list_objects_v2`; `isTruncated` is false when the field is missing. -/
structure ListPage where
  /-- The "Prefix" of each. -/
  commonPrefixes : Option (List String)
  contents : Option (List S3Object)
  isTruncated : Bool
  nextContinuationToken : Option String
  deriving DecidableEq, Repr

def folderItem (key : String) : S3Item where
  name := lastName (rstripSlash key)
  key := key
  isFolder := true

def fileItem (obj : S3Object) : S3Item where
  name := lastName obj.key
  key := obj.key
  isFolder := false
  size := obj.size / (1024 * 1024)
  sizeFormatted := formatSize obj.size

/-- The folders of a page. -/
def ListPage.folders (page : ListPage) : List S3Item := (page.commonPrefixes.getD []).map folderItem

/-- The files of a page, which leave out the marker of the prefix itself. -/
def ListPage.files (keyPrefix : String) (page : ListPage) : List S3Item :=
  ((page.contents.getD []).filter (·.key != keyPrefix)).map fileItem

/-! ## The listing -/

inductive S3Op where
  | listObjectsV2 (bucket keyPrefix delimiter : String) (continuationToken : Option String)
  deriving DecidableEq, Repr

abbrev S3Op.Ret : S3Op → Type
  | .listObjectsV2 _ _ _ _ => ListPage

abbrev s3Sig : Sig := ⟨S3Op, S3Op.Ret⟩

inductive S3Exc where
  /-- botocore's `ClientError`, with its text. -/
  | clientError (text : String)
  | other (e : Exc)
  deriving DecidableEq, Repr

abbrev S3Prog := Prog s3Sig S3Exc

/-- The two lists of the loop. -/
structure Listing where
  folders : List S3Item
  files : List S3Item

def Listing.size (acc : Listing) : Nat := acc.folders.length + acc.files.length

def Listing.add (keyPrefix : String) (acc : Listing) (page : ListPage) : Listing :=
  ⟨acc.folders ++ page.folders, acc.files ++ page.files keyPrefix⟩

/-- The `while True`, with `is_truncated` at its end; none when the bound on its turns is met. -/
def listLoop (bucket keyPrefix : String) (maxItems : Nat) : Nat → Option String → Listing →
    S3Prog (Option (Listing × Bool))
  | 0, _, _ => .ret none
  | turns + 1, token, acc => do
    let response ← @Prog.await s3Sig S3Exc (.listObjectsV2 bucket keyPrefix "/" token)
    let acc := acc.add keyPrefix response
    if maxItems ≤ acc.size then return some (acc, true)
    else if response.isTruncated then
      match response.nextContinuationToken with
      | some next => listLoop bucket keyPrefix maxItems turns (some next) acc
      | none => .raise (.other (.exception "'NextContinuationToken'"))
    else return some (acc, false)

/-- `except ClientError as e: raise ValueError(...)`. -/
def listingError : S3Exc → S3Prog (Option (Listing × Bool))
  | .clientError text => .raise (.other (.exception ("Error listing objects: " ++ text)))
  | .other e => .raise (.other e)

/-- `items.sort(key=lambda x: x.name.lower())`, where `lower` is `str.lower`. -/
def sortByName (lower : String → String) (items : List S3Item) : List S3Item :=
  items.mergeSort fun a b => decide (lower a.name ≤ lower b.name)

def listResult (lower : String → String) (acc : Listing) (isTruncated : Bool) : S3ListResult :=
  let items := sortByName lower acc.folders ++ sortByName lower acc.files
  ⟨items, items.length, isTruncated⟩

def listObjects (lower : String → String) (turns : Nat) (bucket keyPrefix : String) (maxItems : Nat) :
    S3Prog (Option S3ListResult) := do
  let done ← (listLoop bucket keyPrefix maxItems turns none ⟨[], []⟩).catching listingError
  return done.map fun (acc, isTruncated) => listResult lower acc isTruncated

/-! ## S3 with these pages -/

/-- Every page but the last has a token for the next. -/
def Linked : List ListPage → Prop
  | [] => False
  | [last] => last.isTruncated = false
  | page :: rest => page.isTruncated = true ∧ page.nextContinuationToken.isSome = true ∧ Linked rest

/-- What S3 has still to give, to a request that carries this token. -/
structure Cursor where
  token : Option String
  pages : List ListPage

/-- S3 that gives these pages of a listing in turn, each to the token of the one before; `other`:
    what it answers to any other request. -/
def Cursor.serve (other : S3Op → Except S3Exc ListPage) (bucket keyPrefix : String) (s : Cursor) (o : S3Op) :
    Except S3Exc ListPage × Cursor :=
  match s.pages with
  | [] => (other o, s)
  | page :: rest =>
    if o = .listObjectsV2 bucket keyPrefix "/" s.token then (.ok page, ⟨page.nextContinuationToken, rest⟩)
      else (other o, s)

/-- The requests for these pages. -/
def requests (bucket keyPrefix : String) : Option String → List ListPage → List S3Op
  | _, [] => []
  | token, page :: rest =>
    .listObjectsV2 bucket keyPrefix "/" token :: requests bucket keyPrefix page.nextContinuationToken rest

/-- How many entries these pages have. -/
def entryCount (keyPrefix : String) (pages : List ListPage) : Nat :=
  (pages.flatMap ListPage.folders).length + (pages.flatMap (ListPage.files keyPrefix)).length

@[simp] theorem entryCount_append (keyPrefix : String) (pre post : List ListPage) :
    entryCount keyPrefix (pre ++ post) = entryCount keyPrefix pre + entryCount keyPrefix post := by
  simp only [entryCount, List.flatMap_append, List.length_append]
  omega

/-- What the loop has collected after these pages. -/
def Listing.addAll (keyPrefix : String) (acc : Listing) (pages : List ListPage) : Listing :=
  pages.foldl (Listing.add keyPrefix) acc

theorem Listing.addAll_eq (keyPrefix : String) (acc : Listing) (pages : List ListPage) :
    acc.addAll keyPrefix pages = ⟨acc.folders ++ pages.flatMap ListPage.folders,
      acc.files ++ pages.flatMap (ListPage.files keyPrefix)⟩ := by
  unfold Listing.addAll
  induction pages generalizing acc with
  | nil => simp
  | cons page rest ih => simp [ih, Listing.add]

@[simp] theorem Listing.size_addAll (keyPrefix : String) (acc : Listing) (pages : List ListPage) :
    (acc.addAll keyPrefix pages).size = acc.size + entryCount keyPrefix pages := by
  simp only [Listing.addAll_eq, Listing.size, entryCount, List.length_append]
  omega

section Loop

variable (other : S3Op → Except S3Exc ListPage) (bucket keyPrefix : String) (maxItems : Nat)

/-- The loop ends with the first page that meets the cap, or with the last. -/
theorem play_listLoop {pages : List ListPage} (hl : Linked pages) {turns : Nat} (ht : pages.length ≤ turns)
    (token : Option String) (acc : Listing) :
    ∃ pre post, pages = pre ++ post ∧ pre ≠ [] ∧
      (play (Cursor.serve other bucket keyPrefix) (listLoop bucket keyPrefix maxItems turns token acc)
        ⟨token, pages⟩).asked =
          requests bucket keyPrefix token pre ∧
      (play (Cursor.serve other bucket keyPrefix) (listLoop bucket keyPrefix maxItems turns token acc)
        ⟨token, pages⟩).outcome =
          .ok (some (acc.addAll keyPrefix pre, decide (maxItems ≤ acc.size + entryCount keyPrefix pre))) ∧
      (∀ earlier later, pre = earlier ++ later → earlier ≠ [] → later ≠ [] →
        acc.size + entryCount keyPrefix earlier < maxItems) ∧
      (acc.size + entryCount keyPrefix pre < maxItems → post = []) := by
  induction pages generalizing turns token acc with
  | nil => exact hl.elim
  | cons page rest ih =>
    cases turns with
    | zero => cases ht
    | succ turns =>
      have hserve : Cursor.serve other bucket keyPrefix ⟨token, page :: rest⟩
          (.listObjectsV2 bucket keyPrefix "/" token) =
            (.ok page, ⟨page.nextContinuationToken, rest⟩) := by
        simp [Cursor.serve]
      have hsize : (acc.add keyPrefix page).size = acc.size + entryCount keyPrefix [page] :=
        acc.size_addAll keyPrefix [page]
      have hone : ∀ earlier later, [page] = earlier ++ later → earlier ≠ [] → later ≠ [] →
          acc.size + entryCount keyPrefix earlier < maxItems := by
        intro earlier later he hearlier hlater
        cases earlier with
        | nil => exact absurd rfl hearlier
        | cons _ _ => simp_all
      rw [listLoop, Prog.bind_def, play_await hserve]
      by_cases hcap : maxItems ≤ (acc.add keyPrefix page).size
      · refine ⟨[page], rest, rfl, by simp, ?_, ?_, hone, fun h => ?_⟩
        · simp only [if_pos hcap]
          rfl
        · simp only [← hsize, hcap, decide_true]
          rfl
        · omega
      · simp only [if_neg hcap]
        cases rest with
        | nil =>
          have hlast : page.isTruncated = false := hl
          refine ⟨[page], [], rfl, by simp, ?_, ?_, hone, fun _ => rfl⟩
          · simp [hlast, play, requests]
          · simp only [hlast, ← hsize, hcap, decide_false]
            rfl
        | cons second rest =>
          obtain ⟨htrunc, htoken, hl⟩ := hl
          obtain ⟨next, hnext⟩ := Option.isSome_iff_exists.mp htoken
          obtain ⟨pre, post, he, hne, hasked, hout, hcap', hpost⟩ :=
            ih hl (Nat.le_of_succ_le_succ ht) (some next) (acc.add keyPrefix page)
          have hcount : ∀ some, (acc.add keyPrefix page).size + entryCount keyPrefix some =
              acc.size + entryCount keyPrefix (page :: some) := by
            intro some
            have happend : entryCount keyPrefix (page :: some) =
                entryCount keyPrefix [page] + entryCount keyPrefix some :=
              entryCount_append keyPrefix [page] some
            omega
          refine ⟨page :: pre, post, by rw [he]; rfl, by simp, ?_, ?_, ?_, ?_⟩
          · simp only [htrunc, hnext, if_true]
            rw [hasked]
            rw [requests, hnext]
          · simp only [htrunc, hnext, if_true]
            rw [hout, hcount]
            rfl
          · intro earlier later hsplit hearlier hlater
            cases earlier with
            | nil => exact absurd rfl hearlier
            | cons first earlier =>
              obtain ⟨rfl, hrest⟩ := List.cons.inj hsplit
              cases earlier with
              | nil => omega
              | cons _ _ =>
                rw [← hcount]
                exact hcap' _ later hrest (by simp) hlater
          · rw [← hcount]
            exact hpost

end Loop

/-! ## What a listing is to be -/

/-- Folders before files, each in the order of their names. -/
structure InOrder (lower : String → String) (r : S3ListResult) : Prop where
  grouped : ∃ folders files, r.items = folders ++ files ∧ (∀ item ∈ folders, item.isFolder = true) ∧
    (∀ item ∈ files, item.isFolder = false) ∧ folders.Pairwise (fun a b => lower a.name ≤ lower b.name) ∧
    files.Pairwise (fun a b => lower a.name ≤ lower b.name)
  counted : r.totalCount = r.items.length

/-- Each common prefix and each object other than the marker of the prefix, once. -/
def Complete (keyPrefix : String) (pages : List ListPage) (r : S3ListResult) : Prop :=
  r.items.Perm (pages.flatMap ListPage.folders ++ pages.flatMap (ListPage.files keyPrefix))

/-- A listing asked for the pages of these requests, in turn, and for none after the cap. -/
def Asked (bucket keyPrefix : String) (maxItems : Nat) (pages : List ListPage) (asked : List S3Op) : Prop :=
  ∃ pre post, pages = pre ++ post ∧ asked = requests bucket keyPrefix none pre ∧
    ∀ earlier later, pre = earlier ++ later → earlier ≠ [] → later ≠ [] → entryCount keyPrefix earlier < maxItems

/-- `list_objects` against S3 with these pages. -/
def listed (lower : String → String) (other : S3Op → Except S3Exc ListPage) (turns : Nat)
    (bucket keyPrefix : String) (maxItems : Nat)
    (pages : List ListPage) : Played s3Sig S3Exc (Option S3ListResult) Cursor :=
  play (Cursor.serve other bucket keyPrefix) (listObjects lower turns bucket keyPrefix maxItems) ⟨none, pages⟩

/-- The listing returns in order, with no request after the cap, and is marked truncated when
    something is missing and only then. -/
def TruncationExact (lower : String → String) (other : S3Op → Except S3Exc ListPage) (turns : Nat)
    (bucket keyPrefix : String) (maxItems : Nat) (pages : List ListPage) : Prop :=
  ∃ r, (listed lower other turns bucket keyPrefix maxItems pages).outcome = .ok (some r) ∧ InOrder lower r ∧
    Asked bucket keyPrefix maxItems pages (listed lower other turns bucket keyPrefix maxItems pages).asked ∧
    (r.isTruncated = false ↔ Complete keyPrefix pages r)

theorem sortByName_perm (lower : String → String) (items : List S3Item) : (sortByName lower items).Perm items :=
  List.mergeSort_perm _ _

theorem sortByName_sorted (lower : String → String) (items : List S3Item) :
    (sortByName lower items).Pairwise fun a b => lower a.name ≤ lower b.name := by
  have h : (sortByName lower items).Pairwise fun a b => decide (lower a.name ≤ lower b.name) = true :=
    List.pairwise_mergeSort
    (fun a b c hab hbc => by
      simp only [decide_eq_true_eq] at *
      exact String.le_trans hab hbc)
    (fun a b => by
      simp only [Bool.or_eq_true, decide_eq_true_eq]
      exact String.le_total _ _)
    items
  simpa only [decide_eq_true_eq] using h

theorem inOrder_listResult (lower : String → String) {acc : Listing} (isTruncated : Bool)
    (hfolders : ∀ item ∈ acc.folders, item.isFolder = true) (hfiles : ∀ item ∈ acc.files, item.isFolder = false) :
    InOrder lower (listResult lower acc isTruncated) where
  grouped := by
    refine ⟨_, _, rfl, ?_, ?_, sortByName_sorted _ _, sortByName_sorted _ _⟩
    · intro item hi
      exact hfolders item ((sortByName_perm _ _).mem_iff.mp hi)
    · intro item hi
      exact hfiles item ((sortByName_perm _ _).mem_iff.mp hi)
  counted := rfl

/-- A listing whose loop ends. -/
theorem listed_of_loop (lower : String → String) {other : S3Op → Except S3Exc ListPage}
    {bucket keyPrefix : String} {maxItems turns : Nat}
    {pages : List ListPage} {acc : Listing} {isTruncated : Bool}
    (h : (play (Cursor.serve other bucket keyPrefix)
      (listLoop bucket keyPrefix maxItems turns none ⟨[], []⟩) ⟨none, pages⟩).outcome =
        .ok (some (acc, isTruncated))) :
    (listed lower other turns bucket keyPrefix maxItems pages).asked =
        (play (Cursor.serve other bucket keyPrefix) (listLoop bucket keyPrefix maxItems turns none ⟨[], []⟩)
          ⟨none, pages⟩).asked ∧
      (listed lower other turns bucket keyPrefix maxItems pages).outcome =
        .ok (some (listResult lower acc isTruncated)) := by
  have hcatch := play_catching listingError h
  unfold listed listObjects
  rw [Prog.bind_def, play_bind ((congrArg Played.outcome hcatch).trans h), hcatch]
  exact ⟨List.append_nil _, rfl⟩

/-- What `list_objects` returns: the entries of the pages up to the first that meets the cap, or of all. -/
theorem listObjects_spec (lower : String → String) (other : S3Op → Except S3Exc ListPage)
    (bucket keyPrefix : String) (maxItems : Nat)
    {pages : List ListPage} (hl : Linked pages) {turns : Nat} (ht : pages.length ≤ turns) :
    ∃ r pre post, pages = pre ++ post ∧ pre ≠ [] ∧
    (listed lower other turns bucket keyPrefix maxItems pages).outcome = .ok (some r) ∧
      InOrder lower r ∧ Asked bucket keyPrefix maxItems pages
        (listed lower other turns bucket keyPrefix maxItems pages).asked ∧
      r.items.Perm (pre.flatMap ListPage.folders ++ pre.flatMap (ListPage.files keyPrefix)) ∧
      (r.isTruncated = true ↔ maxItems ≤ entryCount keyPrefix pre) ∧
      (∀ earlier later, pre = earlier ++ later → earlier ≠ [] → later ≠ [] →
        entryCount keyPrefix earlier < maxItems) ∧
      (entryCount keyPrefix pre < maxItems → post = []) := by
  obtain ⟨pre, post, rfl, hne, hasked, hout, hcap, hpost⟩ :=
    play_listLoop other bucket keyPrefix maxItems hl ht none ⟨[], []⟩
  have hsize : Listing.size ⟨[], []⟩ = 0 := rfl
  simp only [hsize, Nat.zero_add] at hout hcap hpost
  obtain ⟨hasked', hout'⟩ := listed_of_loop lower hout
  rw [Listing.addAll_eq] at hout'
  rw [hasked', hasked]
  refine ⟨_, pre, post, rfl, hne, hout', ?_, ⟨pre, post, rfl, rfl, hcap⟩, ?_, by simp [listResult], hcap, hpost⟩
  · refine inOrder_listResult lower _ ?_ ?_
    · intro item hi
      obtain ⟨page, -, hi⟩ := List.mem_flatMap.mp (by simpa using hi)
      obtain ⟨key, -, rfl⟩ := List.mem_map.mp hi
      rfl
    · intro item hi
      obtain ⟨page, -, hi⟩ := List.mem_flatMap.mp (by simpa using hi)
      obtain ⟨obj, -, rfl⟩ := List.mem_map.mp hi
      rfl
  · simpa [listResult] using (sortByName_perm lower _).append (sortByName_perm lower _)

/-- The flag is exact if and only if the cap is above the whole listing, or met by pages that leave an entry out. -/
theorem truncation_exact_iff (lower : String → String) (other : S3Op → Except S3Exc ListPage)
    (bucket keyPrefix : String)
    (maxItems : Nat) (hm : 0 < maxItems) (pages : List ListPage) (hl : Linked pages) (turns : Nat)
    (ht : pages.length ≤ turns) :
    TruncationExact lower other turns bucket keyPrefix maxItems pages ↔
      entryCount keyPrefix pages < maxItems ∨
        ∃ pre post, pages = pre ++ post ∧ maxItems ≤ entryCount keyPrefix pre ∧ 0 < entryCount keyPrefix post := by
  obtain ⟨r, pre, post, rfl, -, hout, horder, hasked, hitems, htrunc, hcap, hpost⟩ :=
    listObjects_spec lower other bucket keyPrefix maxItems hl ht
  have hcomplete : Complete keyPrefix (pre ++ post) r ↔ entryCount keyPrefix post = 0 := by
    constructor
    · intro h
      have hlen := (hitems.symm.trans h).length_eq
      simp only [entryCount, List.flatMap_append, List.length_append] at hlen ⊢
      omega
    · intro h
      have hfolders : post.flatMap ListPage.folders = [] :=
        List.length_eq_zero_iff.mp (by simp only [entryCount] at h; omega)
      have hfiles : post.flatMap (ListPage.files keyPrefix) = [] :=
        List.length_eq_zero_iff.mp (by simp only [entryCount] at h; omega)
      simpa [Complete, hfolders, hfiles] using hitems
  have hflag : r.isTruncated = false ↔ entryCount keyPrefix pre < maxItems := by
    rw [← Bool.not_eq_true, htrunc]
    omega
  -- pages that leave something out at the cap begin with those that were read
  have hfirst : (∃ before after, pre ++ post = before ++ after ∧ maxItems ≤ entryCount keyPrefix before ∧
      0 < entryCount keyPrefix after) →
      0 < entryCount keyPrefix post := by
    intro h
    obtain ⟨before, after, he, hmet, hleft⟩ := h
    rcases List.append_eq_append_iff.mp he with ⟨mid, rfl, rfl⟩ | ⟨mid, hpre, rfl⟩
    · simp only [entryCount_append]
      omega
    · cases mid with
      | nil => simpa using hleft
      | cons page mid =>
        have hbefore : before ≠ [] := by
          intro h
          rw [h] at hmet
          exact absurd hmet (by simp [entryCount]; omega)
        have := hcap before _ hpre hbefore (by simp)
        omega
  constructor
  · intro h
    obtain ⟨r', hr', -, -, hexact⟩ := h
    cases hout.symm.trans hr'
    rw [hflag, hcomplete] at hexact
    by_cases hmet : maxItems ≤ entryCount keyPrefix pre
    · exact Or.inr ⟨pre, post, rfl, hmet, by omega⟩
    · have hnil := hpost (by omega)
      subst hnil
      exact Or.inl (by simpa using hmet)
  · intro h
    refine ⟨r, hout, horder, hasked, ?_⟩
    rw [hflag, hcomplete]
    rcases h with hall | hleft
    · rw [entryCount_append] at hall
      have hnil := hpost (by omega)
      subst hnil
      exact iff_of_true (by omega) rfl
    · have := hfirst hleft
      constructor
      · intro hlt
        rw [hpost hlt] at this
        cases this
      · omega

def noOther : S3Op → Except S3Exc ListPage := fun _ => .error (.clientError "InvalidArgument")

/-- Two pages: the cap of 1 is met by the first, and the second has an entry. -/
def twoPages : List ListPage := [⟨some ["a/"], none, true, some "t"⟩, ⟨some ["b/"], none, false, none⟩]

theorem truncation_exact_two : TruncationExact id noOther 2 "b" "" 1 twoPages :=
  (truncation_exact_iff id noOther "b" "" 1 (by decide) twoPages ⟨rfl, rfl, rfl⟩ 2 (by decide)).mpr
    (Or.inr ⟨[⟨some ["a/"], none, true, some "t"⟩], [⟨some ["b/"], none, false, none⟩], rfl, by decide, by decide⟩)

/-- One page with one folder, and a cap of 1. -/
theorem truncation_not_exact : ¬TruncationExact id noOther 1 "b" "" 1 [⟨some ["a/"], none, false, none⟩] := by
  intro h
  obtain ⟨r, hr, -, -, hexact⟩ := h
  have hall : (listed id noOther 1 "b" "" 1 [⟨some ["a/"], none, false, none⟩]).outcome =
      .ok (some ⟨[folderItem "a/"], 1, true⟩) := by
    simp [listed, listObjects, listLoop, Prog.await, Prog.bind, Prog.catching, play, Cursor.serve,
      Listing.add, Listing.size, ListPage.folders, ListPage.files, listResult, sortByName]
  cases hall.symm.trans hr
  have hperm : Complete "" [⟨some ["a/"], none, false, none⟩] ⟨[folderItem "a/"], 1, true⟩ := List.Perm.refl _
  cases hexact.mpr hperm

end Connect.S3
