/-
  Connect.Worker.Listing — what a folder job imports, when nothing goes wrong: the keys
  that `list_all_objects` gives for its bucket, which are those that do not end with a slash.
-/

import Connect.LucidLink.Destination
import Connect.Worker.Settled

namespace Connect.Worker

open Await
open LucidLink (imported Aside tail_aside plays_importKeys JobCall)

/-! ## The listing -/

/-- A page of `list_objects_v2`; the keys of its "Contents". -/
structure Page where
  contents : Option (List String)
  deriving DecidableEq, Repr

/-- `_paginate`, which does not take the markers of folders. -/
def paginate (pages : List Page) : List String :=
  pages.flatMap fun page => (page.contents.getD []).filter fun key => !Path.endsSlash key

/-- The pages S3 gives for a prefix of these objects. -/
def Lists (pages : List Page) (keyPrefix : String) (keys : List String) : Prop :=
  ∀ key, (∃ page ∈ pages, key ∈ page.contents.getD []) ↔ key ∈ keys ∧ keyPrefix.toList.isPrefixOf key.toList = true

theorem mem_paginate {pages : List Page} {keys : List String} (h : Lists pages "" keys) (key : String) :
    key ∈ paginate pages ↔ key ∈ keys ∧ Path.endsSlash key = false := by
  have hkey : (∃ page ∈ pages, key ∈ page.contents.getD []) ↔ key ∈ keys := (h key).trans (by simp)
  simp only [paginate, List.mem_flatMap, List.mem_filter, Bool.not_eq_true', ← hkey]
  constructor
  · intro h
    obtain ⟨page, hpage, hkey, hend⟩ := h
    exact ⟨⟨page, hpage, hkey⟩, hend⟩
  · intro h
    obtain ⟨⟨page, hpage, hkey⟩, hend⟩ := h
    exact ⟨page, hpage, hkey, hend⟩

/-! ## The folder job -/

/-- The answers to a job over these pages that nothing goes wrong for and nobody cancels. -/
def JobAccepts (pages : List Page) : (o : JobOp) → Except Exc o.Ret → Prop
  | .listAllObjects _ _, r => r = .ok (paginate pages)
  | .getJob _, r => ∃ row, r = .ok row ∧ isCancelled row = false
  | .ensureStructure _, r => ∃ error, r = .ok (true, error)
  | .importFile _ _, r => ∃ code error, (code = 200 ∨ code = 201) ∧ r = .ok (code, error)
  | _, r => ∃ v, r = .ok v

section Job

variable {pages : List Page} {ctx : Ctx} {jobId : Nat} {job : JobDict}

theorem accepts_publishLog (line : LogLine) : Yields (JobAccepts pages) (fun _ => True) (publishLog ctx line) :=
  yields_publishLog (fun _ _ h => h) line

theorem accepts_updateStatus (status : Status) (fields : JobFields) :
    Yields (JobAccepts pages) (fun _ => True) (updateStatus jobId status fields) :=
  yields_update (fun _ _ h => h) (fun _ _ _ h => h) _

theorem yields_getJob : Yields (JobAccepts pages) (isCancelled · = false) (getJob jobId) :=
  .await fun _ ⟨row, hr, hrow⟩ => ⟨row, hr, hrow⟩

theorem yields_createFolders (dirs : List String) :
    Yields (JobAccepts pages) (fun _ => True) (createFolders ctx dirs) := by
  induction dirs with
  | nil => trivial
  | cons d dirs ih =>
    refine .bind (Q := fun result => result.1 = true) (.await fun _ ⟨error, hr⟩ => ⟨_, hr, rfl⟩)
      fun result hresult => ?_
    obtain ⟨made, error⟩ := result
    cases hresult
    exact .bind (Q := fun _ => True) trivial fun _ _ => ih

/-- A part that returns: what is imported behind it is imported. -/
theorem yields_step {α β : Type} {Q : α → Prop} {p : JobProg α} {f : α → JobProg β} {calls : List JobCall}
    {x : Except Exc β}
    (hp : Yields (JobAccepts pages) Q p) (h : Plays (p.bind f) calls x)
    (hok : ∀ call ∈ calls, JobAccepts pages call.op call.ans) :
    ∃ a rest, Q a ∧ picked imported rest ⊆ picked imported calls ∧ Plays (f a) rest x ∧
      ∀ call ∈ rest, JobAccepts pages call.op call.ans := by
  obtain ⟨a, _, first, rest, rfl, ha, _, hrest, hok⟩ := hp.goes_on (fun _ => rfl) h hok
  refine ⟨a, rest, ha, ?_, hrest, hok⟩
  rw [picked_append]
  exact List.subset_append_right _ _

/-- One batch imports its keys. -/
theorem gather_imports {bucketName : String} {batch : List String} {calls : List JobCall}
    {x : Except Exc (List (Except Exc (Nat × String)))}
    (h : Plays (runBatch bucketName batch) calls x) (hok : ∀ call ∈ calls, JobAccepts pages call.op call.ans) :
    (∃ results, x = .ok results) ∧ picked imported calls = batch.map fun key => (key, llPath bucketName key) := by
  unfold runBatch at h
  induction batch generalizing calls x with
  | nil =>
    obtain ⟨rfl, rfl, _⟩ := h
    exact ⟨⟨_, rfl⟩, rfl⟩
  | cons key batch ih =>
    have hfirst : Yields (JobAccepts pages) (fun r => ∃ answer, r = .ok answer)
        (importFile key (llPath bucketName key)).attempt :=
      fun r ⟨code, error, _, hr⟩ => by rw [hr]; exact ⟨(code, error), rfl⟩
    obtain ⟨_, _, first, rest, rfl, ⟨answer, rfl⟩, hp, hgo, hrest⟩ := hfirst.goes_on (fun _ => rfl) h hok
    obtain ⟨_, hanswer, hp⟩ := exec_attempt hp
    obtain ⟨_, _, _, _, _, rfl⟩ := exec_await hp
    rcases exec_bind (fun _ => rfl) hgo with ⟨e, rfl, hp⟩ | ⟨results, _, more, last, rfl, hp, hret⟩
    · obtain ⟨⟨_, he⟩, _⟩ := ih hp hrest
      cases he
    · obtain ⟨rfl, rfl, _⟩ := hret
      rw [List.append_nil] at hrest ⊢
      exact ⟨⟨_, rfl⟩, congrArg (_ :: ·) (ih hp hrest).2⟩

theorem batchLoop_imports {bucketName : String} {keys : List String} {is : List Nat} {p : Progress}
    {calls : List JobCall}
    {x : Except Exc Progress} (h : Plays (batchLoop ctx jobId bucketName keys is p) calls x)
    (hok : ∀ call ∈ calls, JobAccepts pages call.op call.ans) :
    (∃ p', x = .ok p') ∧ ∀ i ∈ is, ∀ key ∈ slice keys i batchSize,
    (key, llPath bucketName key) ∈ picked imported calls := by
  induction is generalizing p calls x with
  | nil =>
    obtain ⟨rfl, rfl, _⟩ := h
    exact ⟨⟨_, rfl⟩, fun _ hi => nomatch hi⟩
  | cons i is ih =>
    have hsleep : Yields (JobAccepts pages) (fun _ => True) (@Prog.await jobSig Exc JobOp.sleep) :=
      .returns fun _ h => h
    obtain ⟨current, _, hcurrent, hall, h, hok⟩ := yields_step yields_getJob h hok
    rw [if_neg (by simp [hcurrent])] at h
    rcases exec_bind (fun _ => rfl) h with ⟨e, rfl, hp⟩ | ⟨results, _, batch, rest, rfl, hp, h⟩
    · obtain ⟨⟨_, he⟩, _⟩ := gather_imports hp hok
      cases he
    obtain ⟨hbatch, hok⟩ := List.forall_mem_append.mp hok
    obtain ⟨_, himports⟩ := gather_imports hp hbatch
    obtain ⟨_, _, _, hlogged, h, hok⟩ := yields_step (accepts_publishLog _) h hok
    obtain ⟨_, _, _, hwritten, h, hok⟩ := yields_step (accepts_updateStatus _ _) h hok
    obtain ⟨_, _, _, hslept, h, hok⟩ := yields_step hsleep h hok
    obtain ⟨hret, hrest⟩ := ih h hok
    refine ⟨hret, fun j hj key hkey => hall ?_⟩
    rw [picked_append, List.mem_append, himports]
    rcases List.mem_cons.mp hj with rfl | hj
    · exact Or.inl (List.mem_map_of_mem hkey)
    · exact Or.inr (hlogged (hwritten (hslept (hrest j hj key hkey))))

theorem importKeys_imports {keys : List String} {calls : List JobCall} {x : Except Exc JobResult}
    (h : Plays (importKeys ctx job jobId keys) calls x) (hok : ∀ call ∈ calls, JobAccepts pages call.op call.ans) :
    ∀ key ∈ keys, (key, llPath job.bucket key) ∈ picked imported calls := by
  obtain ⟨_, _, _, htotal, h, hok⟩ := yields_step (accepts_updateStatus _ _) h hok
  obtain ⟨_, _, _, hfound, h, hok⟩ := yields_step (accepts_publishLog _) h hok
  obtain ⟨_, _, _, hfolders, h, hok⟩ := yields_step (accepts_publishLog _) h hok
  obtain ⟨_, _, _, hmade, h, hok⟩ := yields_step (yields_createFolders _) h hok
  obtain ⟨current, _, hcurrent, hread, h, hok⟩ := yields_step yields_getJob h hok
  rw [if_neg (by simp [hcurrent])] at h
  obtain ⟨_, _, _, hstarts, h, hok⟩ := yields_step (accepts_publishLog _) h hok
  have hloop : ∀ {calls : List JobCall} {x},
      Plays (batchLoop ctx jobId job.bucket keys (pyRange keys.length batchSize) ⟨0, 0, 0, 0⟩) calls x →
      (∀ call ∈ calls, JobAccepts pages call.op call.ans) →
      ∀ key ∈ keys, (key, llPath job.bucket key) ∈ picked imported calls := by
    intro calls x h hok key hkey
    obtain ⟨i, hi, hslice⟩ := mem_slices (n := batchSize) (by decide) hkey
    exact (batchLoop_imports h hok).2 i hi key hslice
  intro key hkey
  refine htotal (hfound (hfolders (hmade (hread (hstarts ?_)))))
  rcases exec_bind (fun _ => rfl) h with ⟨e, rfl, hp⟩ | ⟨p, _, _, rest, rfl, hp, _⟩
  · exact hloop hp hok key hkey
  · rw [picked_append]
    exact List.mem_append_left _ (hloop hp (fun call hc => hok call (List.mem_append_left _ hc)) key hkey)

/-- The job imports what is listed. -/
theorem job_imports {r : Resolved} {calls : List JobCall} {x : Except Exc JobResult}
    (h : Plays (importJobBody ctx job jobId r) calls x)
    (hok : ∀ call ∈ calls, JobAccepts pages call.op call.ans) (p : String × String) :
    p ∈ picked imported calls ↔ ∃ key ∈ paginate pages, p = (key, llPath job.bucket key) := by
  unfold importJobBody at h
  have hnone : ∀ {α : Type} {q : JobProg α} {calls : List JobCall} {x}, q.Uses Aside → Plays q calls x →
      picked imported calls = [] :=
    fun hu hp => (tail_aside (exec_uses hu hp)).imported
  have hnew : Yields (JobAccepts pages) (fun _ => True) (@Prog.await jobSig Exc
      (JobOp.newS3Service r.dsCred.accessKey r.dsCred.secretKey
        ((truthy r.dsCred.region).getD "us-east-1") r.dsCred.endpoint)) :=
    .returns fun _ h => h
  have hlist : Yields (JobAccepts pages) (· = paginate pages) (listAllObjects job.bucket job.keyPrefix) :=
    .await fun _ hr => ⟨_, hr, rfl⟩
  obtain ⟨_, _, c1, rest, rfl, _, h1, h, hok⟩ := hnew.goes_on (fun _ => rfl) h hok
  obtain ⟨_, _, c2, rest, rfl, _, h2, h, hok⟩ := (accepts_publishLog _).goes_on (fun _ => rfl) h hok
  obtain ⟨_, _, c3, rest, rfl, _, h3, h, hok⟩ := (accepts_publishLog _).goes_on (fun _ => rfl) h hok
  obtain ⟨keys, _, c4, rest, rfl, rfl, h4, hgo, hrest⟩ := hlist.goes_on (fun _ => rfl) h hok
  obtain ⟨_, _, _, _, _, rfl⟩ := exec_await h4
  rw [picked_append, picked_append, picked_append, picked_append, hnone (by exact .await trivial) h1,
    hnone (uses_publishLog trivial) h2, hnone (uses_publishLog trivial) h3]
  show p ∈ picked imported rest ↔ _
  by_cases hempty : paginate pages = []
  · rw [if_pos (by simp [hempty])] at hgo
    have hu : (noKeys ctx jobId).Uses Aside :=
      .bind (uses_publishLog trivial) fun _ => .bind (LucidLink.uses_status_aside _ _) fun _ => trivial
    rw [hnone hu hgo, hempty]
    simp
  · rw [if_neg (by simpa using hempty)] at hgo
    constructor
    · intro hp
      rcases plays_importKeys hgo with ⟨hnil, _⟩ | ⟨_, hpaths⟩
      · rw [hnil] at hp
        cases hp
      · exact hpaths p hp
    · intro h
      obtain ⟨key, hkey, rfl⟩ := h
      exact importKeys_imports hgo hrest key hkey

end Job

end Connect.Worker
