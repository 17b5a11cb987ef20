/-
  Connect.Web.ImportFolder — the jobs that folder imports post: import_folder (main.py) on
  the sessions of Connect.Web.Session, JobQueue.add_job and JobRepository.create_job.

  The bucket and the filespace of a job are those of the entry in the session of the
  process that serves the import. A worker takes them from the row, and the keys from the
  credentials stored under the row's datastore and user when it gets there. Between the
  two the owner cancels, deletes and clears jobs, and workers update them (`Update`: any
  UPDATE that leaves alone the columns a job is imported by).
-/

import Connect.Web.Browse
import Connect.Web.JobList

namespace Connect.Data

open Sql

namespace JobRepository

/-- The row of `create_job`; the other columns have their defaults. -/
def pending (userId : Option Uuid) (bucket keyPrefix filespaceId datastoreId : String) (now : Int) (id : Nat) : Job :=
  ⟨id, "pending", bucket, keyPrefix, filespaceId, datastoreId, 0, 0, 0, none, now, none, none, userId⟩

def createJob (now : Int) (s : Tables) (userId : Option Uuid) (bucket keyPrefix filespaceId datastoreId : String) :
    Except SqlError Job × Tables :=
  let new := pending userId bucket keyPrefix filespaceId datastoreId now
  let t := s.importJobs
  if [bucket, keyPrefix, filespaceId, datastoreId].all isText then
    if maxInteger < t.next then (.error .sequenceLimit, s)
    else if s.userExists userId then (.ok (new t.next), { s with importJobs := t.insert new fun _ => rfl })
    else (.error .integrityError, { s with importJobs := t.draw })
  else (.error .dataError, s)

end JobRepository

end Connect.Data

namespace Connect.Web.ImportFolder

open Data Sql Cache

/-! ## The route -/

/-- The web processes with the tables, and the jobs handed to ARQ, the newest first. -/
structure Depot where
  web : World
  enqueued : List Nat

/-- What a process has of Valkey when it adds a job. -/
inductive Valkey where
  | noPool
  | enqueues
  /-- `enqueue_job` raises. -/
  | raises
  deriving DecidableEq, Repr

inductive FolderPage where
  | jobError (error : String)
  | jobAdded (jobId : Nat) (keyPrefix : String)
  /-- The route raised. -/
  | serverError
  deriving DecidableEq, Repr

/-- `JobQueue.add_job`; `none` when it raises. A job that could not be enqueued stays in the table. -/
def addJob (now : Int) (valkey : Valkey) (d : Depot) (bucket keyPrefix filespaceId datastoreId : String)
    (userId : Option Uuid) :
    Option Nat × Depot :=
  match JobRepository.createJob now d.web.tables userId bucket keyPrefix filespaceId datastoreId with
  | (.error _, s) => (none, { d with web := { d.web with tables := s } })
  | (.ok job, s) =>
    let d := { d with web := { d.web with tables := s } }
    match valkey with
    | .noPool => (some job.id, d)
    | .enqueues => (some job.id, { d with enqueued := job.id :: d.enqueued })
    | .raises => (none, d)

variable (cipher : Cipher) (boto3Client : ClientKwargs → Bool) (savedToken : Nat → Uuid → Option String)

def importFolder (d : Depot) (p : Nat) (u : Uuid) (datastoreId keyPrefix : String) (now : Int) (valkey : Valkey) :
    FolderPage × Depot :=
  match (d.web.getSession savedToken p u).hydrate cipher boto3Client d.web.tables u with
  | (.error _, st) => (.serverError, { d with web := d.web.put p u st })
  | (.ok (), st) =>
    let d := { d with web := d.web.put p u st }
    match st.datastoreCredentials datastoreId with
    | none => (.jobError "DataStore credentials not found", d)
    | some cred =>
      if cred.filespaceId = "" ∨ datastoreId = "" then (.jobError "Missing filespace or datastore configuration", d)
      else if cred.bucketName = "" then (.jobError "No bucket specified", d)
      else
        match addJob now valkey d cred.bucketName keyPrefix cred.filespaceId datastoreId (some u) with
        | (none, d) => (.serverError, d)
        | (some jobId, d) => (.jobAdded jobId keyPrefix, d)

/-! ## Runs -/

/-- A worker's UPDATE of import_jobs. -/
structure Update where
  rows : Job → Bool
  set : Job → Job
  id : ∀ r, (set r).id = r.id
  target : ∀ r, (set r).userId = r.userId ∧ (set r).datastoreId = r.datastoreId ∧ (set r).bucket = r.bucket ∧
    (set r).keyPrefix = r.keyPrefix ∧ (set r).filespaceId = r.filespaceId

inductive Deed where
  | web (r : Served)
  | importFolder (p : Nat) (u : Uuid) (datastoreId keyPrefix : String) (now : Int) (valkey : Valkey)
  | jobs (u : Option Uuid) (route : JobRoute)
  | work (update : Update)

def Depot.withJobs (d : Depot) (t : Serial Job.id) : Depot :=
  { d with web := { d.web with tables := { d.web.tables with importJobs := t } } }

def perform (d : Depot) : Deed → Depot
  | .web r => { d with web := (serve cipher boto3Client savedToken d.web r).2 }
  | .importFolder p u datastoreId keyPrefix now valkey =>
    (importFolder cipher boto3Client savedToken d p u datastoreId keyPrefix now valkey).2
  | .jobs u route =>
    match route.transaction u d.web.tables with
    | .ok s => { d with web := { d.web with tables := s } }
    | .error _ => d
  | .work update => d.withJobs (d.web.tables.importJobs.update update.rows update.set update.id)

variable {cipher}

/-- The depot after some deeds, the newest first. -/
def after (start : Start cipher) : List Deed → Depot
  | [] => ⟨start.world, []⟩
  | deed :: before => perform cipher boto3Client savedToken (after start before) deed

/-- What a user's requests did to the credentials, the newest first. -/
def historyOf (start : Start cipher) : List Deed → History
  | [] => fun _ => []
  | .web r :: before =>
    extend (historyOf start before) r.userId
      (effects boto3Client (after boto3Client savedToken start before).web.tables r)
  | .importFolder p u _ _ _ _ :: before => extend (historyOf start before) u [⟨p, .read⟩]
  | .jobs _ _ :: before => historyOf start before
  | .work _ :: before => historyOf start before

/-! ## The statements -/

/-- The user saved these credentials, and the save went through. -/
def SavedBy (start : Start cipher) (deeds : List Deed) (u : Uuid) (v : Saved) : Prop :=
  ∃ p reachable now salt before, (.web ⟨p, u, .save v reachable now salt⟩ :: before) <:+ deeds ∧
    goesThrough boto3Client (after boto3Client savedToken start before).web.tables u v reachable = true

/-- The user asked for the job: its folder in a request of his own, its bucket and filespace by
    credentials he saved for its datastore. -/
structure Own (start : Start cipher) (deeds : List Deed) (u : Uuid) (job : Job) : Prop where
  owner : job.userId = some u
  asked : ∃ p now valkey before, (.importFolder p u job.datastoreId job.keyPrefix now valkey :: before) <:+ deeds
  target : ∃ v, SavedBy boto3Client savedToken start deeds u v ∧ v.datastoreId = job.datastoreId ∧
    v.bucketName = job.bucket ∧
    v.filespaceId = job.filespaceId

/-- The keys a worker now finds for the job are keys the user saved for its datastore. -/
def OwnKeys (start : Start cipher) (deeds : List Deed) (u : Uuid) (job : Job) : Prop :=
  ∀ dict, getDatastoreCredentials cipher
    (after boto3Client savedToken start deeds).web.tables job.datastoreId job.userId =
      .ok (some dict) →
    SavedBy boto3Client savedToken start deeds u dict.toSaved ∧ dict.datastoreId = job.datastoreId ∧
    dict.userId = some u

/-- A session that has learned `v` of the datastore can post a job with it: nothing it needs is
    empty, the folder is a text and the sequence of the ids has a value left. -/
structure Posts (h : List (Event Nat String Saved)) (s : Tables) (p : Nat) (datastoreId keyPrefix : String)
    (v : Saved) : Prop where
  learned : learned (fun _ => true) p datastoreId h = some v
  filespace : v.filespaceId ≠ ""
  datastore : datastoreId ≠ ""
  bucket : v.bucketName ≠ ""
  folder : isText keyPrefix = true
  next : s.importJobs.next ≤ maxInteger

/-! ## A folder import -/

variable {boto3Client} {savedToken} {start : Start cipher} {g : History} {d : Depot}

/-- The rows of the jobs are no part of what the sessions rest on. -/
theorem inv_jobs {w : World} (hw : Inv start boto3Client savedToken w g) (t : Serial Job.id) :
    Inv start boto3Client savedToken { w with tables := { w.tables with importJobs := t } } g :=
  ⟨hw.users, hw.settings, hw.rows, hw.possible, hw.sessions⟩

/-- What `create_job` does with texts for a user there is. -/
theorem createJob_text {s : Tables} {u : Uuid} {bucket filespaceId datastoreId : String}
    (keyPrefix : String) (now : Int)
    (hu : s.users.contains u = true) (hb : isText bucket = true) (hf : isText filespaceId = true)
    (hd : isText datastoreId = true) :
    JobRepository.createJob now s (some u) bucket keyPrefix filespaceId datastoreId =
      if isText keyPrefix = true ∧ s.importJobs.next ≤ maxInteger then
        (.ok (JobRepository.pending (some u) bucket keyPrefix filespaceId datastoreId now s.importJobs.next),
          { s with importJobs :=
            s.importJobs.insert (JobRepository.pending
              (some u) bucket keyPrefix filespaceId datastoreId now) fun _ => rfl })
      else (.error (if isText keyPrefix = true then .sequenceLimit else .dataError), s) := by
  have htexts : [bucket, keyPrefix, filespaceId, datastoreId].all isText = isText keyPrefix := by
    simp [hb, hf, hd]
  have hexists : s.userExists (some u) = true := by
    simpa [Tables.userExists] using hu
  simp only [JobRepository.createJob, htexts, hexists, if_true]
  by_cases hk : isText keyPrefix = true
  · by_cases hn : maxInteger < s.importJobs.next
    · have hno : ¬(isText keyPrefix = true ∧ s.importJobs.next ≤ maxInteger) :=
        fun h => absurd h.2 (Nat.not_le_of_lt hn)
      rw [if_pos hk, if_pos hn, if_neg hno, if_pos hk]
    · rw [if_pos hk, if_neg hn, if_pos ⟨hk, Nat.le_of_not_lt hn⟩]
  · have hno : ¬(isText keyPrefix = true ∧ s.importJobs.next ≤ maxInteger) := fun h => hk h.1
    rw [if_neg hk, if_neg hno, if_neg hk]

/-- What a folder import does: a job by what the session has learned, handed to ARQ when Valkey
    takes it, or no job. -/
inductive Imported (d : Depot) (h : List (Event Nat String Saved)) (p : Nat) (u : Uuid)
    (datastoreId keyPrefix : String) (now : Int) (valkey : Valkey) (new : Depot) : Prop
  | posted {v : Saved} : Posts h d.web.tables p datastoreId keyPrefix v →
      new.web.tables.importJobs.rows = d.web.tables.importJobs.rows ++
        [JobRepository.pending (some u) v.bucketName keyPrefix v.filespaceId datastoreId now
          d.web.tables.importJobs.next] →
      new.enqueued = (if valkey = .enqueues then [d.web.tables.importJobs.next] else []) ++ d.enqueued →
      Imported d h p u datastoreId keyPrefix now valkey new
  | refused : (∀ v, ¬Posts h d.web.tables p datastoreId keyPrefix v) →
      new.web.tables.importJobs = d.web.tables.importJobs → new.enqueued = d.enqueued →
      Imported d h p u datastoreId keyPrefix now valkey new

/-- Every save there was had texts, and was of the datastore it is kept under. -/
def Bound (g : History) (u : Uuid) : Prop :=
  ∀ e ∈ g u, ∀ k v, e.op = .put k v → v.bound = true ∧ v.datastoreId = k

theorem learned_bound (hg : Bound g u) {p : Nat} {datastoreId : String} {v : Saved}
    (hl : learned (fun _ => true) p datastoreId (⟨p, .read⟩ :: g u) = some v) :
    (∃ e ∈ g u, e.op = .put datastoreId v) ∧ v.bound = true ∧ v.datastoreId = datastoreId := by
  obtain ⟨e, he, hop⟩ := put_of_learned hl
  rcases List.mem_cons.mp he with rfl | he
  · cases hop
  · exact ⟨⟨e, he, hop⟩, hg e he _ v hop⟩

theorem bound_texts {v : Saved} (h : v.bound = true) :
    isText v.datastoreId = true ∧ isText v.filespaceId = true ∧ isText v.bucketName = true := by
  simp only [Saved.bound, List.all_append, List.all_cons, Bool.and_eq_true] at h
  exact ⟨h.1.1.1, h.1.1.2.2.1, h.1.1.2.2.2.2.1⟩

theorem import_goes (hw : Inv start boto3Client savedToken d.web g) (hg : Bound g u) (p : Nat)
    (datastoreId keyPrefix : String) (now : Int) (valkey : Valkey) :
    let new := (importFolder cipher boto3Client savedToken d p u datastoreId keyPrefix now valkey).2
    Inv start boto3Client savedToken new.web (extend g u [⟨p, .read⟩]) ∧
      Imported d (⟨p, .read⟩ :: g u) p u datastoreId keyPrefix now valkey new := by
  intro new
  have hnil : extend g u [] = g := extend_nil g u
  obtain ⟨st', hhyd, hst'⟩ :=
    hydrate_step hw (t := d.web.tables.datastoreCredentials) [] (by rw [hnil]; exact hw.rows)
    (by rw [hnil]; exact hw.possible) (hw.sessions p u)
  have hput : Inv start boto3Client savedToken (d.web.put p u st') (extend g u [⟨p, .read⟩]) := by
    refine hw.served _ ?_ (by rw [byUser_keep g u fun _ => rfl]; exact hw.rows) ?_ hst'
    · intro e he
      rw [List.mem_singleton.mp he]
    · intro e he k v hop
      rw [List.mem_singleton.mp he] at hop
      cases hop
  have hentry := hst'.entries datastoreId
  simp only [List.nil_append] at hentry
  have hnew : new = (importFolder cipher boto3Client savedToken d p u datastoreId keyPrefix now valkey).2 := rfl
  simp only [importFolder, hhyd] at hnew
  cases hl : learned (fun _ => true) p datastoreId (⟨p, .read⟩ :: g u) with
  | none =>
    rw [hl] at hentry
    simp only [hentry, Option.map_none] at hnew
    rw [hnew]
    refine ⟨hput, .refused (fun v hv => ?_) rfl rfl⟩
    rw [hv.learned] at hl
    cases hl
  | some v =>
    obtain ⟨⟨e, he, hop⟩, hbound, hid⟩ := learned_bound hg hl
    obtain ⟨htd, htf, htb⟩ := bound_texts hbound
    rw [hid] at htd
    have huser : d.web.tables.users.contains u = true := by
      rw [hw.users]
      exact (hw.possible u e he datastoreId v hop).1
    have hall : ∀ w, Posts (⟨p, .read⟩ :: g u) d.web.tables p datastoreId keyPrefix w → w = v := by
      intro w hv
      exact Option.some.inj (hv.learned.symm.trans hl)
    rw [hl] at hentry
    simp only [hentry, Option.map_some, cached] at hnew
    by_cases hmissing : v.filespaceId = "" ∨ datastoreId = ""
    · rw [if_pos hmissing] at hnew
      rw [hnew]
      refine ⟨hput, .refused (fun w hv => ?_) rfl rfl⟩
      obtain rfl := hall w hv
      exact hmissing.elim hv.filespace hv.datastore
    by_cases hbucket : v.bucketName = ""
    · rw [if_neg hmissing, if_pos hbucket] at hnew
      rw [hnew]
      refine ⟨hput, .refused (fun w hv => ?_) rfl rfl⟩
      obtain rfl := hall w hv
      exact hv.bucket hbucket
    rw [if_neg hmissing, if_neg hbucket] at hnew
    have htables : (d.web.put p u st').tables = d.web.tables := rfl
    have hcreate := createJob_text (s := d.web.tables) keyPrefix now huser htb htf htd
    by_cases hgo : isText keyPrefix = true ∧ d.web.tables.importJobs.next ≤ maxInteger
    · have hposts : Posts (⟨p, .read⟩ :: g u) d.web.tables p datastoreId keyPrefix v :=
        ⟨hl, fun h => hmissing (.inl h), fun h => hmissing (.inr h), hbucket, hgo.1, hgo.2⟩
      rw [if_pos hgo] at hcreate
      simp only [addJob, htables, hcreate] at hnew
      cases valkey with
      | noPool =>
        rw [hnew]
        exact ⟨inv_jobs hput _, .posted hposts rfl rfl⟩
      | enqueues =>
        rw [hnew]
        exact ⟨inv_jobs hput _, .posted hposts rfl rfl⟩
      | raises =>
        rw [hnew]
        exact ⟨inv_jobs hput _, .posted hposts rfl rfl⟩
    · rw [if_neg hgo] at hcreate
      simp only [addJob, htables, hcreate] at hnew
      rw [hnew]
      refine ⟨hput, .refused (fun w hv => ?_) rfl rfl⟩
      exact hgo ⟨hv.folder, hv.next⟩

/-! ## What the other deeds leave alone -/

theorem save_jobs (s : Tables) (v : Saved) (userId : Option Uuid) (now : Int) (salt : Nat) :
    (Data.saveDatastoreCredentials cipher now salt s v userId).2.importJobs = s.importJobs := by
  unfold Data.saveDatastoreCredentials
  split
  · unfold DatastoreCredentialsRepository.upsert
    simp only [Prod.map_snd, id]
    split
    · rfl
    · split
      · rfl
      · split <;> rfl
  · rfl

theorem delete_jobs (s : Tables) (datastoreId : String) (userId : Option Uuid) :
    (Data.deleteDatastoreCredentials s datastoreId userId).2.importJobs = s.importJobs := by
  unfold Data.deleteDatastoreCredentials
  split <;> rfl

theorem hydrated_jobs (w : World) (p : Nat) (u : Uuid) (st : UserSession) :
    (tabSettings cipher boto3Client w p u st).2.tables.importJobs = w.tables.importJobs := by
  unfold tabSettings
  split <;> rfl

/-- Saves, deletes and browses leave the jobs alone. -/
theorem serve_jobs (w : World) (r : Served) :
    (serve cipher boto3Client savedToken w r).2.tables.importJobs = w.tables.importJobs := by
  obtain ⟨p, u, request⟩ := r
  cases request with
  | save v reachable now salt =>
    have hsave := @save_jobs cipher w.tables v (some u) now salt
    simp only [serve, saveDatastoreCredentials]
    split
    · rfl
    · split
      · generalize Data.saveDatastoreCredentials cipher now salt w.tables v (some u) = x at hsave
        obtain ⟨reply, s⟩ := x
        cases reply <;> exact hsave
      · rfl
  | delete datastoreId =>
    have hdelete := delete_jobs w.tables datastoreId (some u)
    simp only [serve, deleteDatastoreCredentials]
    generalize Data.deleteDatastoreCredentials w.tables datastoreId (some u) = x at hdelete
    obtain ⟨reply, s⟩ := x
    cases reply with
    | error e => exact hdelete
    | ok deleted => exact (hydrated_jobs _ p u _).trans hdelete
  | browse datastoreId keyPrefix =>
    simp only [serve, browseDatastore]
    split
    · rfl
    · split
      · rfl
      · split <;> rfl

/-- The columns a job is imported by. -/
def SameTarget (job job' : Job) : Prop :=
  job'.userId = job.userId ∧ job'.datastoreId = job.datastoreId ∧ job'.bucket = job.bucket ∧
    job'.keyPrefix = job.keyPrefix ∧
    job'.filespaceId = job.filespaceId

/-- The owner's routes delete jobs and write their status, and nothing else. -/
theorem transaction_jobs {s t : Tables} {u : Option Uuid} {route : JobRoute} (h : route.transaction u s = .ok t) :
    ∃ jobs, t = { s with importJobs := jobs } ∧
    ∀ job' ∈ jobs.rows, ∃ job ∈ s.importJobs.rows, SameTarget job job' := by
  have hsame : ∀ job : Job, SameTarget job job := fun job => ⟨rfl, rfl, rfl, rfl, rfl⟩
  cases route with
  | listJobs =>
    cases h
    exact ⟨s.importJobs, rfl, fun job hjob => ⟨job, hjob, hsame job⟩⟩
  | cancelJob jobId =>
    simp only [JobRoute.transaction] at h
    split at h
    · cases h
      refine ⟨_, rfl, fun job' hjob' => ?_⟩
      obtain ⟨job, hjob, rfl⟩ := List.mem_map.mp hjob'
      refine ⟨job, hjob, ?_⟩
      split
      · exact ⟨rfl, rfl, rfl, rfl, rfl⟩
      · exact hsame job
    · cases h
  | deleteJob jobId =>
    simp only [JobRoute.transaction] at h
    split at h
    · cases h
      exact ⟨_, rfl, fun job hjob => ⟨job, (List.mem_filter.mp hjob).1, hsame job⟩⟩
    · cases h
  | clearJobs =>
    cases h
    exact ⟨_, rfl, fun job hjob => ⟨job, (List.mem_filter.mp hjob).1, hsame job⟩⟩

theorem update_jobs (update : Update) (t : Serial Job.id) {job' : Job}
    (h : job' ∈ (t.update update.rows update.set update.id).rows) :
    ∃ job ∈ t.rows, SameTarget job job' := by
  obtain ⟨job, hjob, rfl⟩ := List.mem_map.mp h
  refine ⟨job, hjob, ?_⟩
  split
  · exact update.target job
  · exact ⟨rfl, rfl, rfl, rfl, rfl⟩

/-! ## Every run -/

variable {deeds : List Deed} {u : Uuid}

theorem SavedBy.later {v : Saved} (h : SavedBy boto3Client savedToken start deeds u v) (deed : Deed) :
    SavedBy boto3Client savedToken start (deed :: deeds) u v := by
  obtain ⟨p, reachable, now, salt, before, hb, hgo⟩ := h
  exact ⟨p, reachable, now, salt, before, hb.trans (List.suffix_cons deed deeds), hgo⟩

/-- A save in the history was one of the run, of the datastore it is kept under. -/
theorem saved_of_put {e : Event Nat String Saved} {k : String} {v : Saved}
    (he : e ∈ historyOf boto3Client savedToken start deeds u) (hop : e.op = .put k v) :
    SavedBy boto3Client savedToken start deeds u v ∧ v.datastoreId = k := by
  induction deeds with
  | nil => cases he
  | cons deed before ih =>
    have hbefore : e ∈ historyOf boto3Client savedToken start before u →
        SavedBy boto3Client savedToken start (deed :: before) u v ∧ v.datastoreId = k :=
      fun he => ⟨(ih he).1.later deed, (ih he).2⟩
    cases deed with
    | web r =>
      obtain ⟨p, u', request⟩ := r
      by_cases hu : u = u'
      · subst hu
        simp only [historyOf, extend_self] at he
        rcases List.mem_append.mp he with he | he
        · cases request with
          | save v' reachable now salt =>
            simp only [effects] at he
            split at he
            · rename_i hgo
              rw [List.mem_singleton.mp he] at hop
              cases hop
              exact ⟨⟨p, reachable, now, salt, before, List.suffix_refl _, hgo⟩, rfl⟩
            · cases he
          | delete d =>
            simp only [effects] at he
            split at he
            · rcases List.mem_cons.mp he with rfl | he
              · cases hop
              · rw [List.mem_singleton.mp he] at hop
                cases hop
            · cases he
          | browse d keyPrefix =>
            simp only [effects] at he
            rw [List.mem_singleton.mp he] at hop
            cases hop
        · exact hbefore he
      · simp only [historyOf, extend_ne _ _ hu] at he
        exact hbefore he
    | importFolder p u' datastoreId keyPrefix now valkey =>
      by_cases hu : u = u'
      · subst hu
        simp only [historyOf, extend_self] at he
        rcases List.mem_append.mp he with he | he
        · rw [List.mem_singleton.mp he] at hop
          cases hop
        · exact hbefore he
      · simp only [historyOf, extend_ne _ _ hu] at he
        exact hbefore he
    | jobs u' route => exact hbefore he
    | work update => exact hbefore he

theorem SavedBy.bound {v : Saved} (h : SavedBy boto3Client savedToken start deeds u v) : v.bound = true := by
  obtain ⟨p, reachable, now, salt, before, -, hgo⟩ := h
  have htaken := (goesThrough_iff.mp hgo).2.2.1
  exact (Bool.and_eq_true _ _ ▸ htaken).1

theorem bound_history (u : Uuid) : Bound (historyOf boto3Client savedToken start deeds) u := by
  intro e he k v hop
  obtain ⟨hsaved, hid⟩ := saved_of_put he hop
  exact ⟨hsaved.bound, hid⟩

theorem Own.later {job : Job} (h : Own boto3Client savedToken start deeds u job) (deed : Deed) :
    Own boto3Client savedToken start (deed :: deeds) u job where
  owner := h.owner
  asked := by
    obtain ⟨p, now, valkey, before, hb⟩ := h.asked
    exact ⟨p, now, valkey, before, hb.trans (List.suffix_cons deed deeds)⟩
  target := by
    obtain ⟨v, hv, hrest⟩ := h.target
    exact ⟨v, hv.later deed, hrest⟩

theorem Own.same {job job' : Job} (hs : SameTarget job job') (h : Own boto3Client savedToken start deeds u job) :
    Own boto3Client savedToken start deeds u job' := by
  obtain ⟨hu, hd, hb, hk, hf⟩ := hs
  obtain ⟨howner, hasked, htarget⟩ := h
  exact ⟨by rw [hu]; exact howner, by rw [hd, hk]; exact hasked, by rw [hd, hb, hf]; exact htarget⟩

/-- The job of a folder import is its user's own. -/
theorem own_pending {p : Nat} {datastoreId keyPrefix : String} {now : Int} {valkey : Valkey} {v : Saved} (id : Nat)
    (h : Posts (⟨p, .read⟩ :: historyOf boto3Client savedToken start deeds u)
      (after boto3Client savedToken start deeds).web.tables p
      datastoreId keyPrefix v) :
    Own boto3Client savedToken start (.importFolder p u datastoreId keyPrefix now valkey :: deeds) u
      (JobRepository.pending (some u) v.bucketName keyPrefix v.filespaceId datastoreId now id) where
  owner := rfl
  asked := ⟨p, now, valkey, deeds, List.suffix_refl _⟩
  target := by
    obtain ⟨⟨e, he, hop⟩, -⟩ := learned_bound (bound_history u) h.learned
    obtain ⟨hsaved, hid⟩ := saved_of_put he hop
    exact ⟨v, hsaved.later _, hid, rfl, rfl⟩

/-- The tables and the sessions against the histories, and every job its owner's. -/
structure Kept (start : Start cipher) (boto3Client : ClientKwargs → Bool) (savedToken : Nat → Uuid → Option String)
    (deeds : List Deed) : Prop where
  web : Inv start boto3Client savedToken (after boto3Client savedToken start deeds).web
    (historyOf boto3Client savedToken start deeds)
  jobs : ∀ job ∈ (after boto3Client savedToken start deeds).web.tables.importJobs.rows, ∃ u,
    Own boto3Client savedToken start deeds u job

theorem kept_step (deed : Deed) (h : Kept start boto3Client savedToken deeds) :
    Kept start boto3Client savedToken (deed :: deeds) := by
  have hkeep : ∀ job ∈ (after boto3Client savedToken start deeds).web.tables.importJobs.rows,
      ∃ u, Own boto3Client savedToken start (deed :: deeds) u job :=
    fun job hjob => (h.jobs job hjob).imp fun _ hown => hown.later deed
  cases deed with
  | web r =>
    constructor
    · obtain ⟨p, u, request⟩ := r
      cases request with
      | save v reachable now salt => exact save_step h.web p u v reachable now salt
      | delete d => exact delete_step h.web p u d
      | browse d keyPrefix => exact (browse_goes h.web p u d keyPrefix).1
    · intro job hjob
      simp only [after, perform, serve_jobs] at hjob
      exact hkeep job hjob
  | importFolder p u datastoreId keyPrefix now valkey =>
    obtain ⟨hweb, himported⟩ := import_goes h.web (bound_history u) p datastoreId keyPrefix now valkey
    refine ⟨hweb, fun job hjob => ?_⟩
    cases himported with
    | posted hposts hrows henqueued =>
      simp only [after, perform, hrows] at hjob
      rcases List.mem_append.mp hjob with hjob | hjob
      · exact hkeep job hjob
      · rw [List.mem_singleton.mp hjob]
        exact ⟨u, own_pending _ hposts⟩
    | refused hnone hrows henqueued =>
      simp only [after, perform, hrows] at hjob
      exact hkeep job hjob
  | jobs u route =>
    cases ht : route.transaction u (after boto3Client savedToken start deeds).web.tables with
    | error e =>
      have hafter : after boto3Client savedToken start (.jobs u route :: deeds) =
          after boto3Client savedToken start deeds := by
        simp only [after, perform, ht]
      exact ⟨hafter ▸ h.web, hafter ▸ hkeep⟩
    | ok t =>
      obtain ⟨jobs, rfl, hjobs⟩ := transaction_jobs ht
      have hafter : after boto3Client savedToken start (.jobs u route :: deeds) =
          (after boto3Client savedToken start deeds).withJobs jobs := by
        simp only [after, perform, ht, Depot.withJobs]
      refine ⟨hafter ▸ inv_jobs h.web jobs, fun job' hjob => ?_⟩
      rw [hafter] at hjob
      obtain ⟨job, hjob, hsame⟩ := hjobs job' hjob
      exact (hkeep job hjob).imp fun _ hown => hown.same hsame
  | work update =>
    refine ⟨inv_jobs h.web _, fun job' hjob => ?_⟩
    obtain ⟨job, hjob, hsame⟩ := update_jobs update _ hjob
    exact (hkeep job hjob).imp fun _ hown => hown.same hsame

theorem kept_after (start : Start cipher) (boto3Client : ClientKwargs → Bool)
    (savedToken : Nat → Uuid → Option String)
    (deeds : List Deed) : Kept start boto3Client savedToken deeds := by
  induction deeds with
  | nil => exact ⟨.start start, fun _ hjob => absurd hjob List.not_mem_nil⟩
  | cons deed before ih => exact kept_step deed ih

/-- The credentials that are found are in a row of the datastore and the user. -/
theorem found_row {s : Tables} {datastoreId : String} {dict : CredentialDict}
    (h : getDatastoreCredentials cipher s datastoreId (some u) = .ok (some dict)) :
    ∃ row ∈ s.datastoreCredentials.rows, row.datastoreId = datastoreId ∧ row.userId = some u ∧
    credentialDict cipher row = .ok dict := by
  unfold getDatastoreCredentials DatastoreCredentialsRepository.getForDatastoreUser at h
  split at h
  · cases hsel : s.datastoreCredentials.select fun r => r.datastoreId == datastoreId && ownedBy (some u) r.userId with
    | nil =>
      rw [hsel] at h
      cases h
    | cons row rows =>
      rw [hsel] at h
      cases rows with
      | cons _ _ => cases h
      | nil =>
        have hin : row ∈ s.datastoreCredentials.select fun r => r.datastoreId == datastoreId &&
            ownedBy (some u) r.userId := by
          rw [hsel]
          exact List.mem_singleton.mpr rfl
        obtain ⟨hrow, hmine⟩ := List.mem_filter.mp hin
        simp only [Bool.and_eq_true, beq_iff_eq, ownedBy_iff] at hmine
        simp only [scalarOneOrNone] at h
        cases hd : credentialDict cipher row with
        | error e =>
          rw [hd] at h
          cases h
        | ok dict' =>
          rw [hd] at h
          cases h
          exact ⟨row, hrow, hmine.1, hmine.2, hd⟩
  · cases h

theorem dict_row {row : DatastoreCredentials} {dict : CredentialDict} (h : credentialDict cipher row = .ok dict) :
    dict.userId = row.userId ∧ dict.bucketName = row.bucketName ∧ dict.filespaceId = row.filespaceId := by
  unfold credentialDict at h
  split at h
  · cases h
  · rw [← Except.ok.inj h]
    exact ⟨rfl, rfl, rfl⟩

theorem ownKeys (start : Start cipher) (boto3Client : ClientKwargs → Bool) (savedToken : Nat → Uuid → Option String)
    {job : Job} (hu : job.userId = some u) : OwnKeys boto3Client savedToken start deeds u job := by
  intro dict hdict
  have hkept := kept_after start boto3Client savedToken deeds
  have hstores := stores_of hkept.web.possible hkept.web.rows u
  obtain ⟨row, hrow, hid, howner, hread⟩ := found_row (hu ▸ hdict)
  obtain ⟨v, hstored, hv⟩ := hstores.rows row hrow howner
  obtain ⟨dict', hdict', rfl, hid'⟩ := credentialDict_of_reads hv
  rw [hread] at hdict'
  cases hdict'
  obtain ⟨e, he, hop⟩ := put_of_stored hstored
  obtain ⟨hsaved, -⟩ := saved_of_put he hop
  exact ⟨hsaved, hid'.trans hid, by rw [(dict_row hread).1, howner]⟩

/-- In every run, over any number of processes and workers, every job of the table is its owner's
    own: he asked for its folder, he saved the credentials its bucket and filespace are from, and
    the keys a worker finds for it are his. -/
theorem jobs_own (start : Start cipher) (boto3Client : ClientKwargs → Bool) (savedToken : Nat → Uuid → Option String)
    (deeds : List Deed) (job : Job) (hjob : job ∈
      (after boto3Client savedToken start deeds).web.tables.importJobs.rows) :
    ∃ u, Own boto3Client savedToken start deeds u job ∧ OwnKeys boto3Client savedToken start deeds u job := by
  obtain ⟨u, hown⟩ := (kept_after start boto3Client savedToken deeds).jobs job hjob
  exact ⟨u, hown, ownKeys start boto3Client savedToken hown.owner⟩

/-- Saved and imported by one process, then taken up by a worker. -/
def takenUp : List Deed :=
  [.work ⟨fun _ => true, fun r => { r with status := "running" }, fun _ => rfl, fun _ => ⟨rfl, rfl, rfl, rfl, rfl⟩⟩,
    .importFolder 0 somebody "ds" "photos/" 5 .enqueues, .web ⟨0, somebody, .save firstSave true 0 0⟩]

def takenUpJob : Job :=
  { JobRepository.pending (some somebody) firstSave.bucketName "photos/" firstSave.filespaceId "ds" 5 1 with
    status := "running" }

theorem jobs_own_takenUp : ∃ u, Own (fun _ => true) (fun _ _ => none) oneUser takenUp u takenUpJob ∧
    OwnKeys (fun _ => true) (fun _ _ => none) oneUser takenUp u takenUpJob :=
  jobs_own oneUser (fun _ => true) (fun _ _ => none) takenUp takenUpJob (by decide)

end Connect.Web.ImportFolder
