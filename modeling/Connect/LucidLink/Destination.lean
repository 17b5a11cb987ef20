/-
  Connect.LucidLink.Destination — the folders `ensure_structure` is asked for next to the
  paths `import_file` is given, on the folder job (services/worker.py) and on the event
  path (services/sqs_poller.py).

  Both paths are `/<base>/<key>`, where the base is the bucket, with the stripped prefix
  of the queue behind it. The job asks for folders by `os.path.dirname` of the keys, each
  once, with a dummy file behind; these are the folders of the paths themselves
  (`folders_dir`). They leave out empty names, which the paths keep: an import lands in
  the last folder asked for exactly when no name before the filename is empty. The event
  path imports only behind a request that succeeded; the job logs a refusal and goes on.
-/

import Connect.LucidLink.Sound
import Connect.Sqs.Poller
import Connect.Worker.ImportJob

namespace Connect.LucidLink

open Await
open Worker (JobOp jobSig JobProg JobDict JobResult Ctx Resolved Progress llPath sortedDirs createFolders
  runBatch batchLoop finishJob
  importKeys importJobBody)
open Sqs (SqsOp sqsSig SqsQueue S3Event Beside)

/-- The folder of the bucket itself; an empty name is none. -/
def bucketFolder (bucket : String) : List String := if bucket = "" then [] else ["/" ++ bucket]

/-- The directory the folder job enters for a key. -/
def dirOf (bucket key : String) : String := if dirname key = "" then bucket else bucket ++ "/" ++ dirname key

/-! ## The same folders -/

theorem folders_llPath (base key : String) :
    folders (llPath base key) = Path.named (Path.split base ++ (Path.split key).dropLast) := by
  have hsplit : Path.split (llPath base key) = "" :: (Path.split base ++ Path.split key) := by
    rw [llPath, Path.split_slash, Path.split_root, List.cons_append]
  rw [folders_eq, hsplit, ← List.cons_append, List.dropLast_append_of_ne_nil (Path.split_ne_nil key),
    List.cons_append, Path.named_empty]

theorem folders_dummy (dir : String) : folders (dir ++ "/dummy_file") = Path.named (Path.split dir) := by
  have hfile : dir ++ "/dummy_file" = dir ++ "/" ++ "dummy_file" := by rw [String.append_assoc]; rfl
  rw [folders_eq, hfile, Path.split_dropLast (by decide)]

/-- The directory of a key has the folders of its path. -/
theorem folders_dir (bucket key : String) :
    folders (dirOf bucket key ++ "/dummy_file") = folders (llPath bucket key) := by
  have hdir := Path.named_dirname key
  rw [folders_dummy, folders_llPath, Path.named_append, ← hdir, dirOf]
  split
  · next h =>
    have hempty : Path.named (Path.split "") = [] := by decide
    rw [h, hempty, List.append_nil]
  · rw [Path.split_slash, Path.named_append]

theorem folderPaths_dir (bucket key : String) :
    folderPaths (dirOf bucket key ++ "/dummy_file") = folderPaths (llPath bucket key) := by
  rw [folderPaths, folderPaths, folders_dir]

theorem folderPaths_bucket {bucket : String} (hb : '/' ∉ bucket.toList) :
    folderPaths (bucket ++ "/dummy_file") = bucketFolder bucket := by
  rw [folderPaths, folders_dummy, Path.split_single hb, bucketFolder]
  split
  · next h =>
    rw [h]
    rfl
  · next h =>
    rw [Path.named_self.mpr (by simpa using h)]
    simp [prefixPath, Path.absolute, List.range_succ]

theorem mem_sortedDirs {bucket dir : String} {keys : List String} :
    dir ∈ sortedDirs bucket keys ↔ dir = bucket ∨ ∃ key ∈ keys, dirname key ≠ "" ∧ dir = dirOf bucket key := by
  simp only [sortedDirs, mem_sortedByLen, mem_pySet, List.mem_cons, List.mem_map, List.mem_filter, bne_iff_ne, ne_eq]
  refine or_congr Iff.rfl ⟨?_, ?_⟩
  · intro h
    obtain ⟨_, ⟨⟨key, hkey, rfl⟩, hne⟩, rfl⟩ := h
    exact ⟨key, hkey, hne, by rw [dirOf, if_neg hne]⟩
  · intro h
    obtain ⟨key, hkey, hne, rfl⟩ := h
    exact ⟨dirname key, ⟨⟨key, hkey, rfl⟩, hne⟩, by rw [dirOf, if_neg hne]⟩

theorem dirOf_mem {bucket key : String} {keys : List String} (hkey : key ∈ keys) :
    dirOf bucket key ∈ sortedDirs bucket keys := by
  refine mem_sortedDirs.mpr ?_
  by_cases h : dirname key = ""
  · exact Or.inl (by rw [dirOf, if_pos h])
  · exact Or.inr ⟨key, hkey, h, rfl⟩

/-- The directories have the folders of the paths, and the bucket's. -/
theorem dirs_folderPaths {bucket : String} (hb : '/' ∉ bucket.toList) (keys : List String) (path : String) :
    (∃ dir ∈ sortedDirs bucket keys, path ∈ folderPaths (dir ++ "/dummy_file")) ↔
      path ∈ bucketFolder bucket ∨ ∃ key ∈ keys, path ∈ folderPaths (llPath bucket key) := by
  constructor
  · intro h
    obtain ⟨dir, hdir, hpath⟩ := h
    rcases mem_sortedDirs.mp hdir with rfl | ⟨key, hkey, _, rfl⟩
    · rw [folderPaths_bucket hb] at hpath
      exact Or.inl hpath
    · rw [folderPaths_dir] at hpath
      exact Or.inr ⟨key, hkey, hpath⟩
  · intro h
    rcases h with hpath | ⟨key, hkey, hpath⟩
    · exact ⟨bucket, mem_sortedDirs.mpr (Or.inl rfl), by rwa [folderPaths_bucket hb]⟩
    · rw [← folderPaths_dir] at hpath
      exact ⟨dirOf bucket key, dirOf_mem hkey, hpath⟩

/-! ## The folder job -/

abbrev JobCall := Call jobSig Exc

def ensured : JobOp → Option String
  | .ensureStructure fullKey => some fullKey
  | _ => none

def imported : JobOp → Option (String × String)
  | .importFile s3Key path => some (s3Key, path)
  | _ => none

/-- What neither lists, nor asks for folders, nor imports. -/
def Aside : JobOp → Prop
  | .ensureStructure _ | .importFile _ _ | .listAllObjects _ _ => False
  | _ => True

theorem aside_ensured (o : JobOp) (h : Aside o) : ensured o = none := by
  cases o <;> first | rfl | cases h

theorem aside_imported (o : JobOp) (h : Aside o) : imported o = none := by
  cases o <;> first | rfl | cases h

section Job

variable {ctx : Ctx} {jobId : Nat} {job : JobDict}

theorem uses_status_aside (status : Worker.Status) (fields : Worker.JobFields) :
    (Worker.updateStatus jobId status fields).Uses Aside :=
  Worker.uses_update_ops trivial fun _ => trivial

theorem uses_finishJob_aside (total : Nat) (p : Progress) : (finishJob ctx jobId total p).Uses Aside := by
  refine .bind (.await trivial) fun current => ?_
  split
  · exact .bind (Worker.uses_publishLog trivial) fun _ => trivial
  · exact .bind (uses_status_aside _ _) fun _ => .bind (Worker.uses_publishLog trivial) fun _ => trivial

theorem uses_batchLoop_of {P : JobOp → Prop} {bucket : String} {keys : List String} (hq : ∀ o, Aside o → P o)
    (himport : ∀ key ∈ keys, P (.importFile key (llPath bucket key))) (is : List Nat) (p : Progress) :
    (batchLoop ctx jobId bucket keys is p).Uses P := by
  induction is generalizing p with
  | nil => trivial
  | cons i is ih =>
    refine .bind (.await (hq _ trivial)) fun current => ?_
    split
    · trivial
    · refine .bind (Worker.uses_gather fun q hmem => ?_)
        fun results => .bind (Worker.uses_publishLog (hq _ trivial)) fun _ => ?_
      · obtain ⟨key, hkey, rfl⟩ := List.mem_map.mp hmem
        exact .await (himport key (List.mem_of_mem_drop (List.mem_of_mem_take hkey)))
      · exact .bind ((uses_status_aside _ _).mono hq) fun _ => .bind (.await (hq _ trivial)) fun _ => ih _

theorem uses_createFolders_of {P : JobOp → Prop} (hq : ∀ o, Aside o → P o) {dirs : List String}
    (hensure : ∀ dir ∈ dirs, P (.ensureStructure (dir ++ "/dummy_file"))) : (createFolders ctx dirs).Uses P := by
  induction dirs with
  | nil => trivial
  | cons d dirs ih =>
    have hrest := ih fun dir hdir => hensure dir (List.mem_cons_of_mem d hdir)
    refine .bind (.await (hensure d List.mem_cons_self)) fun result => .bind ?_ fun _ => hrest
    obtain ⟨_ | _, error⟩ := result
    · exact Worker.uses_publishLog (hq _ trivial)
    · trivial

/-- The pass over the directories, where it comes to its end. -/
theorem plays_createFolders {dirs : List String} {calls : List JobCall}
    (h : Plays (createFolders ctx dirs) calls (.ok ())) :
    picked ensured calls = dirs.map (· ++ "/dummy_file") := by
  induction dirs generalizing calls with
  | nil =>
    obtain ⟨rfl, _⟩ := h
    rfl
  | cons d dirs ih =>
    obtain ⟨result, _, first, rest, rfl, hensure, hthen⟩ := exec_bind_ok (fun _ => rfl) h
    obtain ⟨_, _, log, more, rfl, hlog, hmore⟩ := exec_bind_ok (fun _ => rfl) hthen
    obtain ⟨_, _, _, _, _, rfl⟩ := exec_await hensure
    have hquiet : picked ensured log = [] := by
      refine picked_none (Prog.Uses.mono aside_ensured ?_) hlog
      obtain ⟨_ | _, error⟩ := result
      · exact Worker.uses_publishLog trivial
      · trivial
    rw [picked_append, picked_append, hquiet, List.nil_append, ih hmore]
    rfl

/-- Only calls that matter are left out of `rest`. -/
structure Tail (calls rest : List JobCall) : Prop where
  sub : ∀ call ∈ rest, call ∈ calls
  gone : ∀ call ∈ calls, Aside call.op ∨ call ∈ rest
  ensured : picked ensured calls = picked ensured rest
  imported : picked imported calls = picked imported rest

theorem Tail.trans {a b c : List JobCall} (h : Tail a b) (h' : Tail b c) : Tail a c where
  sub call hc := h.sub call (h'.sub call hc)
  gone call hc := (h.gone call hc).elim Or.inl (h'.gone call)
  ensured := h.ensured.trans h'.ensured
  imported := h.imported.trans h'.imported

theorem tail_aside {calls : List JobCall} (h : ∀ call ∈ calls, Aside call.op) : Tail calls [] where
  sub _ hc := nomatch hc
  gone call hc := Or.inl (h call hc)
  ensured := List.filterMap_eq_nil_iff.mpr fun call hc => aside_ensured _ (h call hc)
  imported := List.filterMap_eq_nil_iff.mpr fun call hc => aside_imported _ (h call hc)

/-- What comes before the part that matters. -/
theorem plays_aside {α β : Type} {p : JobProg α} {f : α → JobProg β} {calls : List JobCall}
    {x : Except Exc β} (hu : p.Uses Aside)
    (h : Plays (p.bind f) calls x) :
    (Tail calls [] ∧ ∃ e, x = .error e) ∨ ∃ a rest, Tail calls rest ∧ Plays (f a) rest x := by
  rcases exec_bind (fun _ => rfl) h with ⟨e, rfl, hp⟩ | ⟨a, _, first, rest, rfl, hp, hf⟩
  · exact Or.inl ⟨tail_aside (exec_uses hu hp), e, rfl⟩
  · have hfirst := tail_aside (exec_uses hu hp)
    refine Or.inr ⟨a, rest, ⟨fun call hc => List.mem_append_right _ hc, fun call hc => ?_, ?_, ?_⟩, hf⟩
    · rcases List.mem_append.mp hc with hc | hc
      · exact Or.inl (exec_uses hu hp call hc)
      · exact Or.inr hc
    · rw [picked_append, hfirst.ensured]
      rfl
    · rw [picked_append, hfirst.imported]
      rfl

/-- From the listing on: either the pass broke off and nothing was imported, or every
    directory was asked for, and what was imported went under the paths of the keys. -/
theorem plays_importKeys {keys : List String} {calls : List JobCall} {x : Except Exc JobResult}
    (h : Plays (importKeys ctx job jobId keys) calls x) :
    (picked imported calls = [] ∧ ∃ e, x = .error e) ∨
      (picked ensured calls = (sortedDirs job.bucket keys).map (· ++ "/dummy_file") ∧
        ∀ p ∈ picked imported calls, ∃ key ∈ keys, p = (key, llPath job.bucket key)) := by
  rcases plays_aside (uses_status_aside _ _) h with ⟨ht, he⟩ | ⟨_, c1, t1, h1⟩
  · exact Or.inl ⟨ht.imported, he⟩
  rcases plays_aside (Worker.uses_publishLog trivial) h1 with ⟨ht, he⟩ | ⟨_, c2, t2, h2⟩
  · exact Or.inl ⟨(t1.trans ht).imported, he⟩
  rcases plays_aside (Worker.uses_publishLog trivial) h2 with ⟨ht, he⟩ | ⟨_, c3, t3, h3⟩
  · exact Or.inl ⟨(t1.trans (t2.trans ht)).imported, he⟩
  have htail := t1.trans (t2.trans t3)
  rw [htail.ensured, htail.imported]
  have hpass : ∀ {calls x}, Plays (createFolders ctx (sortedDirs job.bucket keys)) calls x →
      picked imported calls = [] := fun hp =>
    picked_none (uses_createFolders_of aside_imported fun _ _ => rfl) hp
  rcases exec_bind (fun _ => rfl) h3 with ⟨e, rfl, hpass'⟩ | ⟨_, _, first, rest, rfl, hpass', h4⟩
  · exact Or.inl ⟨hpass hpass', e, rfl⟩
  -- from here on nothing is asked for
  right
  rw [picked_append, picked_append, plays_createFolders hpass', hpass hpass', List.nil_append]
  have hu : ∀ {P : JobOp → Prop}, (∀ o, Aside o → P o) → (∀ key ∈ keys, P (.importFile key (llPath job.bucket key))) →
      ∀ call ∈ rest, P call.op := by
    intro P hq himport
    refine exec_uses (.bind ?_ fun current => ?_) h4
    · exact .await (hq _ trivial)
    split
    · exact .bind (Worker.uses_publishLog (hq _ trivial)) fun _ => trivial
    · refine .bind (Worker.uses_publishLog (hq _ trivial)) fun _ => .bind (uses_batchLoop_of hq himport _ _)
        fun p => ?_
      exact (uses_finishJob_aside _ p).mono hq
  constructor
  · have hnone : picked ensured rest = [] := List.filterMap_eq_nil_iff.mpr (hu aside_ensured fun _ _ => rfl)
    rw [hnone, List.append_nil]
  · intro p hp
    obtain ⟨call, hc, hcall⟩ := mem_picked.mp hp
    have := hu (P := fun o => ∀ p, imported o = some p → ∃ key ∈ keys, p = (key, llPath job.bucket key))
      (fun o ho p hp => by rw [aside_imported o ho] at hp; cases hp)
      (fun key hkey p hp => ⟨key, hkey, (Option.some.inj hp).symm⟩) call hc
    exact this p hcall

theorem uses_importKeys_of {P : JobOp → Prop} {keys : List String} (hq : ∀ o, Aside o → P o)
    (hensure : ∀ dir ∈ sortedDirs job.bucket keys, P (.ensureStructure (dir ++ "/dummy_file")))
    (himport : ∀ key ∈ keys, P (.importFile key (llPath job.bucket key))) :
    (importKeys ctx job jobId keys).Uses P := by
  refine .bind ((uses_status_aside _ _).mono hq) fun _ => .bind (Worker.uses_publishLog (hq _ trivial)) fun _ => ?_
  refine .bind (Worker.uses_publishLog (hq _ trivial)) fun _ => .bind (uses_createFolders_of hq hensure) fun _ => ?_
  refine .bind (.await (hq _ trivial)) fun current => ?_
  split
  · exact .bind (Worker.uses_publishLog (hq _ trivial)) fun _ => trivial
  · refine .bind (Worker.uses_publishLog (hq _ trivial)) fun _ => .bind (uses_batchLoop_of hq himport _ _) fun p => ?_
    exact (uses_finishJob_aside _ p).mono hq

/-- Whatever it comes to, it asks for nothing but the directories. -/
theorem plays_ensured {keys : List String} {calls : List JobCall} {x : Except Exc JobResult}
    (h : Plays (importKeys ctx job jobId keys) calls x) :
    ∀ fullKey ∈ picked ensured calls, ∃ dir ∈ sortedDirs job.bucket keys, fullKey = dir ++ "/dummy_file" := by
  intro fullKey hmem
  obtain ⟨call, hc, hcall⟩ := mem_picked.mp hmem
  have hu : (importKeys ctx job jobId keys).Uses fun o =>
      ∀ fullKey, ensured o = some fullKey → ∃ dir ∈ sortedDirs job.bucket keys, fullKey = dir ++ "/dummy_file" :=
    uses_importKeys_of (fun o ho _ he => by rw [aside_ensured o ho] at he; cases he)
      (fun dir hdir _ he => ⟨dir, hdir, (Option.some.inj he).symm⟩) fun _ _ _ he => nomatch he
  exact exec_uses hu h call hc fullKey hcall

/-- The body of the job, by what its listing was answered. -/
theorem plays_importJobBody {r : Resolved} {calls : List JobCall} {x : Except Exc JobResult}
    (h : Plays (importJobBody ctx job jobId r) calls x) :
    ((∃ e, x = .error e) ∧ picked ensured calls = [] ∧ picked imported calls = [] ∧
      ∀ keys, (⟨.listAllObjects job.bucket job.keyPrefix, .ok keys⟩ : JobCall) ∉ calls) ∨
    ∃ keys rest, (∀ keys', (⟨.listAllObjects job.bucket job.keyPrefix, .ok keys'⟩ : JobCall) ∈ calls ↔ keys' = keys) ∧
      (∀ call ∈ rest, call ∈ calls) ∧ picked ensured calls = picked ensured rest ∧
      picked imported calls = picked imported rest ∧
      (keys = [] ∧ (∀ call ∈ rest, Aside call.op) ∨ keys ≠ [] ∧ Plays (importKeys ctx job jobId keys) rest x) := by
  have hbroken : Tail calls [] → picked ensured calls = [] ∧ picked imported calls = [] ∧
      ∀ keys, (⟨.listAllObjects job.bucket job.keyPrefix, .ok keys⟩ : JobCall) ∉ calls := fun ht =>
    ⟨ht.ensured, ht.imported, fun _ hmem => (ht.gone _ hmem).elim id (nomatch ·)⟩
  unfold importJobBody at h
  rcases plays_aside (by exact .await trivial) h with ⟨ht, he⟩ | ⟨_, c1, t1, h1⟩
  · exact Or.inl ⟨he, hbroken ht⟩
  rcases plays_aside (Worker.uses_publishLog trivial) h1 with ⟨ht, he⟩ | ⟨_, c2, t2, h2⟩
  · exact Or.inl ⟨he, hbroken (t1.trans ht)⟩
  rcases plays_aside (Worker.uses_publishLog trivial) h2 with ⟨ht, he⟩ | ⟨_, c3, t3, h3⟩
  · exact Or.inl ⟨he, hbroken (t1.trans (t2.trans ht))⟩
  have htail := t1.trans (t2.trans t3)
  rcases exec_bind (fun _ => rfl) h3 with ⟨e, rfl, hlist⟩ | ⟨keys, _, first, rest, rfl, hlist, h4⟩
  · obtain ⟨_, _, _, _, _, rfl⟩ := exec_await hlist
    refine Or.inl ⟨⟨e, rfl⟩, htail.ensured, htail.imported, fun keys hmem => ?_⟩
    rcases htail.gone _ hmem with ha | hmem
    · exact ha
    · cases List.mem_singleton.mp hmem
  obtain ⟨_, _, _, _, _, rfl⟩ := exec_await hlist
  have hend : (keys = [] ∧ ∀ call ∈ rest, Aside call.op) ∨
      (keys ≠ [] ∧ Plays (importKeys ctx job jobId keys) rest x) := by
    by_cases hempty : keys = []
    · rw [if_pos (by simp [hempty])] at h4
      have hu : (Worker.noKeys ctx jobId).Uses Aside :=
        .bind (Worker.uses_publishLog trivial) fun _ => .bind (uses_status_aside _ _) fun _ => trivial
      exact Or.inl ⟨hempty, exec_uses hu h4⟩
    · rw [if_neg (by simpa using hempty)] at h4
      exact Or.inr ⟨hempty, h4⟩
  have hunlisted : ∀ keys', (⟨.listAllObjects job.bucket job.keyPrefix, .ok keys'⟩ : JobCall) ∉ rest := by
    intro keys' hmem
    rcases hend with ⟨_, hnone⟩ | ⟨_, h⟩
    · exact hnone _ hmem
    · have hu : (importKeys ctx job jobId keys).Uses fun o => ∀ bucket keyPrefix,
          o ≠ JobOp.listAllObjects bucket keyPrefix := by
        refine uses_importKeys_of (fun o ho _ _ he => ?_) (fun _ _ _ _ => nofun) fun _ _ _ _ => nofun
        rw [he] at ho
        exact ho
      exact exec_uses hu h _ hmem _ _ rfl
  refine Or.inr ⟨keys, rest, fun keys' => ⟨fun hmem => ?_, fun he => ?_⟩, fun call hc => ?_, htail.ensured,
    htail.imported, hend⟩
  · rcases htail.gone _ hmem with ha | hmem
    · exact absurd ha id
    rcases List.mem_append.mp hmem with hmem | hmem
    · cases List.mem_singleton.mp hmem
      rfl
    · exact absurd hmem (hunlisted keys')
  · rw [he]
    exact htail.sub _ (List.mem_append_left _ List.mem_cons_self)
  · exact htail.sub _ (List.mem_append_right _ hc)

/-- The job asks `ensure_structure` for this folder. -/
def Asked (calls : List JobCall) (path : String) : Prop :=
  ∃ fullKey ∈ picked ensured calls, path ∈ folderPaths fullKey

/-- It is the bucket's folder or one on the way to a key. -/
def Needed (bucket : String) (keys : List String) (path : String) : Prop :=
  path ∈ bucketFolder bucket ∨ ∃ key ∈ keys, path ∈ folderPaths (llPath bucket key)

theorem asked_iff {calls : List JobCall} {dirs : List String}
    (h : picked ensured calls = dirs.map (· ++ "/dummy_file")) (path : String) :
    Asked calls path ↔ ∃ dir ∈ dirs, path ∈ folderPaths (dir ++ "/dummy_file") := by
  rw [Asked, h]
  constructor
  · intro h
    obtain ⟨_, hmem, hpath⟩ := h
    obtain ⟨dir, hdir, rfl⟩ := List.mem_map.mp hmem
    exact ⟨dir, hdir, hpath⟩
  · intro h
    obtain ⟨dir, hdir, hpath⟩ := h
    exact ⟨_, List.mem_map.mpr ⟨dir, hdir, rfl⟩, hpath⟩

/-- Where at least one key was listed, the folders asked for are those of the keys' paths
    and the bucket's; only a pass that an exception broke off leaves some of them out. -/
theorem folders_prepared {r : Resolved} {keys : List String} {calls : List JobCall} {x : Except Exc JobResult}
    (hb : '/' ∉ job.bucket.toList) (h : Plays (importJobBody ctx job jobId r) calls x)
    (hlist : (⟨.listAllObjects job.bucket job.keyPrefix, .ok keys⟩ : JobCall) ∈ calls) (hne : keys ≠ [])
    (path : String) :
    (Asked calls path → Needed job.bucket keys path) ∧
      ((∃ result, x = .ok result) ∨ picked imported calls ≠ [] → Needed job.bucket keys path → Asked calls path) := by
  rcases plays_importJobBody h with ⟨_, _, _, hnone⟩ | ⟨keys', rest, hkeys, _, hensured, himported, hrest⟩
  · exact absurd hlist (hnone keys)
  obtain rfl := (hkeys keys).mp hlist
  have hrest := (hrest.resolve_left fun hempty => hne hempty.1).2
  rw [himported, Needed, ← dirs_folderPaths hb]
  constructor
  · intro h
    obtain ⟨fullKey, hmem, hpath⟩ := h
    rw [hensured] at hmem
    obtain ⟨dir, hdir, rfl⟩ := plays_ensured hrest fullKey hmem
    exact ⟨dir, hdir, hpath⟩
  · intro hend
    rcases plays_importKeys hrest with ⟨hnone, e, rfl⟩ | ⟨hdirs, _⟩
    · rcases hend with ⟨_, he⟩ | hne
      · cases he
      · exact absurd hnone hne
    · exact (asked_iff (hensured.trans hdirs) path).mpr

/-! A job without a log channel, whose row is gone by the time it is looked for. -/

def quietCtx : Ctx := ⟨none, none, none, false⟩

def theJob : JobDict := ⟨1, .running, "b", "", "filespace", "datastore", none⟩

def theResolved : Resolved := ⟨"token", ⟨"b", none, none, "key", "secret"⟩, ""⟩

/-- It lists one key, in a folder of its own. -/
def oneListed : List JobCall :=
  [⟨.newS3Service "key" "secret" "us-east-1" none, .ok ()⟩,
    ⟨.listAllObjects "b" "", .ok (["d/k"] : List String)⟩,
    ⟨.loadJob 1 { status := some .running, totalFiles := some 1 }, .ok (none : Option Worker.Job)⟩,
    ⟨.ensureStructure "b/dummy_file", .ok (true, "")⟩,
    ⟨.ensureStructure "b/d/dummy_file", .ok (true, "")⟩,
    ⟨.getJob 1, .ok (none : Option Worker.Job)⟩,
    ⟨.getJob 1, .ok (none : Option Worker.Job)⟩,
    ⟨.importFile "d/k" "/b/d/k", .ok ((201, "") : Nat × String)⟩,
    ⟨.loadJob 1 { status := some .running, completedFiles := some 1, failedFiles := some 0 },
      .ok (none : Option Worker.Job)⟩,
    ⟨.sleep, .ok ()⟩,
    ⟨.getJob 1, .ok (none : Option Worker.Job)⟩,
    ⟨.loadJob 1 { status := some .completed }, .ok (none : Option Worker.Job)⟩]

theorem oneListed_plays : Plays (importJobBody quietCtx theJob 1 theResolved) oneListed (.ok (.completed 1 0 1 0)) :=
  ⟨(), _, (), _, rfl, rfl, rfl, (), _, (), _, rfl, rfl, rfl, (), _, (), _, rfl, rfl, rfl, (), _, (), _, rfl, rfl, rfl,
    (), _, (), _, rfl, rfl, rfl, (), _, (), _, rfl, rfl, rfl, (), _, (), _, rfl, rfl, rfl, (), _, (), _,
    rfl, rfl, rfl,
    (), _, (), _, rfl, rfl, rfl, (), _, (), _, rfl, rfl, rfl, (), _, (), _, rfl, rfl, rfl, (), _, (), _,
    rfl, rfl, rfl, rfl, rfl, rfl⟩

theorem folders_prepared_one : Asked oneListed "/b/d" ↔ Needed "b" ["d/k"] "/b/d" := by
  have h := @folders_prepared quietCtx 1 theJob theResolved _ _ _ (by decide) oneListed_plays
    (List.mem_cons_of_mem _ List.mem_cons_self) (by decide) "/b/d"
  exact ⟨h.1, h.2 (Or.inl ⟨_, rfl⟩)⟩

/-- It lists nothing. -/
def noneListed : List JobCall :=
  [⟨.newS3Service "key" "secret" "us-east-1" none, .ok ()⟩,
    ⟨.listAllObjects "b" "", .ok ([] : List String)⟩,
    ⟨.loadJob 1 { status := some .completed, totalFiles := some 0 }, .ok (none : Option Worker.Job)⟩]

theorem noneListed_plays : Plays (importJobBody quietCtx theJob 1 theResolved) noneListed (.ok .noFiles) :=
  ⟨(), _, (), _, rfl, rfl, rfl, (), _, (), _, rfl, rfl, rfl, (), _, (), _, rfl, rfl, rfl, rfl, rfl, rfl⟩

theorem noneListed_unprepared : Plays (importJobBody quietCtx theJob 1 theResolved) noneListed (.ok .noFiles) ∧
    Needed "b" [] "/b" ∧ ¬Asked noneListed "/b" :=
  ⟨noneListed_plays, Or.inl (by decide), fun ⟨_, h, _⟩ => nomatch h⟩

end Job

/-! ## The last folder -/

/-- No name in it is empty. -/
def Plain (s : String) : Prop := ∀ name ∈ Path.split s, name ≠ ""

/-- No name in it is empty, the filename apart. -/
def PlainKey (key : String) : Prop := ∀ name ∈ (Path.split key).dropLast, name ≠ ""

instance (s : String) : Decidable (Plain s) := inferInstanceAs (Decidable (∀ name ∈ Path.split s, name ≠ ""))

instance (key : String) : Decidable (PlainKey key) :=
  inferInstanceAs (Decidable (∀ name ∈ (Path.split key).dropLast, name ≠ ""))

/-- The import goes into the last folder that was asked for. -/
def Agrees (path fullKey : String) : Prop := (folderPaths fullKey).getLast? = some (Path.parent path)

theorem last_folder (fullKey : String) :
    (folderPaths fullKey).getLast? =
      if folders fullKey = [] then none else some (Path.absolute (folders fullKey)) := by
  rw [folderPaths]
  cases h : folders fullKey with
  | nil => rfl
  | cons name names =>
    rw [if_neg (List.cons_ne_nil _ _), List.length_cons, List.range_succ, List.map_append,
      List.map_singleton, List.getLast?_concat,
      prefixPath_take, List.take_of_length_le (Nat.le_of_eq List.length_cons)]

theorem parent_llPath (base key : String) :
    Path.parent (llPath base key) = Path.absolute (Path.split base ++ (Path.split key).dropLast) := by
  by_cases h : '/' ∈ key.toList
  · obtain ⟨front, name, hkey, hname⟩ := Path.last_slash h
    have hkey' : key = String.ofList front ++ "/" ++ String.ofList name := by
      rw [← String.toList_inj]
      simp [hkey]
    have hname' : '/' ∉ (String.ofList name).toList := by simpa using hname
    have hpath : llPath base key = "/" ++ base ++ "/" ++ String.ofList front ++ "/" ++ String.ofList name := by
      rw [llPath, hkey']
      simp [String.append_assoc]
    rw [hpath, Path.parent_slash hname', hkey', Path.split_dropLast hname', Path.absolute_append,
      Path.absolute_split, Path.absolute_split]
    simp [String.append_assoc]
  · rw [llPath, Path.parent_slash h, Path.split_single h, List.dropLast_singleton, List.append_nil,
      Path.absolute_split]

theorem agrees_iff {base key fullKey : String} (hfolders : folders fullKey = folders (llPath base key)) :
    Agrees (llPath base key) fullKey ↔ Plain base ∧ PlainKey key := by
  have hplain : Plain base ∧ PlainKey key ↔ ∀ name ∈ Path.split base ++ (Path.split key).dropLast, name ≠ "" := by
    simp only [Plain, PlainKey, List.forall_mem_append]
  rw [Agrees, last_folder, hfolders, folders_llPath, parent_llPath, hplain]
  split
  · next hnone =>
    refine ⟨nofun, fun h => ?_⟩
    rw [Path.named_self.mpr h, List.append_eq_nil_iff] at hnone
    exact absurd hnone.1 (Path.split_ne_nil base)
  · rw [Option.some_inj, Path.absolute_named_iff]

/-- Whatever folder it is, the names on the way to the file are those of a request. -/
theorem agrees_plain {base key fullKey : String} (h : Agrees (llPath base key) fullKey) :
    Plain base ∧ PlainKey key := by
  rw [Agrees, last_folder, parent_llPath] at h
  split at h
  · cases h
  next hne =>
  have hnames : ∀ name ∈ Path.split base ++ (Path.split key).dropLast, '/' ∉ name.toList := by
    intro name hname
    rcases List.mem_append.mp hname with hname | hname
    · exact Path.mem_split hname
    · exact Path.mem_split ((List.dropLast_sublist _).mem hname)
  have hsame := congrArg Path.split (Option.some.inj h)
  rw [Path.split_absolute_all hne fun name hname => (folders_name hname).2,
    Path.split_absolute_all (List.append_ne_nil_of_left_ne_nil (Path.split_ne_nil base) _) hnames] at hsame
  have hall : ∀ name ∈ Path.split base ++ (Path.split key).dropLast, name ≠ "" := by
    rw [← (List.cons.inj hsame).2]
    exact fun name hname => (folders_name hname).1
  exact List.forall_mem_append.mp hall

/-- The folder it is tells the names of the others. -/
theorem agrees_folders {base key fullKey : String} (h : Agrees (llPath base key) fullKey) :
    folders fullKey = folders (llPath base key) := by
  have hself : Agrees (llPath base key) (llPath base key) := (agrees_iff rfl).mpr (agrees_plain h)
  rw [Agrees, last_folder] at h hself
  split at h
  · cases h
  next hne =>
  split at hself
  · cases hself
  next hne' =>
  have hsame := congrArg Path.split ((Option.some.inj h).trans (Option.some.inj hself).symm)
  rw [Path.split_absolute_all hne fun name hname => (folders_name hname).2,
    Path.split_absolute_all hne' fun name hname => (folders_name hname).2] at hsame
  exact (List.cons.inj hsame).2

/-! ## The event path -/

abbrev SqsCall := Call sqsSig Exc

/-- The folder of the bucket an event is imported under. -/
def eventBase (queue : SqsQueue) (event : S3Event) : String :=
  if queue.importPrefix = "" then Sqs.bucketText event.bucket
  else Sqs.bucketText event.bucket ++ "/" ++ Sqs.stripSlashes queue.importPrefix

theorem eventPath_base (queue : SqsQueue) (event : S3Event) :
    Sqs.eventPath queue event = llPath (eventBase queue event) event.key := by
  rw [Sqs.eventPath, eventBase]
  split
  · rfl
  · simp [llPath, String.append_assoc]

theorem plain_eventBase (queue : SqsQueue) (event : S3Event) :
    Plain (eventBase queue event) ↔
      Plain (Sqs.bucketText event.bucket) ∧
      (queue.importPrefix = "" ∨ Plain (Sqs.stripSlashes queue.importPrefix)) := by
  rw [eventBase]
  split
  · next h => simp [h]
  · next h =>
    rw [Plain, Path.split_slash, List.forall_mem_append]
    exact and_congr Iff.rfl (or_iff_right h).symm

section Event

variable {queue : SqsQueue} {event : S3Event} {messageId : String} {calls : List SqsCall}

/-- An import of an event is of its key to its path, once its folders are there. -/
def OfEvent (queue : SqsQueue) (event : S3Event) (calls : List SqsCall) (call : SqsCall) : Prop :=
  Beside call.op ∨ call.op = .ensureStructure (Sqs.eventPath queue event) ∨
    call.op = .importFile event.key (Sqs.eventPath queue event) ∧
      ∃ error, (⟨.ensureStructure (Sqs.eventPath queue event), .ok (true, error)⟩ : SqsCall) ∈ calls

theorem OfEvent.mono {calls' : List SqsCall} {call : SqsCall} (h : OfEvent queue event calls call)
    (hsub : ∀ call ∈ calls, call ∈ calls') :
    OfEvent queue event calls' call :=
  h.imp id (Or.imp id (And.imp id fun ⟨error, he⟩ => ⟨error, hsub _ he⟩))

theorem plays_importEvent {eventId : Sqs.EventId} {r : Sqs.Ready} {x : Except Exc Unit}
    (h : Plays (Sqs.importEvent eventId event queue r) calls x) : ∀ call ∈ calls, OfEvent queue event calls call := by
  unfold Sqs.importEvent at h
  have hclient : ∀ {calls : List SqsCall} {x},
      Plays (Sqs.await (.newClient r.apiHost r.token queue.filespaceId queue.datastoreId)) calls x →
      ∀ call ∈ calls, Beside call.op := fun hp => exec_uses (by exact .await trivial) hp
  rcases exec_bind (fun _ => rfl) h with ⟨_, _, hnew⟩ | ⟨_, _, first, rest, rfl, hnew, h1⟩
  · exact fun call hc => Or.inl (hclient hnew call hc)
  have hfirst := hclient hnew
  rcases exec_bind (fun _ => rfl) h1 with ⟨_, _, hensure⟩ | ⟨made, _, second, last, rfl, hensure, h2⟩
  · obtain ⟨_, _, _, _, _, rfl⟩ := exec_await hensure
    intro call hc
    rcases List.mem_append.mp hc with hc | hc
    · exact Or.inl (hfirst call hc)
    · rcases List.mem_singleton.mp hc with rfl
      exact Or.inr (Or.inl rfl)
  obtain ⟨_, _, _, _, _, rfl⟩ := exec_await hensure
  obtain ⟨made, error⟩ := made
  have hlast : ∀ call ∈ last, Beside call.op ∨ made = true ∧
      call.op = .importFile event.key (Sqs.eventPath queue event) := by
    refine exec_uses (P := fun o : SqsOp => Beside o ∨ made = true ∧
      o = .importFile event.key (Sqs.eventPath queue event)) (.bind ?_ fun _ => ?_) h2
    · cases made with
      | false => exact Sqs.uses_updateStatus (Or.inl trivial)
      | true => exact .bind (.await (Or.inr ⟨rfl, rfl⟩)) fun _ => Sqs.uses_updateStatus (Or.inl trivial)
    · exact .await (Or.inl trivial)
  intro call hc
  rcases List.mem_append.mp hc with hc | hc
  · exact Or.inl (hfirst call hc)
  rcases List.mem_append.mp hc with hc | hc
  · rcases List.mem_singleton.mp hc with rfl
    exact Or.inr (Or.inl rfl)
  · rcases hlast call hc with hb | ⟨rfl, himport⟩
    · exact Or.inl hb
    · exact Or.inr (Or.inr ⟨himport, error,
        List.mem_append_right _ (List.mem_append_left _ (List.mem_singleton.mpr rfl))⟩)

theorem plays_event {x : Except Exc Unit} (h : Plays (Sqs.processS3Event event queue messageId) calls x) :
    ∀ call ∈ calls, OfEvent queue event calls call := by
  have hbeside : ∀ {α : Type} {p : Sqs.SqsProg α} {calls : List SqsCall} {x : Except Exc α}, p.Uses Beside →
      Plays p calls x →
      ∀ call ∈ calls, OfEvent queue event calls call := fun hu hp call hc => Or.inl (exec_uses hu hp call hc)
  have happend : ∀ {first rest : List SqsCall}, (∀ call ∈ first, OfEvent queue event first call) →
      (∀ call ∈ rest, OfEvent queue event rest call) →
      ∀ call ∈ first ++ rest, OfEvent queue event (first ++ rest) call := by
    intro first rest hfirst hrest call hc
    rcases List.mem_append.mp hc with hc | hc
    · exact (hfirst call hc).mono fun call hc => List.mem_append_left _ hc
    · exact (hrest call hc).mono fun call hc => List.mem_append_right _ hc
  rcases exec_bind (fun _ => rfl) h with ⟨_, _, hp⟩ | ⟨eventId, _, first, rest, rfl, hp, h1⟩
  · exact hbeside (Sqs.uses_ensurePending_beside _ _ _) hp
  refine happend (hbeside (Sqs.uses_ensurePending_beside _ _ _) hp) ?_
  cases eventId with
  | none => exact hbeside (p := .ret ()) trivial h1
  | some eventId =>
    rcases exec_bind (fun _ => rfl) h1 with ⟨_, _, hp⟩ | ⟨ready, _, first, rest, rfl, hp, h2⟩
    · exact hbeside (Sqs.uses_prepare_beside eventId queue) hp
    refine happend (hbeside (Sqs.uses_prepare_beside eventId queue) hp) ?_
    cases ready with
    | none => exact hbeside (p := .ret ()) trivial h2
    | some r =>
      rcases exec_catching (fun _ => rfl) h2 with ⟨_, _, hp⟩ | ⟨e, _, first, rest, rfl, hp, hh⟩
      · exact plays_importEvent hp
      · exact happend (plays_importEvent hp) (hbeside (Sqs.uses_importFailed_beside eventId e) hh)

end Event

/-! ## Both paths -/

/-- An import of an event goes into the folder its path was last asked for. -/
def EventAgrees (calls : List SqsCall) (path : String) : Prop :=
  ∃ fullKey error, (⟨.ensureStructure fullKey, .ok (true, error)⟩ : SqsCall) ∈ calls ∧ Agrees path fullKey

/-- An import of the job goes into the last folder of a request that succeeded. -/
def JobAgrees (calls : List JobCall) (path : String) : Prop :=
  ∃ fullKey error, (⟨.ensureStructure fullKey, .ok (true, error)⟩ : JobCall) ∈ calls ∧ Agrees path fullKey

/-- `ensure_structure` has returned True for the folders of this path. -/
def FoldersMade (calls : List JobCall) (path : String) : Prop :=
  ∃ fullKey error, (⟨.ensureStructure fullKey, .ok (true, error)⟩ : JobCall) ∈ calls ∧ folders fullKey = folders path

theorem event_agrees {queue : SqsQueue} {event : S3Event} {messageId : String} {calls : List SqsCall}
    {x : Except Exc Unit}
    (h : Plays (Sqs.processS3Event event queue messageId) calls x) {s3Key path : String}
    {ans : Except Exc (Nat × String)} (himport : (⟨.importFile s3Key path, ans⟩ : SqsCall) ∈ calls) :
    EventAgrees calls path ↔ Plain (Sqs.bucketText event.bucket) ∧
      (queue.importPrefix = "" ∨ Plain (Sqs.stripSlashes queue.importPrefix)) ∧ PlainKey event.key := by
  have hof := plays_event h
  rcases hof _ himport with hb | he | ⟨hop, error, hensure⟩
  · exact absurd hb id
  · cases he
  cases hop
  have hiff := @agrees_iff (eventBase queue event) event.key _ rfl
  rw [← eventPath_base, plain_eventBase, and_assoc] at hiff
  rw [← hiff]
  constructor
  · intro h
    obtain ⟨fullKey, _, hmem, hagrees⟩ := h
    rcases hof _ hmem with hb | he | ⟨he, _⟩
    · exact absurd hb id
    · cases he
      exact hagrees
    · cases he
  · exact fun hagrees => ⟨_, error, hensure, hagrees⟩

/-- What the job imports is a key to its path, and the folders of that path were asked for. -/
theorem job_imports {ctx : Ctx} {jobId : Nat} {job : JobDict} {r : Resolved} {calls : List JobCall}
    {x : Except Exc JobResult}
    (h : Plays (importJobBody ctx job jobId r) calls x) {s3Key path : String} {ans : Except Exc (Nat × String)}
    (himport : (⟨.importFile s3Key path, ans⟩ : JobCall) ∈ calls) :
    path = llPath job.bucket s3Key ∧ ∃ fullKey ∈ picked ensured calls, folders fullKey = folders path := by
  have hmem : (s3Key, path) ∈ picked imported calls := mem_picked.mpr ⟨_, himport, rfl⟩
  rcases plays_importJobBody h with ⟨_, _, hnone, _⟩ | ⟨keys, rest, _, _, hensured, himported,
    ⟨_, haside⟩ | ⟨_, hrest⟩⟩
  · rw [hnone] at hmem
    cases hmem
  · rw [himported, (tail_aside haside).imported] at hmem
    cases hmem
  rw [himported] at hmem
  rcases plays_importKeys hrest with ⟨hnone, _⟩ | ⟨hdirs, hpaths⟩
  · rw [hnone] at hmem
    cases hmem
  obtain ⟨key, hkey, hpair⟩ := hpaths _ hmem
  cases hpair
  refine ⟨rfl, dirOf job.bucket s3Key ++ "/dummy_file", ?_, folders_dir job.bucket s3Key⟩
  rw [hensured, hdirs]
  exact List.mem_map.mpr ⟨_, dirOf_mem hkey, rfl⟩

theorem job_agrees {ctx : Ctx} {jobId : Nat} {job : JobDict} {r : Resolved} {calls : List JobCall}
    {x : Except Exc JobResult}
    (h : Plays (importJobBody ctx job jobId r) calls x) {s3Key path : String} {ans : Except Exc (Nat × String)}
    (himport : (⟨.importFile s3Key path, ans⟩ : JobCall) ∈ calls) :
    JobAgrees calls path ↔ Plain job.bucket ∧ PlainKey s3Key ∧ FoldersMade calls path := by
  obtain ⟨rfl, _⟩ := job_imports h himport
  constructor
  · intro h
    obtain ⟨fullKey, error, hmade, hagrees⟩ := h
    obtain ⟨hbucket, hkey⟩ := agrees_plain hagrees
    exact ⟨hbucket, hkey, fullKey, error, hmade, agrees_folders hagrees⟩
  · intro h
    obtain ⟨hbucket, hkey, fullKey, error, hmade, hfolders⟩ := h
    exact ⟨fullKey, error, hmade, (agrees_iff hfolders).mpr ⟨hbucket, hkey⟩⟩

/-- On either path an import goes into the folder made for it exactly when no name before
    the filename is empty; on the job's, which asks for the folders of everything it imports
    and goes on without those it is refused, also only when they were made. -/
theorem destination_iff {s3Key path : String} {ans : Except Exc (Nat × String)} :
    (∀ {queue : SqsQueue} {event : S3Event} {messageId : String} {calls : List SqsCall} {x : Except Exc Unit},
      Plays (Sqs.processS3Event event queue messageId) calls x →
      (⟨.importFile s3Key path, ans⟩ : SqsCall) ∈ calls →
        (EventAgrees calls path ↔ Plain (Sqs.bucketText event.bucket) ∧
          (queue.importPrefix = "" ∨ Plain (Sqs.stripSlashes queue.importPrefix)) ∧ PlainKey event.key)) ∧
    ∀ {ctx : Ctx} {jobId : Nat} {job : JobDict} {r : Resolved} {calls : List JobCall} {x : Except Exc JobResult},
      Plays (importJobBody ctx job jobId r) calls x →
      (⟨.importFile s3Key path, ans⟩ : JobCall) ∈ calls →
        (∃ fullKey ∈ picked ensured calls, folders fullKey = folders path) ∧
          (JobAgrees calls path ↔ Plain job.bucket ∧ PlainKey s3Key ∧ FoldersMade calls path) :=
  ⟨fun h himport => event_agrees h himport, fun h himport => ⟨(job_imports h himport).2, job_agrees h himport⟩⟩

/-- An event on a key of the bucket, and what it does while everything accepts it. -/
def putEvent (key : String) : S3Event := ⟨.str "ObjectCreated:Put", .str "b", key, .null, .null, .null⟩

def acceptedEvent (key path : String) : List SqsCall :=
  [⟨.existsForMessage ⟨"m", 1, key⟩, .ok false⟩,
    ⟨.createEvent 1 "m" (putEvent key), .ok (⟨0, 0⟩ : Sqs.EventId)⟩,
    ⟨.getForDatastoreUser "datastore" none, .ok true⟩,
    ⟨.getLucidlinkToken, .ok (some "token")⟩,
    ⟨.updateStatus ⟨0, 0⟩ .processing none, .ok true⟩,
    ⟨.newClient "" "token" "filespace" "datastore", .ok ()⟩,
    ⟨.ensureStructure path, .ok (true, "")⟩,
    ⟨.importFile key path, .ok ((201, "") : Nat × String)⟩,
    ⟨.updateStatus ⟨0, 0⟩ .completed none, .ok true⟩,
    ⟨.close, .ok ()⟩]

theorem acceptedEvent_plays (key : String) :
    Plays (Sqs.processS3Event (putEvent key) Sqs.theQueue "m")
      (acceptedEvent key ("/" ++ "b" ++ "/" ++ key)) (.ok ()) :=
  ⟨(), _, (), _, rfl, rfl, rfl, (), _, (), _, rfl, rfl, rfl, (), _, (), _, rfl, rfl, rfl, (), _, (), _, rfl, rfl, rfl,
    (), _, (), _, rfl, rfl, rfl, (), _, (), _, rfl, rfl, rfl, (), _, (), _, rfl, rfl, rfl, (), _, (), _,
    rfl, rfl, rfl, (), _, (), _, rfl, rfl, rfl, (), _, (), _, rfl, rfl, rfl, rfl, rfl, rfl⟩

theorem acceptedEvent_imports (key path : String) :
    (⟨.importFile key path, .ok ((201, "") : Nat × String)⟩ : SqsCall) ∈ acceptedEvent key path := by
  simp [acceptedEvent]

theorem oneListed_imports : (⟨.importFile "d/k" "/b/d/k", .ok ((201, "") : Nat × String)⟩ : JobCall) ∈ oneListed := by
  simp [oneListed]

theorem destination_dk : EventAgrees (acceptedEvent "d/k" "/b/d/k") "/b/d/k" ∧ JobAgrees oneListed "/b/d/k" := by
  have hmade : FoldersMade oneListed "/b/d/k" := ⟨"b/d/dummy_file", "", by simp [oneListed], by decide⟩
  exact ⟨(destination_iff.1 (acceptedEvent_plays "d/k") (acceptedEvent_imports _ _)).mpr (by decide),
    (destination_iff.2 oneListed_plays oneListed_imports).2.mpr ⟨by decide, by decide, hmade⟩⟩

/-- LucidLink refuses both folders; the key is imported all the same. -/
def refusedListed : List JobCall :=
  [⟨.newS3Service "key" "secret" "us-east-1" none, .ok ()⟩,
    ⟨.listAllObjects "b" "", .ok (["d/k"] : List String)⟩,
    ⟨.loadJob 1 { status := some .running, totalFiles := some 1 }, .ok (none : Option Worker.Job)⟩,
    ⟨.ensureStructure "b/dummy_file", .ok (false, "denied")⟩,
    ⟨.ensureStructure "b/d/dummy_file", .ok (false, "denied")⟩,
    ⟨.getJob 1, .ok (none : Option Worker.Job)⟩,
    ⟨.getJob 1, .ok (none : Option Worker.Job)⟩,
    ⟨.importFile "d/k" "/b/d/k", .ok ((201, "") : Nat × String)⟩,
    ⟨.loadJob 1 { status := some .running, completedFiles := some 1, failedFiles := some 0 },
      .ok (none : Option Worker.Job)⟩,
    ⟨.sleep, .ok ()⟩,
    ⟨.getJob 1, .ok (none : Option Worker.Job)⟩,
    ⟨.loadJob 1 { status := some .completed }, .ok (none : Option Worker.Job)⟩]

theorem refusedListed_plays : Plays (importJobBody quietCtx theJob 1 theResolved) refusedListed
    (.ok (.completed 1 0 1 0)) :=
  ⟨(), _, (), _, rfl, rfl, rfl, (), _, (), _, rfl, rfl, rfl, (), _, (), _, rfl, rfl, rfl, (), _, (), _, rfl, rfl, rfl,
    (), _, (), _, rfl, rfl, rfl, (), _, (), _, rfl, rfl, rfl, (), _, (), _, rfl, rfl, rfl, (), _, (), _,
    rfl, rfl, rfl,
    (), _, (), _, rfl, rfl, rfl, (), _, (), _, rfl, rfl, rfl, (), _, (), _, rfl, rfl, rfl, (), _, (), _,
    rfl, rfl, rfl, rfl, rfl, rfl⟩

/-- A doubled slash in the key of an event: the folder made is `/b/a`. And a job whose
    folders are refused. -/
theorem destination_astray :
    (Plays (Sqs.processS3Event (putEvent "a//b.txt") Sqs.theQueue "m")
      (acceptedEvent "a//b.txt" "/b/a//b.txt") (.ok ()) ∧
      ¬EventAgrees (acceptedEvent "a//b.txt" "/b/a//b.txt") "/b/a//b.txt") ∧
    Plays (importJobBody quietCtx theJob 1 theResolved) refusedListed (.ok (.completed 1 0 1 0)) ∧
      (⟨.importFile "d/k" "/b/d/k", .ok ((201, "") : Nat × String)⟩ : JobCall) ∈ refusedListed ∧
      ¬JobAgrees refusedListed "/b/d/k" := by
  refine ⟨⟨acceptedEvent_plays "a//b.txt", fun h => ?_⟩, refusedListed_plays, by simp [refusedListed], fun h => ?_⟩
  · exact absurd ((event_agrees (acceptedEvent_plays "a//b.txt") (acceptedEvent_imports _ _)).mp h) (by decide)
  · obtain ⟨fullKey, error, hmade, _⟩ := h
    simp only [refusedListed, List.mem_cons, List.not_mem_nil, or_false] at hmade
    rcases hmade with h | h | h | h | h | h | h | h | h | h | h | h <;> cases h

end Connect.LucidLink
