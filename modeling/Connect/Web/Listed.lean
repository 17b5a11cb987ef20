/-
  Connect.Web.Listed — what the requests on a session name, LucidLink has listed.

  - `named_listed`: whatever the order, a datastore that LucidLink is asked for or is to
    delete, or that a form asks the credentials of, was listed by LucidLink before, and so
    was the filespace it is named with.
  - `named_there`: while requests are served one at a time, none failing, it was listed in
    that very filespace. Two loads that overlap leave the datastores of one under the
    filespace of the other, and so does a load whose lookup raises.
  - `created_listed`: whatever the order, credentials are only saved for a new datastore
    after the bucket was reached with them, LucidLink had created the datastore with them,
    and listed it, in the filespace that the row names.
-/

import Mathlib.Tactic.IntervalCases
import Connect.Web.Connection

namespace Connect.Web.Connection

open Await
open Data (Saved)
open Reading (Done done_page seq)

/-! ## Whatever the order -/

/-- LucidLink listed whatever the session holds. -/
structure Known (hist : History) (l : Lucid) : Prop where
  filespaces : ∀ e ∈ l.filespaces, FilespaceListed hist e.2
  datastores : ∀ e ∈ l.datastores, ∃ filespaceId, ListedIn hist filespaceId e.2.id

def Somewhere (hist : History) (filespaceId datastoreId : String) : Prop :=
  FilespaceListed hist filespaceId ∧ ∃ filespaceId', ListedIn hist filespaceId' datastoreId

/-- The bucket was reached with the credentials, then LucidLink created the datastore with
    them, then it listed it. -/
def Created (pid : Nat) (hist : History) (row : Saved) : Prop :=
  ∃ form : CreateForm, ∃ token apiHost token' apiHost' datastores, ∃ ds : Datastore,
    row = form.saved ds.id row.filespaceId row.filespaceName ∧ ds ∈ datastores ∧ ds.key = row.datastoreName ∧
    [⟨pid, Op.listDatastores token' row.filespaceId apiHost', .ok datastores⟩,
     ⟨pid, Op.createS3Datastore (form.new token row.filespaceId apiHost), .ok "SUCCESS"⟩,
     ⟨pid, Op.headBucket form.client row.bucketName, .ok (.ok ())⟩].Sublist hist

def knownRely (a b : ConnectionWorld) : Prop :=
  a.hist <:+ b.hist ∧ (Known a.hist a.st.lucid → Known b.hist b.st.lucid)

def knownGuar (pid : Nat) (a b : ConnectionWorld) : Prop :=
  knownRely a b ∧ ∃ e : Event connectionSig Exc, e.pid = pid ∧ b.hist = e :: a.hist ∧
    (∀ filespaceId datastoreId, Names e filespaceId datastoreId → Somewhere a.hist filespaceId datastoreId) ∧
    ∀ row, e.op = .saveDatastoreCredentials row → Created pid a.hist row

abbrev knownLaw (pid : Nat) : Law ConnectionWorld connectionSig Exc :=
  connection.law (fun w => Known w.hist w.st.lucid) (fun _ => knownRely) knownGuar (fun _ _ _ _ => True) pid

theorem Known.mono {h h' : History} {l : Lucid} (hs : h <:+ h') (hk : Known h l) : Known h' l :=
  ⟨fun e he => (hk.filespaces e he).mono hs, fun e he => (hk.datastores e he).imp fun _ hl => hl.mono hs⟩

theorem Known.add {h : History} {l : Lucid} {ds : Datastore} (hk : Known h l)
    (hds : ∃ filespaceId, ListedIn h filespaceId ds.id) :
    Known h (l.add ds) :=
  ⟨hk.filespaces, fun e he => (mem_put he).elim (fun h => h ▸ hds) (hk.datastores e)⟩

theorem Known.clear {h : History} {l : Lucid} (hk : Known h l) : Known h l.clear :=
  ⟨hk.filespaces, fun _ he => by cases he⟩

theorem Known.select {h : History} {l : Lucid} (filespace : String) (hk : Known h l) : Known h (l.select filespace) :=
  ⟨hk.filespaces, hk.datastores⟩

theorem Known.named {h : History} {filespaces : List Filespace} {pid : Nat} {token apiHost : String}
    {l : Lucid} (hk : Known h l) (hl : ⟨pid, Op.listFilespaces token apiHost, .ok (.ok filespaces)⟩ ∈ h) :
    Known h { l with filespaces := filespaces.foldl (fun d fs => put d fs.name fs.id) [] } := by
  have hfold : ∀ (some : List Filespace) (d : List (String × String)), (∀ e ∈ d, FilespaceListed h e.2) →
      (∀ fs ∈ some, fs ∈ filespaces) →
      ∀ e ∈ some.foldl (fun d fs => put d fs.name fs.id) d, FilespaceListed h e.2 := by
    intro some
    induction some with
    | nil => exact fun d hd _ => hd
    | cons fs rest ih =>
      refine fun d hd hsome => ih _ (fun e he => ?_) fun fs' hfs' => hsome fs' (List.mem_cons_of_mem _ hfs')
      rcases mem_put he with rfl | he
      · exact ⟨pid, token, apiHost, filespaces, fs, hl, hsome fs List.mem_cons_self, rfl⟩
      · exact hd e he
  exact ⟨hfold filespaces [] (fun _ he => by cases he) fun _ h => h, hk.datastores⟩

theorem mem_lookup_id {l : Lucid} {filespaceId : String} (h : l.filespaceId = some filespaceId) :
    (l.selectedFilespace, filespaceId) ∈ l.filespaces := mem_lookup h

theorem known_reading (pid : Nat) : Reading pid (knownLaw pid) Known Somewhere where
  rely _ _ h := h
  act a o r b h := by
    obtain ⟨_, s, hx, rfl⟩ := h
    exact ⟨hx, rfl⟩
  guar a o r b ha hJ hn hsave := by
    obtain ⟨_, s, _, rfl⟩ := ha
    exact ⟨⟨List.suffix_cons _ _, hJ⟩, ⟨pid, o, r⟩, rfl, rfl, hn, fun row ho => absurd ho (hsave row)⟩
  mono _ _ _ hs hk := hk.mono hs
  fact _ _ _ _ hs hf := ⟨hf.1.mono hs, hf.2.imp fun _ h => h.mono hs⟩
  del _ _ _ hk := ⟨hk.filespaces, fun e he => hk.datastores e (List.mem_filter.mp he).1⟩
  pair _ _ _ e hk hfs he := ⟨hk.filespaces _ (mem_lookup_id hfs), hk.datastores e he⟩

section Known

variable {pid : Nat}

/-- Datastores that were listed fill the session. -/
theorem fill_known {known : Datastore → Bool} {done : Lucid → Lucid} {datastores : List Datastore}
    {w : ConnectionWorld} {token filespaceId apiHost : String} (hdone : ∀ h l, Known h l → Known h (done l))
    (hl : ⟨pid, Op.listDatastores token filespaceId apiHost, .ok datastores⟩ ∈ w.hist)
    (hk : Known w.hist w.st.lucid) :
    wp (knownLaw pid) (fill known done Lucid.clear datastores)
      (fun x w' => Known w'.hist w'.st.lucid ∧ ∀ a, x = .ok a → w.hist <:+ w'.hist) w :=
  (known_reading pid).fill
    (fun ds hds _ _ hs hk => hk.add ⟨filespaceId, pid, token, apiHost, datastores, ds, hs.mem hl, hds, rfl⟩)
    (fun _ _ _ hk => hk.clear) (fun _ _ _ hk => hdone _ _ hk) hk

theorem loadFilespaces_known {token : String} {apiHost : Option String} {w : ConnectionWorld}
    (hk : Known w.hist w.st.lucid) :
    wp (knownLaw pid) (loadFilespaces token apiHost) (Done Known Somewhere) w := by
  have R := known_reading pid
  refine R.seq_read hk fun s w₁ hk₁ _ _ => ?_
  refine R.seq_ask (o := .listFilespaces token (effectiveHost apiHost s)) trivial hk₁
    fun (result : Except String (List Filespace)) w₂ h hk₂ hh _ => ?_
  cases result with
  | error text => exact done_page hk₂ (fun _ he => by cases he)
  | ok result =>
    have hl := hh ▸ List.mem_cons_self
    refine seq (wp_mono (fun _ _ h => ⟨h.1, fun _ _ => trivial⟩)
      (R.sync (fun _ _ hs hk => hk.named (hs.mem hl)) hk₂)) fun _ w₃ hk₃ _ => ?_
    refine R.seq_plain (plain_saveToken _) hk₃ fun _ w₄ hk₄ _ => ?_
    refine R.seq_read hk₄ fun s w₅ hk₅ _ _ => ?_
    refine R.seq_plain (plain_saveApiHost _) hk₅ fun _ w₆ hk₆ _ => ?_
    refine R.seq_plain (.await trivial) hk₆ fun _ w₇ hk₇ _ => ?_
    refine R.seq_read hk₇ fun s w₈ hk₈ _ _ => ?_
    split
    · exact done_page hk₈ (fun _ he => by cases he)
    · rename_i selected filespaceId _ _
      refine R.seq_ask (o := .listDatastores token filespaceId (effectiveHost apiHost _)) trivial hk₈
        fun dsResult w₉ h hk₉ hh _ => ?_
      exact seq (fill_known (fun _ _ hk => hk.select _) (hh ▸ List.mem_cons_self) hk₉) fun _ _ hk _ =>
        done_page hk (fun _ he => by cases he)

theorem loadDatastores_known {filespace : String} {w : ConnectionWorld} (hk : Known w.hist w.st.lucid) :
    wp (knownLaw pid) (loadDatastores filespace) (Done Known Somewhere) w := by
  have R := known_reading pid
  refine R.seq_read hk fun s w₁ hk₁ _ _ => ?_
  split
  · exact done_page hk₁ (fun _ he => by cases he)
  · rename_i filespaceId _
    refine R.seq_ask (o := .listDatastores s.token filespaceId s.apiHost) trivial hk₁ fun dsResult w₂ h hk₂ hh _ => ?_
    exact seq (fill_known (fun _ _ hk => hk.select _) (hh ▸ List.mem_cons_self) hk₂) fun _ _ hk _ =>
      done_page hk (fun _ he => by cases he)

theorem new_mem {name datastoreId : String} {datastores : List Datastore}
    (h : truthy (newDatastoreId name datastores) = some datastoreId) :
    ∃ ds ∈ datastores, ds.key = name ∧ ds.id = datastoreId := by
  obtain ⟨ds, hfind, hid⟩ := Option.map_eq_some_iff.mp (Option.filter_eq_some_iff.mp h).1
  exact ⟨ds, List.mem_reverse.mp (List.mem_of_find?_eq_some hfind), by simpa using List.find?_some hfind, hid⟩

theorem validateS3_known {form : CreateForm} {w : ConnectionWorld} (hk : Known w.hist w.st.lucid) :
    wp (knownLaw pid) (validateS3 form) (fun x w' => Known w'.hist w'.st.lucid ∧ ∀ a, x = .ok a → a = .ok () →
      ⟨pid, Op.headBucket form.client form.bucket, .ok (.ok ())⟩ ∈ w'.hist) w := by
  refine wp_catching.mpr (wp_bind.mpr (wp_mono (fun x w' ⟨hk', h, hh, _⟩ => ?_)
    ((known_reading pid).ask (o := .headBucket form.client form.bucket) trivial hk)))
  cases x with
  | error e =>
    simp only [andThen_error]
    split
    · exact ⟨hk', fun a he ha => by subst ha; cases he⟩
    · exact ⟨hk', fun a he => by cases he⟩
  | ok reachable =>
    change Except String Unit at reachable
    cases reachable with
    | error text => exact ⟨hk', fun a he ha => by subst ha; cases he⟩
    | ok u => exact ⟨hk', fun _ _ _ => hh ▸ List.mem_cons_self⟩

theorem save_known {row : Saved} {w : ConnectionWorld} (hc : Created pid w.hist row) (hk : Known w.hist w.st.lucid) :
    wp (knownLaw pid) (ask (.saveDatastoreCredentials row)) (fun _ w' => Known w'.hist w'.st.lucid) w := by
  refine wp_await fun w₁ ⟨hs, hkeep⟩ _ r w₂ ha => ?_
  obtain ⟨_, s, hx, rfl⟩ := ha
  cases hx
  have hk₂ := (hkeep hk).mono (List.suffix_cons ⟨pid, Op.saveDatastoreCredentials row, r⟩ w₁.hist)
  obtain ⟨form, token, apiHost, token', apiHost', datastores, ds, hrow, hds, hkey, hsub⟩ := hc
  refine ⟨⟨⟨List.suffix_cons _ _, fun _ => hk₂⟩, ⟨pid, .saveDatastoreCredentials row, r⟩, rfl,
    rfl, fun _ _ hn => (by cases hn),
    fun row' he => ?_⟩, hk₂⟩
  cases he
  exact ⟨form, token, apiHost, token', apiHost', datastores, ds, hrow, hds, hkey, hsub.trans hs.sublist⟩

theorem createDatastore_known {form : CreateForm} {w : ConnectionWorld} (hk : Known w.hist w.st.lucid) :
    wp (knownLaw pid) (createDatastore form) (Done Known Somewhere) w := by
  have R := known_reading pid
  refine seq (validateS3_known hk) fun valid w₁ hk₁ hvalid => ?_
  cases valid with
  | error text => exact done_page hk₁ (fun _ he => by cases he)
  | ok u => ?_
  have hhead := hvalid rfl
  refine R.seq_read hk₁ fun s w₂ hk₂ hs₂ _ => ?_
  split
  · exact ⟨hk₂, fun _ he => by cases he⟩
  rename_i filespaceId hfs
  refine R.seq_ask (o := .createS3Datastore (form.new s.token filespaceId s.apiHost)) trivial hk₂
    fun (result : String) w₃ h₃ hk₃ hh₃ hs₃ => ?_
  split
  · exact done_page hk₃ (fun _ he => by cases he)
  rename_i hresult
  refine R.seq_read hk₃ fun s' w₄ hk₄ hs₄ _ => ?_
  refine R.seq_ask (o := .listDatastores s'.token filespaceId s'.apiHost) trivial hk₄
    fun (datastores : List Datastore) w₅ h₅ hk₅ hh₅ hs₅ => ?_
  refine seq (fill_known (fun _ _ hk => hk) (hh₅ ▸ List.mem_cons_self) hk₅) fun filled w₆ hk₆ hs₆ => ?_
  obtain ⟨rows, s''⟩ := filled
  simp only []
  split
  · exact done_page hk₆ (fun _ he => by cases he)
  rename_i datastoreId hnew
  obtain ⟨ds, hds, hkey, rfl⟩ := new_mem hnew
  have hcreated : Created pid w₆.hist (form.saved ds.id filespaceId s''.lucid.selectedFilespace) := by
    refine ⟨form, s.token, s.apiHost, s'.token, s'.apiHost, datastores, ds, rfl, hds, hkey, ?_⟩
    have hresult : result = "SUCCESS" := by simpa using hresult
    subst hresult
    refine List.Sublist.trans ?_ hs₆.sublist
    rw [hh₅]
    refine List.Sublist.cons_cons _ (List.Sublist.trans ?_ (hs₄.trans hs₅).sublist)
    rw [hh₃]
    exact List.Sublist.cons_cons _ (List.singleton_sublist.mpr ((hs₂.trans hs₃).mem hhead))
  refine seq (wp_mono (fun _ _ h => ⟨h, fun _ _ => trivial⟩) (save_known hcreated hk₆)) fun _ w₇ hk₇ _ => ?_
  exact R.seq_plain (.await trivial) hk₇ fun _ _ hk _ => done_page hk (fun _ he => by cases he)

theorem page_known (request : Request) {w : ConnectionWorld} (hk : Known w.hist w.st.lucid) :
    wp (knownLaw pid) request.page (Done Known Somewhere) w := by
  have R := known_reading pid
  cases request with
  | loadFilespaces token apiHost => exact loadFilespaces_known hk
  | loadDatastores filespace => exact loadDatastores_known hk
  | connect datastore => exact R.connect hk
  | credentialsModal datastoreId => exact R.datastoreCredentialsModal hk
  | info datastoreId => exact R.datastoreInfo hk
  | delete datastoreId => exact R.deleteDatastore hk
  | create form => exact createDatastore_known hk

end Known

def knownSound : Sound connection any where
  inv w := Known w.hist w.st.lucid
  rely _ := knownRely
  guar pid _ := knownGuar pid
  allow _ _ _ _ := True
  post _ _ _ _ := True
  refl _ _ := ⟨List.suffix_refl _, fun h => h⟩
  trans _ _ _ _ h h' := ⟨h.1.trans h'.1, fun hk => h'.2 (h.2 hk)⟩
  init s hs := by
    have hs : s.lucid = _ := hs
    refine ⟨fun e he => ?_, fun e he => ?_⟩ <;> rw [hs] at he <;> cases he
  keep _ _ _ _ hk hg := hg.1.2 hk
  others _ _ _ _ _ _ _ hg := hg.1
  outside w e s hk hx := by
    cases hx
    exact ⟨hk, fun _ => ⟨List.suffix_refl _, fun h => h⟩⟩
  allowed _ _ _ := trivial
  stable _ _ _ _ _ _ _ := trivial
  code pid request w hk _ _ := by
    refine (known_reading pid).respond (wp_mono (fun x w' h => ?_) (page_known request hk)) fun _ _ _ => trivial
    cases x with
    | ok page => exact Or.inr ⟨page, rfl, h⟩
    | error e => exact Or.inl ⟨e, rfl, trivial⟩

section Runs

variable {s : Session} {n : Nat}

theorem known_promise (hs : connection.init s) (f : Sched connection) {e : Event connectionSig Exc}
    (he : event (conf s f n) (f n) = some e) :
    (∀ filespaceId datastoreId, Names e filespaceId datastoreId →
      Somewhere (conf s f n).w.hist filespaceId datastoreId) ∧
      ∀ row, e.op = .saveDatastoreCredentials row → Created e.pid (conf s f n).w.hist row := by
  have hreach : Reach any (conf s f n) := conf_reach hs fun _ _ _ _ => trivial
  obtain ⟨k, s', hp, hx, _⟩ := event_some he
  obtain ⟨_, _, _, e', _, hh, hn, hrow⟩ := knownSound.promise hreach hp hx trivial
  cases hh
  exact ⟨hn, hrow⟩

/-- Whatever the order of the requests, a datastore that is asked for, deleted or named in a
    form was listed by LucidLink, and so was the filespace it is named with. -/
theorem named_listed (hs : connection.init s) (f : Sched connection) {e : Event connectionSig Exc}
    {filespaceId datastoreId : String}
    (he : event (conf s f n) (f n) = some e) (hn : Names e filespaceId datastoreId) :
    FilespaceListed (conf s f n).w.hist filespaceId ∧
    ∃ filespaceId', ListedIn (conf s f n).w.hist filespaceId' datastoreId :=
  (known_promise hs f he).1 _ _ hn

end Runs

/-! ## One request at a time -/

/-- The datastores of the session are those that LucidLink listed in the selected filespace. -/
def Together (hist : History) (l : Lucid) : Prop :=
  ∀ filespaceId, l.filespaceId = some filespaceId → ∀ e ∈ l.datastores, ListedIn hist filespaceId e.2.id

def loneRely (a b : ConnectionWorld) : Prop := b.hist = a.hist ∧ b.st.lucid = a.st.lucid

def loneGuar (a b : ConnectionWorld) : Prop :=
  ∃ e : Event connectionSig Exc, b.hist = e :: a.hist ∧
    ∀ filespaceId datastoreId, Names e filespaceId datastoreId → ListedIn a.hist filespaceId datastoreId

abbrev loneLaw (pid : Nat) : Law ConnectionWorld connectionSig Exc :=
  connection.law (fun _ => True) (fun _ => loneRely) (fun _ => loneGuar) (fun _ _ _ _ => True) pid

theorem lone_reading (pid : Nat) : Reading pid (loneLaw pid) Together ListedIn where
  rely a b h := ⟨h.1 ▸ List.suffix_refl _, fun hJ => by rwa [h.1, h.2]⟩
  act a o r b h := by
    obtain ⟨_, s, hx, rfl⟩ := h
    exact ⟨hx, rfl⟩
  guar a o r b ha _ hn _ := by
    obtain ⟨_, s, _, rfl⟩ := ha
    exact ⟨⟨pid, o, r⟩, rfl, hn⟩
  mono _ _ _ hs hJ fs hfs e he := (hJ fs hfs e he).mono hs
  fact _ _ _ _ hs hf := hf.mono hs
  del _ _ _ hJ fs hfs e he := hJ fs hfs e (List.mem_filter.mp he).1
  pair _ _ fs e hJ hfs he := hJ fs hfs e he

/-- A request that returns leaves the session in order. -/
def Fine (x : Except Exc Page) (w : ConnectionWorld) : Prop :=
  ∀ page, x = .ok page → Done Together ListedIn (.ok page) w

theorem Fine.of_done {x : Except Exc Page} {w : ConnectionWorld} (h : Done Together ListedIn x w) : Fine x w :=
  fun _ he => he ▸ h

section Lone

variable {pid : Nat}

theorem seq_fine {α : Type} {p : ConnectionProg α} {f : α → ConnectionProg Page}
    {P : α → ConnectionWorld → Prop} {w : ConnectionWorld}
    (hp : wp (loneLaw pid) p (fun x w' => ∀ a, x = .ok a → P a w') w)
    (hf : ∀ a w', P a w' → wp (loneLaw pid) (f a) Fine w') :
    wp (loneLaw pid) (p.bind f) Fine w := by
  refine wp_bind.mpr (wp_mono (fun x w' h => ?_) hp)
  cases x with
  | ok a => exact hf a w' (h a rfl)
  | error e => exact fun _ he => by cases he

/-- A segment of a request that is served alone. -/
theorem lone_sync {f : Session → Session} {w : ConnectionWorld} :
    wp (loneLaw pid) (ask (.sync f))
      (fun x w' => ∀ s, x = .ok s → s.lucid = w.st.lucid ∧ w'.st = f s ∧ w.hist <:+ w'.hist) w := by
  refine wp_await fun w₁ ⟨hh, hl⟩ _ r w₂ ha => ?_
  obtain ⟨_, s, hx, rfl⟩ := ha
  obtain ⟨rfl, rfl⟩ := exec_sync hx
  refine ⟨⟨_, rfl, fun _ _ hn => by cases hn⟩, fun s he => ?_⟩
  cases he
  exact ⟨hl, rfl, hh ▸ List.suffix_cons _ _⟩

theorem lone_ask {o : Op} (ho : Plain o) {w : ConnectionWorld} :
    wp (loneLaw pid) (ask o) (fun x w' => w'.st.lucid = w.st.lucid ∧ w'.hist = ⟨pid, o, x⟩ :: w.hist) w := by
  refine wp_await fun w₁ ⟨hh, hl⟩ _ r w₂ ha => ?_
  obtain ⟨_, s, hx, rfl⟩ := ha
  have hs : s = w₁.st := exec_plain ho hx
  refine ⟨⟨_, rfl, fun _ _ hn => ?_⟩, by rw [← hl, ← hs]; rfl, by rw [← hh]; rfl⟩
  cases hn <;> exact ho.elim

theorem lone_plain {α : Type} {p : ConnectionProg α} (hp : p.Uses Plain) {w : ConnectionWorld} :
    wp (loneLaw pid) p (fun _ w' => w'.st.lucid = w.st.lucid ∧ w.hist <:+ w'.hist) w := by
  refine wp_uses (fun a b hr ⟨hl, hs⟩ => ⟨hr.2.trans hl, hr.1 ▸ hs⟩) (fun a o r b ho ⟨hl, hs⟩ _ ha => ?_) hp
    ⟨rfl, List.suffix_refl _⟩
  obtain ⟨_, s, hx, rfl⟩ := ha
  have hst : s = a.st := exec_plain ho hx
  refine ⟨⟨_, rfl, fun _ _ hn => ?_⟩, hst ▸ hl, hs.trans (List.suffix_cons _ _)⟩
  cases hn <;> exact ho.elim

theorem lone_seq_ask {o : Op} (ho : Plain o) {f : o.Ret → ConnectionProg Page} {w : ConnectionWorld}
    (hf : ∀ a w', w'.st.lucid = w.st.lucid → w'.hist = ⟨pid, o, .ok a⟩ :: w.hist → wp (loneLaw pid) (f a) Fine w') :
    wp (loneLaw pid) ((ask o).bind f) Fine w :=
  seq_fine (wp_mono (fun _ _ h _ he => he ▸ h) (lone_ask ho)) fun a w' h => hf a w' h.1 h.2

theorem lone_seq_plain {α : Type} {p : ConnectionProg α} (hp : p.Uses Plain) {f : α → ConnectionProg Page}
    {w : ConnectionWorld}
    (hf : ∀ a w', w'.st.lucid = w.st.lucid → w.hist <:+ w'.hist → wp (loneLaw pid) (f a) Fine w') :
    wp (loneLaw pid) (p.bind f) Fine w :=
  seq_fine (wp_mono (fun _ _ h _ _ => h) (lone_plain hp)) fun a w' h => hf a w' h.1 h.2

/-- A segment that leaves what LucidLink answered. -/
theorem lone_seq_read {f : Session → ConnectionProg Page} {w : ConnectionWorld}
    (hf : ∀ s w', s.lucid = w.st.lucid → w'.st.lucid = w.st.lucid → w.hist <:+ w'.hist →
      wp (loneLaw pid) (f s) Fine w') :
    wp (loneLaw pid) (read.bind f) Fine w :=
  seq_fine lone_sync fun s w' ⟨hl, hst, hs⟩ => hf s w' hl (by rw [hst]; exact hl) hs

theorem lone_fill {known : Datastore → Bool} {done pending : Lucid → Lucid} {datastores : List Datastore}
    {w : ConnectionWorld} :
    wp (loneLaw pid) (fill known done pending datastores) (fun x w' => ∀ a, x = .ok a → w.hist <:+ w'.hist ∧
      w'.st.lucid = done (datastores.foldl (fun l ds => l.add ds) (pending w.st.lucid))) w := by
  induction datastores generalizing pending w with
  | nil =>
    refine wp_bind.mpr (wp_mono (fun x w' h => ?_) lone_sync)
    cases x with
    | error e => exact fun _ he => by cases he
    | ok s =>
      obtain ⟨hl, hst, hs⟩ := h s rfl
      exact fun _ _ => ⟨hs, by rw [hst, ← hl]; rfl⟩
  | cons ds rest ih =>
    unfold fill
    split
    · refine wp_bind.mpr (wp_mono (fun x w' h => ?_) ih)
      cases x with
      | error e => exact fun _ he => by cases he
      | ok a => exact fun _ _ => h a rfl
    · refine wp_bind.mpr (wp_mono (fun x w₁ h₁ => ?_) lone_sync)
      cases x with
      | error e => exact fun _ he => by cases he
      | ok s => ?_
      obtain ⟨hl, hst, hs₁⟩ := h₁ s rfl
      refine wp_bind.mpr (wp_mono (fun x w₂ h₂ => ?_)
        (lone_plain (p := ask (.getForDatastoreUser ds.id)) (.await trivial)))
      cases x with
      | error e => exact fun _ he => by cases he
      | ok hasCreds => ?_
      refine wp_bind.mpr (wp_mono (fun x w' h => ?_) (@ih id _))
      cases x with
      | error e => exact fun _ he => by cases he
      | ok a =>
        obtain ⟨hs, hfilled⟩ := h a rfl
        refine fun _ _ => ⟨(hs₁.trans h₂.2).trans hs, ?_⟩
        rw [hfilled, h₂.1, hst, ← hl]
        rfl

theorem filled_keeps (datastores : List Datastore) (l : Lucid) :
    (datastores.foldl (fun l ds => l.add ds) l).filespaces = l.filespaces ∧
      (datastores.foldl (fun l ds => l.add ds) l).selectedFilespace = l.selectedFilespace ∧
      ∀ e ∈ (datastores.foldl (fun l ds => l.add ds) l).datastores, e ∈ l.datastores ∨ e.2 ∈ datastores := by
  induction datastores generalizing l with
  | nil => exact ⟨rfl, rfl, fun _ he => Or.inl he⟩
  | cons ds rest ih =>
    obtain ⟨hfs, hsel, hds⟩ := ih (l.add ds)
    refine ⟨hfs, hsel, fun e he => ?_⟩
    rcases hds e he with he | he
    · rcases mem_put he with rfl | he
      · exact Or.inr List.mem_cons_self
      · exact Or.inl he
    · exact Or.inr (List.mem_cons_of_mem _ he)

/-- The datastores of a filespace fill the session, which selects it. -/
theorem together_filled {hist : History} {l : Lucid} {q : Nat} {token filespaceId apiHost selected : String}
    {datastores : List Datastore}
    (hl : ⟨q, Op.listDatastores token filespaceId apiHost, .ok datastores⟩ ∈ hist)
    (hfs : l.filespaces.lookup selected = some filespaceId) :
    Together hist (Lucid.select selected (datastores.foldl (fun l ds => l.add ds) l.clear)) := by
  obtain ⟨hfilespaces, _, hds⟩ := filled_keeps datastores l.clear
  intro fs hfs' e he
  rcases hds e he with he | he
  · cases he
  have hfs' : (datastores.foldl (fun l ds => l.add ds) l.clear).filespaces.lookup selected = some fs := hfs'
  rw [hfilespaces] at hfs'
  cases hfs.symm.trans hfs'
  exact ⟨q, token, apiHost, datastores, e.2, hl, he, rfl⟩

theorem select_filled (datastores : List Datastore) (l : Lucid) :
    Lucid.select l.selectedFilespace (datastores.foldl (fun l ds => l.add ds) l.clear) =
      datastores.foldl (fun l ds => l.add ds) l.clear := by
  have hsel : _ = l.selectedFilespace := (filled_keeps datastores l.clear).2.1
  rw [Lucid.select, ← hsel]

theorem lone_save {row : Saved} {w : ConnectionWorld} :
    wp (loneLaw pid) (ask (.saveDatastoreCredentials row))
      (fun _ w' => w'.st.lucid = w.st.lucid ∧ w.hist <:+ w'.hist) w := by
  refine wp_await fun w₁ ⟨hh, hl⟩ _ r w₂ ha => ?_
  obtain ⟨_, s, hx, rfl⟩ := ha
  cases hx
  exact ⟨⟨_, rfl, fun _ _ hn => by cases hn⟩, hl, hh ▸ List.suffix_cons _ _⟩

theorem Together.moved {w w' : ConnectionWorld} (hJ : Together w.hist w.st.lucid) (hl : w'.st.lucid = w.st.lucid)
    (hs : w.hist <:+ w'.hist) : Together w'.hist w'.st.lucid :=
  hl ▸ fun fs hfs e he => (hJ fs hfs e he).mono hs

theorem loadDatastores_fine {filespace : String} {w : ConnectionWorld} (hJ : Together w.hist w.st.lucid) :
    wp (loneLaw pid) (loadDatastores filespace) Fine w := by
  refine lone_seq_read fun s w₁ hsl hl₁ hs₁ => ?_
  split
  · exact .of_done (done_page (hJ.moved hl₁ hs₁) fun _ he => by cases he)
  rename_i filespaceId hfs
  refine lone_seq_ask (o := .listDatastores s.token filespaceId s.apiHost) trivial
    fun (datastores : List Datastore) w₂ hl₂ hh₂ => ?_
  refine seq_fine lone_fill fun _ w₃ ⟨hs₃, hl₃⟩ => .of_done (done_page ?_ fun _ he => by cases he)
  rw [hl₃, hl₂, hl₁, ← hsl]
  exact together_filled (hs₃.mem (hh₂ ▸ List.mem_cons_self)) hfs

theorem loadFilespaces_fine {token : String} {apiHost : Option String} {w : ConnectionWorld}
    (hJ : Together w.hist w.st.lucid) :
    wp (loneLaw pid) (loadFilespaces token apiHost) Fine w := by
  refine lone_seq_read fun s w₁ _ hl₁ hs₁ => ?_
  refine lone_seq_ask (o := .listFilespaces token (effectiveHost apiHost s)) trivial
    fun (result : Except String (List Filespace)) w₂ hl₂ hh₂ => ?_
  cases result with
  | error text =>
    exact .of_done (done_page (hJ.moved (hl₂.trans hl₁) (hs₁.trans (hh₂ ▸ List.suffix_cons _ _)))
      fun _ he => by cases he)
  | ok result => ?_
  -- from here on the session is out of order until it is filled again
  refine seq_fine (wp_mono (fun _ _ _ _ _ => trivial) lone_sync) fun _ w₃ _ => ?_
  refine lone_seq_plain (plain_saveToken _) fun _ w₄ _ _ => ?_
  refine lone_seq_read fun s₅ w₅ _ _ _ => ?_
  refine lone_seq_plain (plain_saveApiHost _) fun _ w₆ _ _ => ?_
  refine lone_seq_plain (p := ask .commit) (.await trivial) fun _ w₇ _ _ => ?_
  refine lone_seq_read fun s₈ w₈ hsl₈ hl₈ _ => ?_
  have hlucid : w₈.st.lucid = s₈.lucid := hl₈.trans hsl₈.symm
  split
  · rename_i hnone
    refine .of_done (done_page (fun fs hfs => ?_) fun _ he => by cases he)
    rw [hlucid, Lucid.filespaceId, hnone] at hfs
    cases hfs
  rename_i selected filespaceId rest hfirst
  refine lone_seq_ask (o := .listDatastores token filespaceId (effectiveHost apiHost s)) trivial
    fun (datastores : List Datastore) w₉ hl₉ hh₉ => ?_
  refine seq_fine lone_fill fun _ w' ⟨hs', hl'⟩ => .of_done (done_page ?_ fun _ he => by cases he)
  rw [hl', hl₉, hlucid]
  refine together_filled (hs'.mem (hh₉ ▸ List.mem_cons_self)) ?_
  rw [hfirst]
  simp

theorem createDatastore_fine {form : CreateForm} {w : ConnectionWorld} (hJ : Together w.hist w.st.lucid) :
    wp (loneLaw pid) (createDatastore form) Fine w := by
  have hvalid : (validateS3 form).Uses Plain := by
    refine .catching (.bind (.await trivial) fun (reachable : Except String Unit) => ?_) fun e => ?_
    · cases reachable <;> trivial
    · split <;> trivial
  refine lone_seq_plain hvalid fun valid w₁ hl₁ hs₁ => ?_
  have hJ₁ := hJ.moved hl₁ hs₁
  cases valid with
  | error text => exact .of_done (done_page hJ₁ fun _ he => by cases he)
  | ok u => ?_
  refine lone_seq_read fun s w₂ hsl₂ hl₂ hs₂ => ?_
  split
  · exact fun _ he => by cases he
  rename_i filespaceId hfs
  refine lone_seq_ask (o := .createS3Datastore (form.new s.token filespaceId s.apiHost)) trivial
    fun (result : String) w₃ hl₃ hh₃ => ?_
  have hs₃ : w₁.hist <:+ w₃.hist := hs₂.trans (hh₃ ▸ List.suffix_cons _ _)
  split
  · exact .of_done (done_page (hJ₁.moved (hl₃.trans hl₂) hs₃) fun _ he => by cases he)
  refine lone_seq_read fun s' w₄ _ hl₄ _ => ?_
  refine lone_seq_ask (o := .listDatastores s'.token filespaceId s'.apiHost) trivial
    fun (datastores : List Datastore) w₅ hl₅ hh₅ => ?_
  refine seq_fine lone_fill fun filled w₆ ⟨hs₆, hl₆⟩ => ?_
  -- the filespace that is selected is the one the datastore was created in
  have hJ₆ : Together w₆.hist w₆.st.lucid := by
    rw [hl₆, hl₅, hl₄, hl₃, hl₂, ← hsl₂]
    exact select_filled datastores s.lucid ▸ together_filled (hs₆.mem (hh₅ ▸ List.mem_cons_self)) hfs
  obtain ⟨rows, s''⟩ := filled
  simp only []
  split
  · exact .of_done (done_page hJ₆ fun _ he => by cases he)
  refine seq_fine (wp_mono (fun _ _ h _ _ => h) lone_save) fun _ w₇ ⟨hl₇, hs₇⟩ => ?_
  exact lone_seq_plain (p := ask .commit) (.await trivial) fun _ _ hl hs =>
    .of_done (done_page ((hJ₆.moved hl₇ hs₇).moved hl hs) fun _ he => by cases he)

theorem page_fine (request : Request) {w : ConnectionWorld} (hJ : Together w.hist w.st.lucid) :
    wp (loneLaw pid) request.page Fine w := by
  have R := lone_reading pid
  cases request with
  | loadFilespaces token apiHost => exact loadFilespaces_fine hJ
  | loadDatastores filespace => exact loadDatastores_fine hJ
  | connect datastore => exact wp_mono (fun _ _ h => .of_done h) (R.connect hJ)
  | credentialsModal datastoreId => exact wp_mono (fun _ _ h => .of_done h) (R.datastoreCredentialsModal hJ)
  | info datastoreId => exact wp_mono (fun _ _ h => .of_done h) (R.datastoreInfo hJ)
  | delete datastoreId => exact wp_mono (fun _ _ h => .of_done h) (R.deleteDatastore hJ)
  | create form => exact createDatastore_fine hJ

end Lone

def serialConnection : Serial connection where
  inv w := Together w.hist w.st.lucid
  rely := loneRely
  guar := loneGuar
  refl _ := ⟨rfl, rfl⟩
  trans _ _ _ h h' := ⟨h'.1.trans h.1, h'.2.trans h.2⟩
  init s hs fs hfs := by
    have hs : s.lucid = _ := hs
    rw [hs] at hfs
    cases hfs
  outside w e s hx := by
    cases hx
    exact ⟨rfl, rfl⟩
  stable w w' hr hJ := hJ.moved hr.2 (hr.1 ▸ List.suffix_refl _)
  code pid request w hJ := by
    refine (lone_reading pid).respond (wp_mono (fun x w' h => ?_) (page_fine request hJ)) fun _ _ hJ _ _ => hJ
    cases x with
    | ok page => exact Or.inr ⟨page, rfl, h page rfl⟩
    | error e => exact Or.inl ⟨e, rfl, fun _ he => by cases he⟩

/-- While requests are served one at a time, none failing, a datastore is asked for, deleted
    and named in a form with a filespace that LucidLink listed it in. -/
theorem named_there {s : Session} (hs : connection.init s) {f : Sched connection} {n : Nat}
    (hlone : ∀ k ≤ n, ∀ e, event (conf s f k) (f k) = some e → Lone (conf s f k) e) {e : Event connectionSig Exc}
    {filespaceId datastoreId : String} (he : event (conf s f n) (f n) = some e)
    (hn : Names e filespaceId datastoreId) :
    ListedIn (conf s f n).w.hist filespaceId datastoreId := by
  obtain ⟨e', hh, hnames⟩ := serialConnection.promise hs hlone he
  have hhist : (conf s f (n + 1)).w.hist = e :: (conf s f n).w.hist := by
    show (step _ _).w.hist = _
    rw [step_hist, he]
    rfl
  cases hhist.symm.trans hh
  exact hnames _ _ hn

/-! ## A filespace is loaded, and a datastore created and deleted -/

def newSession : Session := ⟨⟨[], [], ""⟩, "", "", ""⟩

def media : Datastore := ⟨"d1", some "media", none, some "bucket", none, none, none, none⟩

def mediaForm : CreateForm := ⟨"media", "bucket", "key", "secret", "eu-west-1", none, none, none⟩

/-- LucidLink has one filespace, with one datastore. -/
def answers (s : Session) : (o : Op) → Except Exc o.Ret
  | .sync _ => .ok s
  | .listFilespaces _ _ => .ok (.ok [⟨"films", "f1"⟩])
  | .listDatastores _ _ _ => .ok [media]
  | .getDatastore _ _ _ _ => .ok (.ok media)
  | .deleteDatastore _ _ _ _ | .createS3Datastore _ => .ok "SUCCESS"
  | .headBucket _ _ => .ok (.ok ())
  | .getForDatastoreUser _ | .deleteDatastoreCredentials _ => .ok true
  | .saveDatastoreCredentials _ | .saveLlToken _ | .setApiHost _ | .commit | .respond _ => .ok ()

def working : Sched connection := sched
  (.start (.loadFilespaces "token" none) :: List.replicate 12 (.run 0 answers) ++
    .start (.create mediaForm) :: List.replicate 9 (.run 1 answers) ++
    .start (.delete "d1") :: List.replicate 2 (.run 2 answers)) (.run 3 answers)

theorem named_listed_working : FilespaceListed (conf newSession working 25).w.hist "f1" ∧
    ∃ filespaceId', ListedIn (conf newSession working 25).w.hist filespaceId' "d1" :=
  named_listed (s := newSession) rfl working (n := 25) rfl (.delete 2 "token" "" "f1" "d1" (.ok "SUCCESS"))

theorem working_lone : ∀ k ≤ 25, ∀ e, event (conf newSession working k) (working k) = some e →
    Lone (conf newSession working k) e := by
  refine lone_of_starts rfl (fun k hk pid => ?_) fun k hk t hs q ht => ?_
  · interval_cases k <;> exact nofun
  · have hk : k = 0 ∨ k = 13 ∨ k = 23 := by
      interval_cases k <;> first | decide | cases hs
    rcases hk with rfl | rfl | rfl
    · exact absurd rfl ht
    · match q with
      | 0 => exact ⟨(), rfl⟩
      | q + 1 => exact absurd rfl ht
    · match q with
      | 0 | 1 => exact ⟨(), rfl⟩
      | q + 2 => exact absurd rfl ht

theorem named_there_working : ListedIn (conf newSession working 25).w.hist "f1" "d1" :=
  named_there (s := newSession) rfl working_lone rfl (.delete 2 "token" "" "f1" "d1" (.ok "SUCCESS"))

end Connect.Web.Connection
