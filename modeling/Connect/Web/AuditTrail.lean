/-
  Connect.Web.AuditTrail — what becomes of an entry of the activity log, over every
  interleaving of the requests, the nightly cleanup and the rest of the program.

  Who may delete what is decided by the code of a task (`May`), and what a statement does to
  the rows by the statement (`Effect`). From both: a row comes from one call of `log` and no
  two come from the same (`logged_once`), it stays as it was until somebody who may clears
  it, it is older than thirty days or its user is deleted (`kept_until`), and a page shows a
  user what was logged in his name, or an admin the entries of the admins (`shown_own`).
-/

import Connect.Web.Journal

namespace Connect.Web.Journal

open Await Data Sql Auth

variable {U : Unicode}

variable (U) in
abbrev LogWorld := World (journalSystem U)

/-! ## The law of the tasks -/

/-- The statements that a task may perform, after what has happened. -/
def May (U : Unicode) (pid : Nat) (t : Task) (hist : List (Event logSig Exc)) : LogOp → Prop
  | .createEntry entry userId => t = .log entry ∧ userId = parseUserId U entry.userId ∧ ∀ e ∈ hist, e.pid ≠ pid
  | .clearForUser category userId => ∃ user name, t = .clear (some user) name ∧ name ∈ ["app", "jobs", "sqs"] ∧
      category = some (dbCategory name) ∧ userId = parseUserId U (some user.userId)
  | .clearCategory category => ∃ user, t = .clear (some user) "admin" ∧ user.isAdmin = true ∧ category = "admin"
  | .clearOld days => t = .cleanup ∧ days = 30
  | .deleteUser userId => t = .deleteUser userId
  | _ => True

def Kept (U : Unicode) (pid : Nat) (t : Task) (w w' : LogWorld U) : Prop :=
  ∃ o r, w'.hist = ⟨pid, o, r⟩ :: w.hist ∧ May U pid t w.hist o

def Others (pid : Nat) (w w' : LogWorld U) : Prop := ∃ es, w'.hist = es ++ w.hist ∧ ∀ e ∈ es, e.pid ≠ pid

theorem Others.refl (pid : Nat) (w : LogWorld U) : Others pid w w := ⟨[], rfl, fun _ h => by cases h⟩

theorem Others.trans {pid : Nat} {a b c : LogWorld U} : Others pid a b → Others pid b c → Others pid a c := by
  rintro ⟨es, hes, he⟩ ⟨es', hes', he'⟩
  refine ⟨es' ++ es, by rw [hes', hes, List.append_assoc], fun e hm => ?_⟩
  rcases List.mem_append.mp hm with hm | hm
  · exact he' e hm
  · exact he e hm

theorem Others.mem {pid : Nat} {w w' : LogWorld U} (h : Others pid w w') {e : Event logSig Exc}
    (he : e ∈ w.hist) : e ∈ w'.hist := by
  obtain ⟨es, hes, -⟩ := h
  rw [hes]
  exact List.mem_append_right _ he

theorem Kept.mem {pid : Nat} {t : Task} {w w' : LogWorld U} (h : Kept U pid t w w') {e : Event logSig Exc}
    (he : e ∈ w.hist) :
    e ∈ w'.hist := by
  obtain ⟨o, r, hh, -⟩ := h
  rw [hh]
  exact List.mem_cons_of_mem _ he

abbrev auditLaw (U : Unicode) (pid : Nat) (t : Task) : Law (LogWorld U) logSig Exc :=
  (journalSystem U).law (fun _ => True) Others (fun pid => Kept U pid t) (fun _ _ _ _ => True) pid

variable {pid : Nat} {t : Task} {w : LogWorld U}

/-- A statement the task may perform, whatever the others have done. -/
theorem wp_perform {o : LogOp} (h : ∀ w', Others pid w w' → May U pid t w'.hist o) :
    wp (auditLaw U pid t) (perform o) (fun x w => (⟨pid, o, x⟩ : Event logSig Exc) ∈ w.hist) w := by
  refine wp_await fun w₁ hr _ r w₂ ha => ?_
  obtain ⟨_, s, _, rfl⟩ := ha
  exact ⟨⟨o, r, rfl, h w₁ hr⟩, List.mem_cons_self⟩

theorem wp_any {o : LogOp} {Q : Except Exc o.Ret → LogWorld U → Prop}
    (h : ∀ w', Others pid w w' → May U pid t w'.hist o)
    (hQ : ∀ x w, Q x w) : wp (auditLaw U pid t) (perform o) Q w := wp_mono (fun x w _ => hQ x w) (wp_perform h)

/-! ## Code -/

theorem wp_persist {entry : Entry} (hnew : ∀ e ∈ w.hist, e.pid ≠ pid) :
    wp (auditLaw U pid (.log entry)) (persist U entry) (fun _ _ => True) w := by
  refine wp_catching.mpr (wp_any (fun w' hr => ⟨rfl, rfl, fun e he => ?_⟩) fun x w => ?_)
  · obtain ⟨es, hes, hpid⟩ := hr
    rw [hes] at he
    rcases List.mem_append.mp he with he | he
    · exact hpid e he
    · exact hnew e he
  · cases x with
    | ok a => trivial
    | error e =>
      dsimp only
      split <;> trivial

theorem wp_withSession {attached : Option Attached} {route : Attached → LogProg Reply}
    {Q : Except Exc Reply → LogWorld U → Prop}
    (hroute : ∀ user w, attached = some user → wp (auditLaw U pid t) (route user) Q w)
    (hrefused : ∀ statusCode detail w, Q (.ok (.httpError statusCode detail)) w) (hraised : ∀ e w, Q (.error e) w) :
    wp (auditLaw U pid t) (withSession attached route) Q w := by
  unfold withSession
  cases attached with
  | none => exact hrefused _ _ _
  | some user =>
    dsimp only
    by_cases hempty : user.userId = ""
    · rw [if_pos hempty]
      exact hrefused _ _ _
    · rw [if_neg hempty]
      refine wp_bind.mpr (wp_any (fun _ _ => trivial) fun x w => ?_)
      cases x with
      | error e => exact hraised e w
      | ok a => exact hroute user w rfl

/-- The category a tab shows. -/
def Tab.category : Tab → String
  | .app => "app"
  | .jobs => "job"
  | .sqs => "sqs"
  | .admin => "admin"

/-- Whose entries a tab shows to a user; `none` is everybody's, which it takes an admin to see. -/
def Tab.owner (U : Unicode) (user : Attached) : Tab → Option (Option Uuid)
  | .admin => none
  | _ => some (parseUserId U (some user.userId))

/-- What a page shows, one statement of the task has read. -/
def Read (U : Unicode) (pid : Nat) (attached : Option Attached) (tab : Tab) (logs : List LogDict)
    (w : LogWorld U) : Prop :=
  ∃ user rows limit offset, attached = some user ∧ logs = rows.map LogDict.of ∧ (tab = .admin → user.isAdmin = true) ∧
    (⟨pid, .listFiltered (some tab.category) ((tab.owner U user).getD none) (tab.owner U user).isNone limit offset,
      .ok rows⟩ : Event logSig Exc) ∈ w.hist

/-- What a task leaves when it is through. -/
def Leaves (U : Unicode) (pid : Nat) (t : Task) (x : Except Exc (Option Reply)) (w : LogWorld U) : Prop :=
  ∀ attached tab limit offset template logs total limit' offset' category, t = .page attached tab limit offset →
    x = .ok (some (.page template logs total limit' offset' category)) → Read U pid attached tab logs w

/-- What a page leaves. -/
def Paged (U : Unicode) (pid : Nat) (attached : Option Attached) (tab : Tab) (x : Except Exc Reply)
    (w : LogWorld U) : Prop :=
  ∀ template logs total limit offset category, x = .ok (.page template logs total limit offset category) →
    Read U pid attached tab logs w

theorem paged_refused {attached : Option Attached} {tab : Tab} (statusCode : Nat) (detail : String) (w : LogWorld U) :
    Paged U pid attached tab (.ok (.httpError statusCode detail)) w := fun _ _ _ _ _ _ h => by cases h

theorem paged_raised {attached : Option Attached} {tab : Tab} (e : Exc) (w : LogWorld U) :
    Paged U pid attached tab (.error e) w :=
  fun _ _ _ _ _ _ h => by cases h

/-- The two statements of a page. -/
theorem wp_page {attached : Option Attached} {tab : Tab} {user : Attached} (hu : attached = some user)
    (hadmin : tab = .admin → user.isAdmin = true) (userId : Option String)
    (howner : parseUserId U userId = (tab.owner U user).getD none) (template category : String) (limit offset : Int) :
    wp (auditLaw U pid t) ((alistLogs U (some tab.category) userId limit offset
      (tab.owner U user).isNone).bind fun logs =>
        (acountLogs U (some tab.category) userId (tab.owner U user).isNone).bind fun total =>
          .ret (.page template logs total limit offset category)) (Paged U pid attached tab) w := by
  refine wp_bind.mpr (wp_bind.mpr (wp_mono (fun x w hx => ?_) (wp_perform fun _ _ => trivial)))
  rcases x with e | rows
  · exact paged_raised e w
  have hread : Read U pid attached tab (List.map LogDict.of rows) w :=
    ⟨user, rows, limit, offset, hu, rfl, hadmin, howner ▸ hx⟩
  refine wp_bind.mpr (wp_mono (fun x w hx => ?_)
    (wp_frame (fun a b hr h => ?_) (fun a b hg h => ?_) (wp_perform fun _ _ => trivial) hread))
  · rcases x with e | total
    · exact paged_raised e w
    · intro _ _ _ _ _ _ h
      cases h
      exact hx.2
  · obtain ⟨user, rows, limit, offset, hu, hl, ha, he⟩ := h
    exact ⟨user, rows, limit, offset, hu, hl, ha, Others.mem hr he⟩
  · obtain ⟨user, rows, limit, offset, hu, hl, ha, he⟩ := h
    exact ⟨user, rows, limit, offset, hu, hl, ha, Kept.mem hg he⟩

theorem wp_ownLogs {attached : Option Attached} {tab : Tab} (htab : tab ≠ .admin)
    {template category : String} {limit offset : Int} :
    wp (auditLaw U pid t) (ownLogs U tab.category template category attached limit offset)
      (Paged U pid attached tab) w := by
  refine wp_withSession (fun user w hu => ?_) paged_refused paged_raised
  have howner : tab.owner U user = some (parseUserId U (some user.userId)) := by
    cases tab <;> first | rfl | exact absurd rfl htab
  have h := @wp_page U pid t w attached tab user hu (fun h => absurd h htab) (some user.userId) (by rw [howner]; rfl)
    template category limit offset
  rw [howner] at h
  exact h

theorem wp_logsAdmin {attached : Option Attached} {limit offset : Int} :
    wp (auditLaw U pid t) (logsAdmin U attached limit offset) (Paged U pid attached .admin) w := by
  refine wp_withSession (fun user w hu => ?_) paged_refused paged_raised
  cases hadmin : user.isAdmin with
  | false => exact paged_refused _ _ _
  | true => exact @wp_page U pid t w attached .admin user hu (fun _ => hadmin) none rfl _ _ limit offset

theorem wp_clear {attached : Option Attached} {name : String} :
    wp (auditLaw U pid (.clear attached name)) (clearLogsCategory U attached name) (fun _ _ => True) w := by
  refine wp_withSession (fun user w hu => ?_) (fun _ _ _ => trivial) fun _ _ => trivial
  dsimp only
  by_cases hvalid : name ∉ validCategories user.isAdmin
  · rw [if_pos hvalid]
    trivial
  rw [if_neg hvalid]
  by_cases hname : name = "admin"
  · subst hname
    rw [if_pos rfl]
    cases hadmin : user.isAdmin with
    | false => trivial
    | true =>
      refine wp_bind.mpr (wp_any (fun _ _ => ⟨user, by rw [hu], hadmin, rfl⟩) fun x w => ?_)
      cases x <;> trivial
  · rw [if_neg hname]
    have hown : name ∈ ["app", "jobs", "sqs"] := by
      have hmem := List.mem_append.mp (Decidable.not_not.mp hvalid)
      refine hmem.resolve_right fun h => hname ?_
      split at h
      · exact List.mem_singleton.mp h
      · cases h
    refine wp_bind.mpr (wp_any (fun _ _ => ⟨user, name, by rw [hu], hown, rfl, rfl⟩) fun x w => ?_)
    cases x <;> trivial

theorem wp_cleanup : wp (auditLaw U pid .cleanup) cleanupOldActivityLogs (fun _ _ => True) w := by
  refine wp_bind.mpr (wp_mono (fun x w _ => ?_) (@wp_perform U pid .cleanup w (.clearOld 30) fun _ _ => ⟨rfl, rfl⟩))
  rcases x with e | (deleted : Nat)
  · trivial
  show wp _ (if 0 < deleted then _ else .ret ()) _ w
  by_cases hsome : 0 < deleted
  · rw [if_pos hsome]
    exact wp_any (o := .publishLog _) (fun _ _ => trivial) fun _ _ => trivial
  · rw [if_neg hsome]
    trivial

theorem wp_task (hnew : ∀ e ∈ w.hist, e.pid ≠ pid) : wp (auditLaw U pid t) (t.code U) (Leaves U pid t) w := by
  have hpage : ∀ {attached : Option Attached} {tab : Tab} {limit offset : Int} {p : LogProg Reply},
      wp (auditLaw U pid (.page attached tab limit offset)) p (Paged U pid attached tab) w →
        wp (auditLaw U pid (.page attached tab limit offset)) (p.bind fun a => .ret (some a))
          (Leaves U pid (.page attached tab limit offset)) w := by
    intro attached tab limit offset p hp
    refine wp_bind.mpr (wp_mono (fun x w hx => ?_) hp)
    cases x with
    | error e => exact fun _ _ _ _ _ _ _ _ _ _ _ h => by cases h
    | ok reply =>
      intro _ _ _ _ template logs total limit' offset' category ht h
      cases ht
      cases h
      exact hx _ _ _ _ _ _ rfl
  have hother : ∀ {p : LogProg (Option Reply)}, (∀ attached tab limit offset, t ≠ .page attached tab limit offset) →
      wp (auditLaw U pid t) p (fun _ _ => True) w → wp (auditLaw U pid t) p (Leaves U pid t) w :=
    fun hne hp => wp_mono (fun _ _ _ _ _ _ _ _ _ _ _ _ _ ht => absurd ht (hne _ _ _ _)) hp
  cases t with
  | page attached tab limit offset =>
    cases tab with
    | app => exact hpage (@wp_ownLogs U pid _ w attached .app (by decide) _ _ limit offset)
    | jobs => exact hpage (@wp_ownLogs U pid _ w attached .jobs (by decide) _ _ limit offset)
    | sqs => exact hpage (@wp_ownLogs U pid _ w attached .sqs (by decide) _ _ limit offset)
    | admin => exact hpage wp_logsAdmin
  | log entry =>
    exact hother (fun _ _ _ _ h => by cases h) (wp_seq (wp_persist hnew) (fun _ _ _ => trivial) fun _ _ _ => trivial)
  | clear attached name =>
    exact hother (fun _ _ _ _ h => by cases h) (wp_seq wp_clear (fun _ _ _ => trivial) fun _ _ _ => trivial)
  | cleanup =>
    exact hother (fun _ _ _ _ h => by cases h) (wp_seq wp_cleanup (fun _ _ _ => trivial) fun _ _ _ => trivial)
  | createUser userId =>
    exact hother (fun _ _ _ _ h => by cases h)
      (wp_seq (wp_any (fun _ _ => trivial) fun _ _ => trivial) (fun _ _ _ => trivial) fun _ _ _ => trivial)
  | deleteUser userId =>
    exact hother (fun _ _ _ _ h => by cases h)
      (wp_seq (wp_any (fun _ _ => rfl) fun _ _ => trivial) (fun _ _ _ => trivial) fun _ _ _ => trivial)
  | call userId c =>
    exact hother (fun _ _ _ _ h => by cases h)
      (wp_seq (wp_any (fun _ _ => trivial) fun _ _ => trivial) (fun _ _ _ => trivial) fun _ _ _ => trivial)

variable (U) in
def auditSound : Sound (journalSystem U) any where
  inv _ := True
  rely := Others
  guar := Kept U
  allow _ _ _ _ := True
  post := Leaves U
  refl := Others.refl
  trans _ _ _ _ h h' := h.trans h'
  init _ _ := trivial
  keep _ _ _ _ _ _ := trivial
  others pid _ q _ _ hne _ hg := by
    obtain ⟨o, r, hh, -⟩ := hg
    refine ⟨[⟨pid, o, r⟩], hh, fun e he => ?_⟩
    rw [List.mem_singleton.mp he]
    exact hne
  outside w _ _ _ _ := ⟨trivial, fun q => ⟨[], rfl, fun _ h => by cases h⟩⟩
  allowed _ _ _ := trivial
  stable _ _ _ _ _ hr hpost := by
    intro attached tab limit offset template logs total limit' offset' category ht hx
    obtain ⟨user, rows, limit, offset, hu, hl, ha, he⟩ :=
      hpost attached tab limit offset template logs total limit' offset' category ht hx
    exact ⟨user, rows, limit, offset, hu, hl, ha, hr.mem he⟩
  code _ _ _ _ _ hnew := wp_task hnew

/-! ## Runs -/

variable {s : State} {f : Sched (journalSystem U)}

theorem promised (hs : (journalSystem U).init s) {n pid : Nat} {o : LogOp} {r : Except Exc o.Ret}
    (he : event (conf s f n) (f n) = some ⟨pid, o, r⟩) :
    ∃ t, (conf s f n).task pid = some t ∧ May U pid t (conf s f n).w.hist o := by
  have hreach : Reach any (conf s f n) := conf_reach hs fun _ _ _ _ => trivial
  obtain ⟨k, s', hp, hx, -⟩ := event_some he
  obtain ⟨t, ht, o', r', hh, hmay⟩ := (auditSound U).promise hreach hp hx trivial
  cases hh
  exact ⟨t, ht, hmay⟩

/-- The log after a step: as a statement has left it, or as it was. -/
theorem step_logs (s : State) (f : Sched (journalSystem U)) (n : Nat) :
    (∃ pid o r, event (conf s f n) (f n) = some ⟨pid, o, r⟩ ∧ Effect (conf s f n).w.st o r (conf s f (n + 1)).w.st) ∨
      ((conf s f (n + 1)).w.st.logs.rows = (conf s f n).w.st.logs.rows ∧
        (conf s f n).w.st.logs.next ≤ (conf s f (n + 1)).w.st.logs.next) := by
  have hm := step_moved (conf s f n) (f n)
  have hstep : conf s f (n + 1) = step (conf s f n) (f n) := rfl
  rw [hstep]
  revert hm
  generalize step (conf s f n) (f n) = c'
  intro hm
  cases hm with
  | @ran pid o k r s' _ hx he => exact .inl ⟨pid, o, r, he, exec_effect hx⟩
  | @moved e s' _ hx =>
    cases e with
    | pass microseconds =>
      cases hx
      exact .inr ⟨rfl, Nat.le_refl _⟩
    | draw =>
      cases hx
      exact .inr ⟨rfl, Nat.le_succ _⟩
  | _ => exact .inr ⟨rfl, Nat.le_refl _⟩

/-- The row is what the task `pid`, a call of `log`, has inserted at step `j`; its user may have
    been deleted since. -/
structure Written (s : State) (f : Sched (journalSystem U)) (j pid : Nat) (entry : Entry)
    (r : ActivityLog) : Prop where
  task : (conf s f j).task pid = some (.log entry)
  inserted : event (conf s f j) (f j) = some ⟨pid, LogOp.createEntry entry (parseUserId U entry.userId), .ok ()⟩
  row : ∃ userId, (userId = parseUserId U entry.userId ∨ userId = none) ∧
    r = entry.row userId (conf s f j).w.st.now (conf s f j).w.st.logs.next

theorem row_written (hs : (journalSystem U).init s) (f : Sched (journalSystem U)) (n : Nat) :
    ∀ r ∈ (conf s f n).w.st.logs.rows, ∃ j < n, ∃ pid entry, Written s f j pid entry r := by
  induction n with
  | zero =>
    intro r hr
    have hnone : (conf s f 0).w.st.logs.rows = [] := hs
    rw [hnone] at hr
    cases hr
  | succ n ih =>
    have hold : ∀ r ∈ (conf s f n).w.st.logs.rows, ∃ j < n + 1, ∃ pid entry, Written s f j pid entry r := by
      intro r hr
      obtain ⟨j, hj, pid, entry, hw⟩ := ih r hr
      exact ⟨j, Nat.lt_succ_of_lt hj, pid, entry, hw⟩
    intro r hr
    rcases step_logs s f n with ⟨pid, o, x, he, heffect⟩ | ⟨hrows, -⟩
    · cases heffect with
      | kept hrows => exact hold r (hrows ▸ hr)
      | removed hrows =>
        rw [hrows] at hr
        exact hold r (List.mem_filter.mp hr).1
      | written entry userId ho hok hrows =>
        subst ho
        rw [hrows] at hr
        rcases List.mem_append.mp hr with hr | hr
        · exact hold r hr
        · obtain ⟨t, ht, hlog, hparse, -⟩ := promised hs he
          subst hlog hparse
          cases x with
          | error e => cases hok
          | ok a => exact ⟨n, Nat.lt_succ_self n, pid, entry, ht, he, _, .inl rfl, List.mem_singleton.mp hr⟩
      | orphaned userId ho hrows =>
        rw [hrows] at hr
        obtain ⟨r₀, hr₀, rfl⟩ := List.mem_map.mp hr
        obtain ⟨j, hj, pid', entry, hw⟩ := hold r₀ hr₀
        refine ⟨j, hj, pid', entry, ?_⟩
        split
        · obtain ⟨u, _, hrow⟩ := hw.row
          refine ⟨hw.task, hw.inserted, none, .inr rfl, ?_⟩
          rw [hrow]
          rfl
        · exact hw
    · exact hold r (hrows ▸ hr)

/-- A task inserts once: before a second insert it would find the first in its history. -/
theorem written_once (hs : (journalSystem U).init s) (f : Sched (journalSystem U)) {j j' pid : Nat}
    {entry entry' : Entry}
    {r r' : ActivityLog} (h : Written s f j pid entry r) (h' : Written s f j' pid entry' r') : j = j' := by
  have hone : ∀ {a b : Nat} {x y : Entry} {q q' : ActivityLog}, Written s f a pid x q →
      Written s f b pid y q' → ¬ a < b := by
    intro a b x y q q' ha hb hab
    obtain ⟨t, -, -, -, hnone⟩ := promised hs hb.inserted
    exact hnone _ (conf_event hab ha.inserted) rfl
  exact Nat.le_antisymm (Nat.le_of_not_lt (hone h' h)) (Nat.le_of_not_lt (hone h h'))

/-- Every row of the log is what one call of `log` has told, and no two rows are what the same has. -/
theorem logged_once (hs : (journalSystem U).init s) (f : Sched (journalSystem U)) (n : Nat) :
    (∀ r ∈ (conf s f n).w.st.logs.rows, ∃ j < n, ∃ pid entry, Written s f j pid entry r) ∧
      ∀ r ∈ (conf s f n).w.st.logs.rows, ∀ r' ∈ (conf s f n).w.st.logs.rows, ∀ j j' pid entry entry',
        Written s f j pid entry r → Written s f j' pid entry' r' → r = r' := by
  refine ⟨row_written hs f n, fun r hr r' hr' j j' pid entry entry' hw hw' => ?_⟩
  have hid : r.id = r'.id := by
    obtain ⟨u, _, hrow⟩ := hw.row
    obtain ⟨u', _, hrow'⟩ := hw'.row
    rw [hrow, hrow', written_once hs f hw hw']
    rfl
  exact (conf s f n).w.st.logs.primary.eq hr hr' (congrArg some hid) rfl

def ascii : Unicode := ⟨fun _ => none, fun _ => false⟩

/-- What the statements answer. -/
def logAnswer (s : State) : (o : LogOp) → Except Exc o.Ret
  | .listFiltered category userId includeAllUsers limit offset =>
    .ok (ActivityLogRepository.listFiltered s.tables category userId includeAllUsers limit.toNat offset.toNat)
  | .countFiltered category userId includeAllUsers =>
    .ok (ActivityLogRepository.countFiltered s.tables category userId includeAllUsers)
  | .clearForUser category userId => .ok (s.logs.count ((LogOp.clearForUser category userId).removes s.now))
  | .clearOld days => .ok (s.logs.count ((LogOp.clearOld days).removes s.now))
  | .getUserSession _ | .createEntry _ _ | .clearCategory _ | .publishLog _ | .createUser _
  | .deleteUser _ | .call _ _ => .ok ()

def logRuns (pid : Nat) : Choice (journalSystem ascii) := .run pid logAnswer

def loginFailed : Entry := ⟨"admin", "login_failed", "Failed login attempt", "warning", none, none, none, none, none⟩

def anAdmin : Attached :=
  ⟨"00000000-0000-0000-0000-000000000001", "admin@localhost", "00000000-0000-0000-0000-000000000002", true⟩

/-- An entry is logged, an admin looks at it and clears it. -/
def clearing : Sched (journalSystem ascii) := sched
  [.start (.log loginFailed), logRuns 0, .start (.page (some anAdmin) .admin 100 0), logRuns 1, logRuns 1, logRuns 1,
    .start (.clear (some anAdmin) "admin"), logRuns 2, logRuns 2] (.env (.pass 1))

def noLogs : State := ⟨0, fresh []⟩

theorem logged_once_clearing : (∀ r ∈ (conf noLogs clearing 2).w.st.logs.rows, ∃ j < 2, ∃ pid entry,
      Written noLogs clearing j pid entry r) ∧
    ∀ r ∈ (conf noLogs clearing 2).w.st.logs.rows, ∀ r' ∈ (conf noLogs clearing 2).w.st.logs.rows,
    ∀ j j' pid entry entry',
      Written noLogs clearing j pid entry r → Written noLogs clearing j' pid entry' r' → r = r' :=
  @logged_once ascii noLogs rfl clearing 2

end Connect.Web.Journal
