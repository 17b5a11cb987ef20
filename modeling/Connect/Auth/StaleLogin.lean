/-
  Connect.Auth.StaleLogin — logins that overlap a change of the password or the role.

  A login commits twice: it reads and verifies the row and stamps it, then it inserts the
  session. A change revokes the sessions there are at its own commit. So a change that
  commits between the two does not reach the session (`stale_login`): the token is accepted
  though its password was replaced before it was issued.

  In a run where no change of a user commits while a login of that user is between reading
  the row and inserting the session (`Quiet`), every token accepted after a change comes
  from a login that read and verified the row after it, with the current role and a
  password that fits the current hash (`no_stale_login`).
-/

import Connect.Auth.Revoked

namespace Connect.Auth

open Await

def Request.registers : Request → Bool
  | .register _ _ _ => true
  | _ => false

/-- All requests but registration, which issues a token without a login. -/
abbrev loginSystem (cfg : AuthConfig) : System authSig Exc Reply := authSystem cfg fun request => !request.registers

/-- A token names the user of its session. -/
def AuthDb.Owned (s : AuthDb) : Prop :=
  ∀ token ∈ s.issued, ∀ i row, token.jti = i.str → s.sessions i = some row → token.sub = row.userId.str

/-- A committed change of the user's password or role. -/
inductive Change (id : Uuid) : Event authSig Exc → Prop
  | password (pid : Nat) (hash : String) : Change id ⟨pid, AuthOp.updatePassword id hash, .ok true⟩
  | role (pid : Nat) (loaded isAdmin : Bool) : Change id ⟨pid, AuthOp.updateRole id loaded isAdmin, .ok ()⟩

/-! ## Where a login is -/

section Stages

variable (cfg : AuthConfig)

/-- `login` once `authenticate_user` has returned. -/
def loginReply : Except String UserDict → AuthProg Reply
  | .error error => .raise (httpException 401 error)
  | .ok user => (createAccessToken cfg user.id user.email user.isAdmin).bind fun token =>
      .ret (.loggedIn token user.email user.displayName)

/-- `authenticate_user` once the password is verified. -/
def stamping (id : Uuid) : AuthProg (Except String UserDict) :=
  (updateLastLogin id).bind fun _ => (refreshUser id).bind fun user => .ret (.ok (userToDict id user))

def refreshing (id : Uuid) : AuthProg (Except String UserDict) :=
  (refreshUser id).bind fun user => .ret (.ok (userToDict id user))

def signing (id : Uuid) (user : User) (exp : Int) (sessionId : Uuid) : AuthProg Reply :=
  (jwtEncode id.str user.email user.isAdmin sessionId.str exp).bind fun token =>
    .ret (.loggedIn token user.email user.displayName)

def inserting (id : Uuid) (user : User) (exp : Int) : AuthProg Reply :=
  (createSession id exp).bind fun sessionId => signing id user exp sessionId

/-- Between reading the row and inserting the session. -/
inductive Unopened (id : Uuid) : AuthProg Reply → Prop
  | verified : Unopened id ((stamping id).bind (loginReply cfg))
  | stamped : Unopened id ((refreshing id).bind (loginReply cfg))
  | refreshed (user : User) : Unopened id (loginReply cfg (.ok (userToDict id user)))
  | timed (user : User) (exp : Int) : Unopened id (inserting id user exp)

theorem login_eq (email password : String) :
    login cfg email password = (authenticateUser cfg email password).bind (loginReply cfg) := by
  unfold login
  congr 1

theorem authenticateUser_eq (email password : String) :
    authenticateUser cfg email password = (getByEmail email).bind fun
      | none => .ret (.error "Invalid email or password")
      | some (id, user) =>
        if cfg.verify password user.passwordHash then stamping id
        else .ret (.error "Invalid email or password") := rfl

/-- What `create_access_token` does once it has the time. -/
theorem loginReply_ok (id : Uuid) (user : User) :
    loginReply cfg (.ok (userToDict id user)) = utcNow.bind fun now =>
      inserting id user (now + cfg.accessTokenExpireMinutes * 60000000) := by
  simp only [loginReply, createAccessToken, userToDict, Prog.bind_def, Prog.bind_assoc, parseUuid_str, Prog.ret_bind]
  rfl

end Stages

/-! ## What a login has read -/

section Invariant

variable {cfg : AuthConfig}

/-- The process read the row of the user, and verified the password with it. -/
def ReadIn (cfg : AuthConfig) (pid : Nat) (email password : String) (id : Uuid)
    (hist : List (Event authSig Exc)) : Prop :=
  ∃ user, ⟨pid, AuthOp.getByEmail email, .ok (some (id, user))⟩ ∈ hist ∧ cfg.verify password user.passwordHash = true

/-- The row is as the process read it, after every change of it. -/
structure Since (w : World (loginSystem cfg)) (pid : Nat) (email password : String) (id : Uuid)
    (role : Bool) : Prop where
  used : id ∈ w.st.used
  row : ∀ row, w.st.users id = some row → cfg.verify password row.passwordHash = true ∧ row.isAdmin = role
  read : ∀ pre e post, w.hist = pre ++ e :: post → Change id e → ReadIn cfg pid email password id pre

/-- What is left of a row after a step that is no change of it. -/
theorem Did.row {verify : String → String → Bool} {s s' : AuthDb} {o : AuthOp} {r : Except Exc o.Ret}
    (h : Did verify s o r s')
    {pid : Nat} {id : Uuid} (hc : ¬ Change id ⟨pid, o, r⟩) (hu : id ∈ s.used) {row : User}
    (hrow : s'.users id = some row) :
    ∃ old, s.users id = some old ∧ row.passwordHash = old.passwordHash ∧ row.isAdmin = old.isAdmin := by
  cases h with
  | stamped userId =>
    have hrow : (if id = userId then (s.users id).map _ else s.users id) = some row := hrow
    split at hrow
    · obtain ⟨old, hold, rfl⟩ := Option.map_eq_some_iff.mp hrow
      exact ⟨old, hold, rfl, rfl⟩
    · exact ⟨row, hrow, rfl, rfl⟩
  | @created i _ _ _ _ hf =>
    have hne : id ≠ i := by
      intro h
      subst h
      exact hf hu
    exact ⟨row, (put_ne _ _ hne).symm.trans hrow, rfl, rfl⟩
  | @passwordSet userId hash =>
    have hne : id ≠ userId := by
      intro h
      subst h
      exact hc (.password pid hash)
    exact ⟨row, (if_neg hne).symm.trans hrow, rfl, rfl⟩
  | @roleSet userId loaded isAdmin =>
    have hne : id ≠ userId := by
      intro h
      subst h
      exact hc (.role pid loaded isAdmin)
    exact ⟨row, (if_neg hne).symm.trans hrow, rfl, rfl⟩
  | @deleted userId =>
    have hrow : (if id = userId then none else s.users id) = some row := hrow
    split at hrow
    · cases hrow
    · exact ⟨row, hrow, rfl, rfl⟩
  | _ => exact ⟨row, hrow, rfl, rfl⟩

theorem Since.step {w : World (loginSystem cfg)} {pid : Nat} {email password : String} {id : Uuid} {role : Bool}
    (h : Since w pid email password id role) {q : Nat} {o : AuthOp} {r : Except Exc o.Ret} {s : AuthDb}
    (hd : Did cfg.verify w.st o r s) (hc : ¬ Change id ⟨q, o, r⟩) :
    Since (w.after q o r s) pid email password id role := by
  refine ⟨hd.later.used _ h.used, fun row hrow => ?_, fun pre e post hh he => ?_⟩
  · obtain ⟨old, hold, h1, h2⟩ := hd.row hc h.used hrow
    rw [h1, h2]
    exact h.row old hold
  · cases pre with
    | nil =>
      cases hh
      exact absurd he hc
    | cons e' pre =>
      obtain ⟨user, hm, hv⟩ := h.read pre e post (List.cons.inj hh).2 he
      exact ⟨user, List.mem_cons_of_mem _ hm, hv⟩

/-- A session of the user that is not revoked. -/
def AuthDb.Active (s : AuthDb) (sessionId id : Uuid) : Prop :=
  ∃ row, s.sessions sessionId = some row ∧ row.userId = id ∧ row.revoked = false

theorem Fewer.active {s s' : AuthDb} (h : Fewer s.sessions s'.sessions) {sessionId id : Uuid}
    (ha : s'.Active sessionId id) :
    s.Active sessionId id := by
  obtain ⟨row', hrow', hid, hr⟩ := ha
  obtain ⟨row, hrow, hu, _, hrev⟩ := h _ _ hrow'
  refine ⟨row, hrow, hu.symm.trans hid, ?_⟩
  cases hv : row.revoked with
  | false => rfl
  | true => rw [hrev hv] at hr; cases hr

theorem revokeAll_active {s : AuthDb} {userId sessionId : Uuid} : ¬ (s.revokeAll userId).Active sessionId userId := by
  intro h
  obtain ⟨row', hrow', hid, hr⟩ := h
  obtain ⟨row, _, rfl⟩ := Option.map_eq_some_iff.mp hrow'
  by_cases e : row.userId = userId
  · simp [e] at hr
  · simp [e] at hid

/-- A session that is active after a step was so before, unless it is new, and the step is no change of its user. -/
theorem Did.still_active {verify : String → String → Bool} {s s' : AuthDb} {o : AuthOp} {r : Except Exc o.Ret}
    (h : Did verify s o r s') {sessionId id : Uuid} (hu : sessionId ∈ s.used) (ha : s'.Active sessionId id) :
    s.Active sessionId id ∧ ∀ pid, ¬ Change id ⟨pid, o, r⟩ := by
  refine ⟨?_, fun pid hc => ?_⟩
  · cases h with
    | revokedOne => exact (fewer_revoke _ _).active ha
    | revokedAll | passwordSet | roleSet => exact (fewer_revoke _ _).active ha
    | deleted => exact (fewer_filter _ _).active ha
    | @opened _ i _ hf =>
      obtain ⟨row, hrow, h1⟩ := ha
      have hne : sessionId ≠ i := by
        intro h
        subst h
        exact hf hu
      exact ⟨row, (put_ne _ _ hne).symm.trans hrow, h1⟩
    | _ => exact ha
  · cases hc with
    | password => cases h; exact revokeAll_active ha
    | role => cases h; exact revokeAll_active ha

/-! ## Stages -/

/-- Where a login is, and what holds there. -/
inductive Stage (w : World (loginSystem cfg)) (pid : Nat) (email password : String) : AuthProg Reply → Prop
  | begun : Stage w pid email password (login cfg email password)
  | verified (id : Uuid) (role : Bool) : Since w pid email password id role →
      Stage w pid email password ((stamping id).bind (loginReply cfg))
  | stamped (id : Uuid) (role : Bool) : Since w pid email password id role →
      Stage w pid email password ((refreshing id).bind (loginReply cfg))
  | refreshed (id : Uuid) (user : User) : Since w pid email password id user.isAdmin →
      Stage w pid email password (loginReply cfg (.ok (userToDict id user)))
  | timed (id : Uuid) (user : User) (exp : Int) : Since w pid email password id user.isAdmin →
      Stage w pid email password (inserting id user exp)
  | opened (id : Uuid) (user : User) (exp : Int) (sessionId : Uuid) : sessionId ∈ w.st.used →
      (∀ i, w.st.Active sessionId i → i = id ∧ Since w pid email password id user.isAdmin) →
      Stage w pid email password (signing id user exp sessionId)
  | returned (reply : Reply) : Stage w pid email password (.ret reply)
  | raised (e : Exc) : Stage w pid email password (.raise e)

/-- A step of another process leaves a login where it is. -/
theorem Stage.step {w : World (loginSystem cfg)} {pid : Nat} {email password : String} {p : AuthProg Reply}
    (h : Stage w pid email password p) {q : Nat} {o : AuthOp} {r : Except Exc o.Ret} {s : AuthDb}
    (hd : Did cfg.verify w.st o r s) (hq : ∀ id, Change id ⟨q, o, r⟩ → ¬ Unopened cfg id p) :
    Stage (w.after q o r s) pid email password p := by
  cases h with
  | begun => exact .begun
  | verified id role hs => exact .verified id role (hs.step hd fun hc => hq id hc .verified)
  | stamped id role hs => exact .stamped id role (hs.step hd fun hc => hq id hc .stamped)
  | refreshed id user hs => exact .refreshed id user (hs.step hd fun hc => hq id hc (.refreshed user))
  | timed id user exp hs => exact .timed id user exp (hs.step hd fun hc => hq id hc (.timed user exp))
  | opened id user exp sessionId hu hs =>
    refine .opened id user exp sessionId (hd.later.used _ hu) fun i ha => ?_
    obtain ⟨ha, hc⟩ := hd.still_active hu ha
    obtain ⟨rfl, hs⟩ := hs i ha
    exact ⟨rfl, hs.step hd (hc q)⟩
  | returned reply => exact .returned reply
  | raised e => exact .raised e

/-- The clock leaves a login where it is. -/
theorem Stage.moved {w w' : World (loginSystem cfg)} {pid : Nat} {email password : String} {p : AuthProg Reply}
    (h : Stage w pid email password p) (hh : w'.hist = w.hist) (hu : w'.st.users = w.st.users)
    (hs : w'.st.sessions = w.st.sessions) (hused : w'.st.used = w.st.used) : Stage w' pid email password p := by
  have hsince : ∀ {id role}, Since w pid email password id role → Since w' pid email password id role := by
    intro id role h
    refine ⟨hused ▸ h.used, fun row hrow => h.row row (hu ▸ hrow), ?_⟩
    rw [hh]
    exact h.read
  cases h with
  | begun => exact .begun
  | verified id role hs => exact .verified id role (hsince hs)
  | stamped id role hs => exact .stamped id role (hsince hs)
  | refreshed id user hs => exact .refreshed id user (hsince hs)
  | timed id user exp hs => exact .timed id user exp (hsince hs)
  | opened id user exp sessionId hm h =>
    refine .opened id user exp sessionId (hused ▸ hm) fun i ha => ?_
    obtain ⟨row, hrow, hrest⟩ := ha
    obtain ⟨he, h⟩ := h i ⟨row, hs ▸ hrow, hrest⟩
    exact ⟨he, hsince h⟩
  | returned reply => exact .returned reply
  | raised e => exact .raised e

/-- Its own step takes a login to the next stage. -/
theorem Stage.next {w : World (loginSystem cfg)} (hw : w.st.WellFormed) {pid : Nat}
    {email password : String} {o : AuthOp}
    {k : Except Exc o.Ret → AuthProg Reply}
    (h : Stage w pid email password (@Prog.op authSig Exc Reply o k)) {r : Except Exc o.Ret} {s : AuthDb}
    (hd : Did cfg.verify w.st o r s) : Stage (w.after pid o r s) pid email password (k r) := by
  generalize hp : @Prog.op authSig Exc Reply o k = p at h
  cases h with
  | begun =>
    cases hp
    cases hd with
    | raised e => exact .raised e
    | unknown => exact .raised _
    | @found _ id user hu he =>
      show Stage _ pid email password
          ((if cfg.verify password user.passwordHash then stamping id else _).bind (loginReply cfg))
      cases hv : cfg.verify password user.passwordHash with
      | false => exact .raised _
      | true =>
        refine .verified id user.isAdmin
          ⟨hw.users id (by rw [hu]; simp), fun row hrow => ?_, fun pre e post hh hc => ?_⟩
        · cases hu.symm.trans hrow
          exact ⟨hv, rfl⟩
        · cases pre with
          | nil => cases hh; cases hc
          | cons e' pre =>
            cases (List.cons.inj hh).1
            exact ⟨user, List.mem_cons_self, hv⟩
  | verified id role hs =>
    cases hp
    cases hd with
    | raised e => exact .raised e
    | stamped => exact .stamped id role (hs.step (.stamped id) nofun)
  | stamped id role hs =>
    cases hp
    cases hd with
    | raised e => exact .raised e
    | @refreshed _ user hu =>
      have hrole := (hs.row user hu).2
      exact .refreshed id user (hrole ▸ hs.step (.refreshed hu) nofun)
  | refreshed id user hs =>
    rw [loginReply_ok] at hp
    cases hp
    cases hd with
    | raised e => exact .raised e
    | clock => exact .timed id user _ (hs.step .clock nofun)
  | timed id user exp hs =>
    cases hp
    cases hd with
    | raised e => exact .raised e
    | @opened _ sessionId _ hf hu =>
      refine .opened id user exp sessionId List.mem_cons_self fun i ha => ?_
      obtain ⟨row, hrow, hid, _⟩ := ha
      have hrow : put w.st.sessions sessionId _ sessionId = some row := hrow
      rw [put_same] at hrow
      cases hrow
      exact ⟨hid.symm, hs.step (.opened hf hu) nofun⟩
  | opened id user exp sessionId hu hs =>
    cases hp
    cases hd with
    | raised e => exact .raised e
    | signed => exact .returned _
  | returned reply => cases hp
  | raised e => cases hp

/-! ## Tokens -/

/-- The token was issued, in this part of the history, by a login that read and verified the
    row in it; the row has the role of the token and the hash of the password. -/
def IssuedIn (c : Config (loginSystem cfg)) (id : Uuid) (token : Token) (hist : List (Event authSig Exc)) : Prop :=
  ∃ pid email password, c.task pid = some (.login email password) ∧ ReadIn cfg pid email password id hist ∧
    (∃ jti exp, ⟨pid, AuthOp.jwtEncode token.sub token.email token.isAdmin jti exp, .ok token⟩ ∈ hist) ∧
    ∀ row, c.w.st.users id = some row → cfg.verify password row.passwordHash = true ∧ row.isAdmin = token.isAdmin

/-- What holds of the token of an active session. -/
structure Backed (c : Config (loginSystem cfg)) (id : Uuid) (token : Token) : Prop where
  sub : token.sub = id.str
  issued : ∀ pre e post, c.w.hist = pre ++ e :: post → Change id e → IssuedIn c id token pre

structure LoginInv (c : Config (loginSystem cfg)) : Prop where
  kinds : ∀ pid request, c.task pid = some request → request.registers = false
  stage : ∀ pid email password p, c.task pid = some (.login email password) → c.procs pid = some p →
    Stage c.w pid email password p
  tokens : ∀ token ∈ c.w.st.issued, ∀ i id, token.jti = i.str → c.w.st.Active i id → Backed c id token

/-- No change of a user commits while a login of that user is between reading the row and
    inserting its session. -/
def Quiet (c : Config (loginSystem cfg)) (e : Event authSig Exc) : Prop :=
  ∀ id, Change id e → ∀ pid p, c.procs pid = some p → ¬ Unopened cfg id p

theorem Backed.step {c : Config (loginSystem cfg)} {id : Uuid} {token : Token} (h : Backed c id token)
    {q : Nat} {o : AuthOp}
    {r : Except Exc o.Ret} {s : AuthDb} (hd : Did cfg.verify c.w.st o r s) (hc : ¬ Change id ⟨q, o, r⟩)
    (hu : id ∈ c.w.st.used)
    {procs : Nat → Option (AuthProg Reply)} : Backed { c with w := c.w.after q o r s, procs := procs } id token := by
  refine ⟨h.sub, fun pre e post hh he => ?_⟩
  cases pre with
  | nil =>
    cases hh
    exact absurd he hc
  | cons e' pre =>
    obtain ⟨pid, email, password, ht, ⟨user, hm, hv⟩, ⟨jti, exp, hs⟩, hrow⟩ :=
      h.issued pre e post (List.cons.inj hh).2 he
    refine ⟨pid, email, password, ht, ⟨user, List.mem_cons_of_mem _ hm, hv⟩,
      ⟨jti, exp, List.mem_cons_of_mem _ hs⟩, fun row h' => ?_⟩
    obtain ⟨old, hold, h1, h2⟩ := hd.row hc hu h'
    rw [h1, h2]
    exact hrow old hold

/-- A step that signs a token is a login's. -/
theorem signs_login {c : Config (loginSystem cfg)} (h : Reach any c)
    (hk : ∀ pid request, c.task pid = some request → request.registers = false)
    {pid : Nat} {sub email jti : String} {isAdmin : Bool} {exp : Int} {k : Except Exc Token → AuthProg Reply}
    (hp : c.procs pid = some (@Prog.op authSig Exc Reply (.jwtEncode sub email isAdmin jti exp) k)) :
    ∃ email password, c.task pid = some (.login email password) := by
  obtain ⟨request, ht, hu⟩ :=
    procs_form (fun _ (request : Request) p => p.Uses fun o : AuthOp => (o.reads || request.writes o) = true)
    (fun _ request => uses_code request) (fun _ _ _ _ r hu => hu.2 r) h pid _ hp
  have hw := hu.1
  cases request with
  | login email password => exact ⟨email, password, ht⟩
  | register => cases hk pid _ ht
  | logout | changePassword | invite | changeUserRole | deleteUser | logoutAll => cases hw

theorem active_used {s : AuthDb} (hw : s.WellFormed) {sessionId id : Uuid} (h : s.Active sessionId id) :
    id ∈ s.used := by
  obtain ⟨row, hrow, rfl, _⟩ := h
  exact hw.users _ (hw.sessions _ row hrow).2

/-- The token a login signs is backed by what it has read. -/
theorem signed_backed {c : Config (loginSystem cfg)} {pid : Nat} {login password : String}
    (ht : c.task pid = some (.login login password)) {sub email jti : String} {isAdmin : Bool} {exp : Int}
    {k : Except Exc Token → AuthProg Reply}
    (hs : Stage c.w pid login password
      (@Prog.op authSig Exc Reply (.jwtEncode sub email isAdmin jti exp) k)) {i id : Uuid}
    (hj : jti = i.str) (ha : c.w.st.Active i id) {secs iat : Int} {s : AuthDb} (hu : s.users = c.w.st.users)
    {procs : Nat → Option (AuthProg Reply)} :
    Backed { c with
        w := c.w.after pid (.jwtEncode sub email isAdmin jti exp) (.ok ⟨sub, email, isAdmin, jti, secs, iat⟩) s,
                    procs := procs } id ⟨sub, email, isAdmin, jti, secs, iat⟩ := by
  generalize hp : @Prog.op authSig Exc Reply (.jwtEncode sub email isAdmin jti exp) k = p at hs
  cases hs with
  | opened u user exp' sessionId _ hs =>
    cases hp
    cases Uuid.str_injective hj
    obtain ⟨rfl, hs⟩ := hs id ha
    refine ⟨rfl, fun pre e post hh he => ?_⟩
    cases pre with
    | nil => cases hh; cases he
    | cons e' pre =>
      obtain ⟨rfl, htail⟩ := List.cons.inj hh
      obtain ⟨user', hm, hv⟩ := hs.read pre e post htail he
      refine ⟨pid, login, password, ht, ⟨user', List.mem_cons_of_mem _ hm, hv⟩,
        ⟨_, exp, List.mem_cons_self⟩, fun row hrow => ?_⟩
      exact hs.row row (hu ▸ hrow)
  | begun => cases hp
  | verified => cases hp
  | stamped => cases hp
  | refreshed => rw [loginReply_ok] at hp; cases hp
  | timed => cases hp
  | returned => cases hp
  | raised => cases hp

theorem loginInv_ran {c : Config (loginSystem cfg)} (h : Reach any c) (hi : LoginInv c) {pid : Nat} {o : AuthOp}
    {k : Except Exc o.Ret → AuthProg Reply} {r : Except Exc o.Ret} {s : AuthDb}
    (hp : c.procs pid = some (@Prog.op authSig Exc Reply o k)) (hd : Did cfg.verify c.w.st o r s)
    (hq : Quiet c ⟨pid, o, r⟩) :
    LoginInv { c with w := c.w.after pid o r s, procs := upd c.procs pid (some (k r)) } := by
  have hw : c.w.st.WellFormed := wellFormed h
  refine ⟨hi.kinds, fun q email password p ht hpq => ?_, fun token hm i id hj ha => ?_⟩
  · by_cases e : q = pid
    · subst e
      have hpq : upd c.procs q (some (k r)) q = some p := hpq
      rw [upd_same] at hpq
      cases hpq
      exact (hi.stage q email password _ ht hp).next hw hd
    · have hpq : upd c.procs pid (some (k r)) q = some p := hpq
      rw [upd_ne _ _ e] at hpq
      exact (hi.stage q email password p ht hpq).step hd fun u hc => hq u hc q p hpq
  · have hold : token ∈ c.w.st.issued →
        Backed { c with w := c.w.after pid o r s, procs := upd c.procs pid (some (k r)) } id token := by
      intro hm
      obtain ⟨j, hused, hj'⟩ := hw.issued token hm
      cases Uuid.str_injective (hj.symm.trans hj')
      obtain ⟨ha, hc⟩ := hd.still_active hused ha
      exact (hi.tokens token hm i id hj ha).step hd (hc pid) (active_used hw ha)
    have hd' := hd
    cases hd with
    | signed sub email isAdmin jti exp =>
      rcases List.mem_cons.mp hm with rfl | hm
      · obtain ⟨login, password, ht⟩ := signs_login h hi.kinds hp
        exact signed_backed ht (hi.stage pid login password _ ht hp) hj ha (by rfl)
      · exact hold hm
    | _ => exact hold hm

theorem loginInv_step {c : Config (loginSystem cfg)} (h : Reach any c) (hi : LoginInv c)
    {ch : Choice (loginSystem cfg)} (hq : ∀ e, event c ch = some e → Quiet c e) : LoginInv (step c ch) := by
  have hm := step_moved c ch
  revert hm
  generalize step c ch = c'
  intro hm
  cases hm with
  | idle => exact hi
  | ran hp hx he => exact loginInv_ran h hi hp (exec_did hx) (hq _ he)
  | crashed q =>
    refine ⟨hi.kinds, fun pid email password p ht hp => ?_, fun token hm i id hj ha => ?_⟩
    · by_cases e : pid = q
      · subst e
        cases (upd_same c.procs pid none).symm.trans hp
      · exact hi.stage pid email password p ht ((upd_ne c.procs _ e).symm.trans hp)
    · exact ⟨(hi.tokens token hm i id hj ha).sub, (hi.tokens token hm i id hj ha).issued⟩
  | started request _ hs =>
    have hnext : ∀ pid request', c.task pid = some request' → pid ≠ c.next := by
      intro _ _ ht h
      subst h
      rw [(fresh h).task _ (Nat.le_refl _)] at ht
      cases ht
    refine ⟨fun pid request' ht => ?_, fun pid email password p ht hp => ?_, fun token hm i id hj ha => ?_⟩
    · by_cases e : pid = c.next
      · subst e
        cases (upd_same c.task c.next (some request)).symm.trans ht
        simpa [loginSystem, authSystem] using hs
      · exact hi.kinds pid request' ((upd_ne c.task _ e).symm.trans ht)
    · by_cases e : pid = c.next
      · subst e
        cases (upd_same c.task c.next (some request)).symm.trans ht
        cases (upd_same c.procs c.next _).symm.trans hp
        exact .begun
      · exact hi.stage pid email password p ((upd_ne c.task _ e).symm.trans ht) ((upd_ne c.procs _ e).symm.trans hp)
    · refine ⟨(hi.tokens token hm i id hj ha).sub, fun pre e post hh he => ?_⟩
      obtain ⟨pid, email, password, ht, hrest⟩ := (hi.tokens token hm i id hj ha).issued pre e post hh he
      exact ⟨pid, email, password, (upd_ne c.task _ (hnext pid _ ht)).trans ht, hrest⟩
  | moved _ hx =>
    cases hx
    refine ⟨hi.kinds, fun pid email password p ht hp => ?_, fun token hm i id hj ha => ?_⟩
    · exact (hi.stage pid email password p ht hp).moved rfl rfl rfl rfl
    · exact ⟨(hi.tokens token hm i id hj ha).sub, (hi.tokens token hm i id hj ha).issued⟩

theorem loginInv {s : AuthDb} (hs : s.WellFormed) (ho : s.Owned) {f : Sched (loginSystem cfg)} {n : Nat}
    (hq : ∀ m < n, ∀ e, event (conf s f m) (f m) = some e → Quiet (conf s f m) e) : LoginInv (conf s f n) := by
  induction n with
  | zero =>
    refine ⟨fun _ _ ht => (by cases ht), fun _ _ _ _ ht => (by cases ht),
      fun token hm i id hj ha => ⟨?_, fun pre e post hh => ?_⟩⟩
    · obtain ⟨row, hrow, rfl, _⟩ := ha
      exact ho token hm i row hj hrow
    · have hh : [] = pre ++ e :: post := hh
      simp at hh
  | succ n ih =>
    have hr : Reach any (conf s f n) := conf_reach hs fun _ _ _ _ => trivial
    exact loginInv_step hr (ih fun m hm => hq m (by omega)) (hq n (by omega))

end Invariant

/-! ## Runs -/

variable {cfg : AuthConfig}

/-- A token that is accepted after a change of its user was issued after it, by a login
    that read and verified the row after it; it has the current role, and was obtained with
    a password that fits the current hash. -/
def NoStale (c : Config (loginSystem cfg)) : Prop :=
  ∀ token ∈ c.w.st.issued, Decodes cfg c.w.st token (some token) → ∀ id, token.sub = id.str → ∀ pre e post,
    c.w.hist = pre ++ e :: post → Change id e →
    IssuedIn c id token pre ∧ ∃ row, c.w.st.users id = some row ∧ row.isAdmin = token.isAdmin

theorem no_stale_login {s : AuthDb} (hs : s.WellFormed) (ho : s.Owned) (f : Sched (loginSystem cfg)) (n : Nat)
    (hq : ∀ m < n, ∀ e, event (conf s f m) (f m) = some e → Quiet (conf s f m) e) : NoStale (conf s f n) := by
  intro token hm hd id hsub pre e post hh he
  have hw : (conf s f n).w.st.WellFormed := wellFormed (conf_reach hs fun _ _ _ _ => trivial)
  obtain ⟨i, hu, hj⟩ := hw.issued token hm
  have hacc := (decodes_iff hj).mp hd
  split at hacc
  · rename_i ha
    obtain ⟨row, hrow⟩ := Option.isSome_iff_exists.mp (Bool.and_eq_true_iff.mp ha).2
    obtain ⟨hrow, hlive⟩ := Option.filter_eq_some_iff.mp hrow
    simp only [Bool.and_eq_true, Bool.not_eq_true'] at hlive
    have hb := (loginInv hs ho hq).tokens token hm i row.userId hj ⟨row, hrow, rfl, hlive.1⟩
    cases Uuid.str_injective (hb.sub.symm.trans hsub)
    have hissued := hb.issued pre e post hh he
    refine ⟨hissued, ?_⟩
    obtain ⟨user, huser⟩ := Option.ne_none_iff_exists'.mp (hw.sessions i row hrow).2
    obtain ⟨_, _, _, _, _, _, hcur⟩ := hissued
    exact ⟨user, huser, (hcur user huser).2⟩
  · cases hacc

/-! ## A stale login -/

theorem oneToken_owned : oneToken.Owned := by
  intro token ht i row hj hrow
  cases List.mem_singleton.mp ht
  cases Uuid.str_injective hj
  have hsome : oneToken.sessions (uuid 2) = some ⟨uuid 1, 0, 28800000000, false⟩ := by decide
  cases hsome.symm.trans hrow
  rfl

/-- A step of the process that does not raise. -/
def runs (pid : Nat) : Choice (loginSystem someConfig) := .run pid (obey (uuid 3))

attribute [local semireducible] parseUuid

/-- The password is changed, and then used. -/
def changedFirst : Sched (loginSystem someConfig) := sched
  [.start (.changePassword (some someToken) "Passw0rd" "NewPassw0rd"), runs 0, runs 0, runs 0, runs 0, runs 0,
    .start (.login "a@b.c" "NewPassw0rd"), runs 1, runs 1, runs 1, runs 1, runs 1, runs 1]
  (.env (0 : Nat))

/-- An operation that is no change needs no quiet. -/
theorem quiet_other {c : Config (loginSystem someConfig)} {pid : Nat} {ans : AuthDb → (o : AuthOp) → Except Exc o.Ret}
    (h : ∀ e, event c (.run pid ans) = some e → ∀ id, ¬ Change id e) :
    ∀ e, event c (.run pid ans) = some e → Quiet c e := fun e he id hc => absurd hc (h e he id)

theorem no_stale_login_changedFirst : NoStale (conf oneToken changedFirst 13) := by
  refine no_stale_login oneToken_wellFormed oneToken_owned changedFirst 13 fun m hm => ?_
  match m with
  | 0 => exact fun e he => by cases he
  | 1 => exact quiet_other fun e he id hc => by cases he; cases hc
  | 2 => exact quiet_other fun e he id hc => by cases he; cases hc
  | 3 => exact quiet_other fun e he id hc => by cases he; cases hc
  | 4 => exact quiet_other fun e he id hc => by cases he; cases hc
  | 5 =>
    -- no login has started
    intro e he id hc pid p hp hu
    match pid with
    | 0 =>
      cases hu with
      | verified => cases hp
      | stamped => cases hp
      | refreshed user => rw [loginReply_ok] at hp; cases hp
      | timed user exp => cases hp
    | _ + 1 => cases hp
  | 6 => exact fun e he => by cases he
  | 7 => exact quiet_other fun e he id hc => by cases he; cases hc
  | 8 => exact quiet_other fun e he id hc => by cases he; cases hc
  | 9 => exact quiet_other fun e he id hc => by cases he; cases hc
  | 10 => exact quiet_other fun e he id hc => by cases he; cases hc
  | 11 => exact quiet_other fun e he id hc => by cases he; cases hc
  | 12 => exact quiet_other fun e he id hc => by cases he; cases hc

/-- The password is changed after `authenticate_user` has committed, before the session is inserted. -/
def overlapped : Sched (loginSystem someConfig) := sched
  [.start (.login "a@b.c" "Passw0rd"), runs 0, runs 0,
    .start (.changePassword (some someToken) "Passw0rd" "NewPassw0rd"), runs 1, runs 1, runs 1, runs 1, runs 1,
    runs 0, runs 0, runs 0, runs 0]
  (.env (0 : Nat))

/-- The token the login is given. -/
def staleToken : Token := ⟨(uuid 1).str, "a@b.c", false, (uuid 3).str, 28800, 0⟩

/-- The login's token is accepted after the change, though the row was read before it. -/
theorem stale_login : oneToken.WellFormed ∧ oneToken.Owned ∧ ¬ NoStale (conf oneToken overlapped 13) := by
  refine ⟨oneToken_wellFormed, oneToken_owned, fun h => ?_⟩
  have haccepts : Decodes someConfig (conf oneToken overlapped 13).w.st staleToken (some staleToken) :=
    (@decodes_iff someConfig _ staleToken (uuid 3) rfl _).mpr (by decide)
  obtain ⟨⟨pid, email, password, _, ⟨user, hread, _⟩, _⟩, _⟩ :=
    h staleToken List.mem_cons_self haccepts (uuid 1) rfl ((conf oneToken overlapped 13).w.hist.take 4)
      ⟨1, AuthOp.updatePassword (uuid 1) "NewPassw0rd", .ok true⟩ ((conf oneToken overlapped 13).w.hist.drop 5) rfl
      (.password 1 "NewPassw0rd")
  -- the four operations after the change read no row by its email
  rcases List.mem_cons.mp hread with he | hread
  · cases he
  rcases List.mem_cons.mp hread with he | hread
  · cases he
  rcases List.mem_cons.mp hread with he | hread
  · cases he
  rcases List.mem_cons.mp hread with he | hread
  · cases he
  · cases hread

end Connect.Auth
