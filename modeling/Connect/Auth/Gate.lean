/-
  Connect.Auth.Gate — the middleware in front of every route (middleware/auth.py).

  A request is let through to its handler (`call_next`) when its path is public, or when
  `decode_token` accepts the token it carries. The handlers of routes/auth.py decode the
  token once more and change the tables; the other handlers leave users and sessions as
  they are (`page`).

  Proved, over every run of requests behind the middleware, with the clock moving on and
  processes stopping anywhere:
  - `entered_checked`: a handler is entered only on a public path, or with the user of a
    token that its own request decoded in time, and whose session it found in the table,
    not revoked and not expired.
  - `locked_out`: once a logout, a logout of all sessions, a new password, a new role or a
    deletion has been committed, no request that is started later is let through with a
    session it closed.
-/

import Connect.Await.Lift
import Connect.Auth.StaleLogin

namespace Connect.Auth

open Await

def PUBLIC_PATHS : List String :=
  ["/login", "/api/auth/login", "/api/auth/register", "/static", "/favicon.ico", "/health", "/ready", "/metrics"]

/-- `s.startswith(p)`. -/
def startsWith (s p : String) : Bool := p.toList.isPrefixOf s.toList

def isPublicPath (path : String) : Bool :=
  PUBLIC_PATHS.any fun publicPath => path == publicPath || startsWith path (publicPath ++ "/") ||
    startsWith path publicPath

inductive Endpoint where
  | login (email password : String)
  | logout
  | register (email password : String) (displayName : Option String)
  | changePassword (currentPassword newPassword : String)
  | invite (email : String) (isAdmin : Bool)
  | changeUserRole (userId : String) (isAdmin : Bool)
  | deleteUser (userId : String)
  | logoutAll
  | page
  deriving DecidableEq, Repr

/-- `get_token_from_request` of the routes gives what `_get_token` gives. -/
def Endpoint.request (token : Option Token) : Endpoint → Option Request
  | .login email password => some (.login email password)
  | .logout => some (.logout token)
  | .register email password displayName => some (.register email password displayName)
  | .changePassword currentPassword newPassword => some (.changePassword token currentPassword newPassword)
  | .invite email isAdmin => some (.invite token email isAdmin)
  | .changeUserRole userId isAdmin => some (.changeUserRole token userId isAdmin)
  | .deleteUser userId => some (.deleteUser token userId)
  | .logoutAll => some (.logoutAll token)
  | .page => none

structure HttpRequest where
  path : String
  /-- The cookie `access_token`, when it is there and not empty. -/
  cookie : Option Token
  /-- What follows `Bearer ` in the Authorization header. -/
  bearer : Option Token
  endpoint : Endpoint
  deriving DecidableEq, Repr

/-- `request.state`. -/
structure Attached where
  userId : String
  userEmail : String
  sessionId : String
  isAdmin : Bool
  deriving DecidableEq, Repr

def Token.attached (payload : Token) : Attached := ⟨payload.sub, payload.email, payload.jti, payload.isAdmin⟩

inductive Response where
  | unauthorized
  | redirectToLogin
  | replied (reply : Reply)
  | page

/-- `call_next`, with what the middleware attached. -/
abbrev nextSig : Sig := ⟨Option Attached, fun _ => Unit⟩

abbrev gateSig : Sig := nextSig.sum authSig

abbrev GateProg := Prog gateSig Exc

def callNext (user : Option Attached) : GateProg Unit := @Prog.left nextSig authSig Exc user

def getToken (request : HttpRequest) : Option Token := request.cookie.or request.bearer

def unauthorizedResponse (request : HttpRequest) : Response :=
  if startsWith request.path "/api/" then .unauthorized else .redirectToLogin

def handler (cfg : AuthConfig) (request : HttpRequest) : AuthProg Response :=
  match request.endpoint.request (getToken request) with
  | some r => (r.code cfg).bind fun reply => .ret (.replied reply)
  | none => .ret .page

def dispatch (cfg : AuthConfig) (request : HttpRequest) : GateProg Response :=
  if isPublicPath request.path then do
    let _ ← callNext none
    (handler cfg request).lift
  else
    match getToken request with
    | none => return unauthorizedResponse request
    | some token => do
      match ← (decodeToken cfg token).lift with
      | none => return unauthorizedResponse request
      | some payload => do
        let _ ← callNext (some payload.attached)
        (handler cfg request).lift

/-- Requests behind the middleware, on well-formed tables. -/
def gateSystem (cfg : AuthConfig) : System gateSig Exc Response where
  State := AuthDb
  Env := Nat
  Task := HttpRequest
  init := AuthDb.WellFormed
  exec
    | _, s, .inl _, .ok _ => some s
    | _, _, .inl _, .error _ => none
    | _, s, .inr o, r => s.exec cfg.verify o r
  env := fun s microseconds => some { s with now := s.now + microseconds }
  starts := fun _ _ => true
  code := fun _ request => dispatch cfg request

/-! ## What a request keeps -/

section Law

variable (cfg : AuthConfig)

abbrev GateWorld := World (gateSystem cfg)

/-- The process asked for the payload and for its session, and had both. -/
def Checked (pid : Nat) (user : Attached) (hist : List (Event gateSig Exc)) : Prop :=
  ∃ (payload : Token) (id : Uuid) (row : UserSession),
    (⟨pid, Sum.inr (AuthOp.jwtDecode payload), Except.ok (some payload)⟩ : Event gateSig Exc) ∈ hist ∧
    (⟨pid, Sum.inr (AuthOp.getActiveSession id), Except.ok (some row)⟩ : Event gateSig Exc) ∈ hist ∧
    payload.jti = id.str ∧ user = payload.attached

def gateRely (w w' : GateWorld cfg) : Prop := Later w.st w'.st ∧ w.hist <:+ w'.hist

/-- Whom a request may let through: nobody in particular on a public path, and a user once checked. -/
def Admits (pid : Nat) (request : HttpRequest) (hist : List (Event gateSig Exc)) : Option Attached → Prop
  | none => isPublicPath request.path = true
  | some user => Checked pid user hist

/-- The tables stay well formed, and nobody is let through unchecked. -/
def gateGuar (pid : Nat) (request : HttpRequest) (w w' : GateWorld cfg) : Prop :=
  (w'.st.WellFormed ∧ gateRely cfg w w') ∧
    ∀ user r, w'.hist.head? = some ⟨pid, Sum.inl user, r⟩ → Admits pid request w.hist user

abbrev gateLaw (request : HttpRequest) (pid : Nat) : Law (GateWorld cfg) gateSig Exc :=
  (gateSystem cfg).law (fun w => w.st.WellFormed) (fun _ => gateRely cfg) (fun pid => gateGuar cfg pid request)
    (fun _ _ _ _ => True) pid

variable {cfg} {pid : Nat} {request : HttpRequest} {w w' : GateWorld cfg}

theorem Admits.grow {user : Option Attached} {hist hist' : List (Event gateSig Exc)}
    (h : Admits pid request hist user) (hs : hist <:+ hist') : Admits pid request hist' user := by
  cases user with
  | none => exact h
  | some user =>
    obtain ⟨payload, id, row, h1, h2, hj, hu⟩ := h
    exact ⟨payload, id, row, hs.mem h1, hs.mem h2, hj, hu⟩

/-- A payload that was decoded is the token's, and was issued. -/
theorem decoded_payload {verify : String → String → Bool} {s s' : AuthDb} {token payload : Token}
    (h : Did verify s (.jwtDecode token) (.ok (some payload)) s') :
    payload = token ∧ token ∈ s.issued ∧ seconds s.now ≤ token.exp := by
  generalize hr : (Except.ok (some payload) : Except Exc (AuthOp.jwtDecode token).Ret) = r at h
  cases h with
  | raised e => cases hr
  | decoded =>
    have hp : some payload = if s.decodes token then some token else none := Except.ok.inj hr
    split at hp
    · rename_i hd
      cases hp
      unfold AuthDb.decodes at hd
      simp only [Bool.and_eq_true, Bool.not_eq_true', decide_eq_false_iff_not, Int.not_lt] at hd
      exact ⟨rfl, List.contains_iff_mem.mp hd.1, hd.2⟩
    · cases hp

/-- A session that was found is active. -/
theorem found_active {verify : String → String → Bool} {s s' : AuthDb} {id : Uuid} {row : UserSession}
    (h : Did verify s (.getActiveSession id) (.ok (some row)) s') :
    s.sessions id = some row ∧ row.revoked = false ∧ s.now < row.expiresAt := by
  generalize hr : (Except.ok (some row) : Except Exc (AuthOp.getActiveSession id).Ret) = r at h
  cases h with
  | raised e => cases hr
  | active =>
    obtain ⟨hrow, hact⟩ := Option.filter_eq_some_iff.mp (Except.ok.inj hr).symm
    simp only [Bool.and_eq_true, Bool.not_eq_true', decide_eq_true_eq] at hact
    exact ⟨hrow, hact.1, hact.2⟩

/-- The world as the authentication code sees it. -/
def authView (w : GateWorld cfg) : AuthWorld cfg fun _ => true := ⟨w.st, w.hist.filterMap rightEvent⟩

theorem act_view {o : AuthOp} {r : Except Exc o.Ret} (ha : (gateLaw cfg request pid).act w (Sum.inr o) r w') :
    (authLaw cfg (fun _ => true) pid).act (authView w) o r (authView w') := by
  obtain ⟨_, s, hx, rfl⟩ := ha
  exact ⟨trivial, s, hx, rfl⟩

theorem act_gate {o : AuthOp} {r : Except Exc o.Ret} (ha : (gateLaw cfg request pid).act w (Sum.inr o) r w') :
    Did cfg.verify w.st o r w'.st ∧ w'.hist = ⟨pid, Sum.inr o, r⟩ :: w.hist := by
  obtain ⟨_, s, hx, rfl⟩ := ha
  exact ⟨exec_did hx, rfl⟩

/-- An operation of the authentication code lets nobody through. -/
theorem gate_of_auth {o : AuthOp} {r : Except Exc o.Ret} (ha : (gateLaw cfg request pid).act w (Sum.inr o) r w')
    (hw : w'.st.WellFormed) : gateGuar cfg pid request w w' := by
  obtain ⟨hd, hh⟩ := act_gate ha
  refine ⟨⟨hw, hd.later, ?_⟩, fun user r hhead => ?_⟩
  · rw [hh]
    exact List.suffix_cons _ _
  · rw [hh] at hhead
    cases hhead

theorem wp_auth {α : Type} {p : AuthProg α} {Q : Except Exc α → AuthWorld cfg (fun _ => true) → Prop}
    (hp : wp (authLaw cfg (fun _ => true) pid) p Q (authView w)) :
    wp (gateLaw cfg request pid) p.lift (fun x w => Q x (authView w)) w := by
  have hrely : ∀ a b, gateRely cfg a b → Later a.st b.st := fun _ _ h => h.1
  exact wp_lift authView hrely (fun _ h => h) (fun _ _ _ _ => act_view) (fun _ _ _ _ ha hg => gate_of_auth ha hg.1) hp

theorem wp_handler : wp (gateLaw cfg request pid) (handler cfg request).lift (fun _ _ => True) w := by
  refine @wp_auth cfg pid request w Response (handler cfg request) (fun _ _ => True) ?_
  unfold handler
  split
  · exact wp_seq (wp_code _) (fun _ _ _ => trivial) fun _ _ _ => trivial
  · trivial

theorem wp_callNext {user : Option Attached} {Q : Except Exc Unit → GateWorld cfg → Prop}
    (hu : Admits pid request w.hist user) (hQ : ∀ w, Q (.ok ()) w) :
    wp (gateLaw cfg request pid) (callNext user) Q w := by
  refine wp_await fun w₁ hr hi r w₂ ha => ?_
  obtain ⟨_, s, hx, rfl⟩ := ha
  cases r with
  | error e => cases hx
  | ok a =>
    cases hx
    refine ⟨⟨⟨hi, Later.refl _, List.suffix_cons _ _⟩, fun u r hhead => ?_⟩, hQ _⟩
    cases hhead
    exact hu.grow hr.2

/-- What `decode_token` does once the payload is decoded. -/
def checkSession (cfg : AuthConfig) (payload : Token) : AuthProg (Option Token) :=
  if payload.jti = "" then .ret (some payload)
  else (parseUuid cfg.unicode payload.jti).bind fun sessionId => (getActiveSession sessionId).bind fun
    | none => .ret none
    | some _ => .ret (some payload)

theorem decodeToken_eq (cfg : AuthConfig) (token : Token) : decodeToken cfg token = (jwtDecode token).bind fun
    | none => .ret none
    | some payload => checkSession cfg payload := rfl

/-- What `decode_token` leaves when it accepts. -/
def accepted (pid : Nat) (x : Except Exc (Option Token)) (w : GateWorld cfg) : Prop :=
  ∀ payload, x = .ok (some payload) → Checked pid payload.attached w.hist

theorem accepted_error (e : Exc) (w : GateWorld cfg) : accepted pid (.error e) w := fun _ he => by cases he

theorem accepted_none (w : GateWorld cfg) : accepted pid (.ok none) w := fun _ he => by cases he

theorem wp_checkSession {payload : Token} (hi : w.st.WellFormed) (hissued : payload ∈ w.st.issued)
    (hdecoded : (⟨pid, Sum.inr (AuthOp.jwtDecode payload), Except.ok (some payload)⟩ : Event gateSig Exc) ∈ w.hist) :
    wp (gateLaw cfg request pid) (checkSession cfg payload).lift (accepted pid) w := by
  -- an issued token names a session
  obtain ⟨id, _, hj⟩ := hi.issued payload hissued
  unfold checkSession
  rw [if_neg (by rw [hj]; exact str_ne_empty id), hj, parseUuid_str, Prog.ret_bind, Prog.lift_bind]
  refine wp_bind.mpr ?_
  show wp _ (@Prog.await authSig Exc (.getActiveSession id)).lift _ w
  rw [Prog.lift_await]
  refine wp_await fun w₁ hr hi₁ r w₂ ha => ?_
  obtain ⟨hd, hh⟩ := act_gate (o := .getActiveSession id) ha
  refine ⟨gate_of_auth (o := .getActiveSession id) ha ((hd.of_reads rfl : w₂.st = w₁.st) ▸ hi₁), ?_⟩
  cases r with
  | error e => exact accepted_error e w₂
  | ok found =>
    cases found with
    | none => exact accepted_none w₂
    | some row =>
      intro p hp
      cases hp
      refine ⟨payload, id, row, ?_, ?_, hj, rfl⟩
      · rw [hh]
        exact List.mem_cons_of_mem _ (hr.2.mem hdecoded)
      · rw [hh]
        exact List.mem_cons_self

/-- `decode_token` accepts a payload once it found its session. -/
theorem wp_decodeToken (token : Token) :
    wp (gateLaw cfg request pid) (decodeToken cfg token).lift (accepted pid) w := by
  rw [decodeToken_eq, Prog.lift_bind]
  refine wp_bind.mpr ?_
  show wp _ (@Prog.await authSig Exc (.jwtDecode token)).lift _ w
  rw [Prog.lift_await]
  refine wp_await fun w₁ _ hi r w₂ ha => ?_
  obtain ⟨hd, hh⟩ := act_gate (o := .jwtDecode token) ha
  have hst : w₂.st = w₁.st := hd.of_reads rfl
  refine ⟨gate_of_auth (o := .jwtDecode token) ha (hst ▸ hi), ?_⟩
  cases r with
  | error e => exact accepted_error e w₂
  | ok found =>
    cases found with
    | none => exact accepted_none w₂
    | some payload =>
      obtain ⟨hpayload, hissued, _⟩ := decoded_payload hd
      cases hpayload
      refine wp_checkSession (hst ▸ hi) (hst ▸ hissued) ?_
      rw [hh]
      exact List.mem_cons_self

theorem wp_dispatch (request : HttpRequest) {w : GateWorld cfg} :
    wp (gateLaw cfg request pid) (dispatch cfg request) (fun _ _ => True) w := by
  unfold dispatch
  split
  · rename_i hpublic
    exact wp_bind.mpr (wp_callNext hpublic fun w => wp_handler)
  split
  · trivial
  · rename_i token _
    refine wp_bind.mpr (wp_mono (fun x w hx => ?_) (wp_decodeToken token))
    cases x with
    | error e => trivial
    | ok found =>
      cases found with
      | none => trivial
      | some payload =>
        exact wp_bind.mpr (wp_callNext (hx payload rfl) fun w => wp_handler)

variable (cfg) in
def gateSound : Sound (gateSystem cfg) any where
  inv w := w.st.WellFormed
  rely _ := gateRely cfg
  guar := gateGuar cfg
  allow _ _ _ _ := True
  post _ _ _ _ := True
  refl _ w := ⟨.refl w.st, List.suffix_refl _⟩
  trans _ _ _ _ h h' := ⟨h.1.trans h'.1, h.2.trans h'.2⟩
  init _ hs := hs
  keep _ _ _ _ _ hg := hg.1.1
  others _ _ _ _ _ _ _ hg := hg.1.2
  outside w e s hi hx := by
    cases hx
    exact ⟨⟨hi.distinct, hi.users, hi.sessions, hi.issued⟩, fun _ => ⟨later_tick w.st e, List.suffix_refl _⟩⟩
  allowed _ _ _ := trivial
  stable _ _ _ _ _ _ _ := trivial
  code _ request _ _ _ _ := wp_dispatch request

end Law

/-! ## Runs -/

variable {cfg : AuthConfig} {s : AuthDb} {f : Sched (gateSystem cfg)}

theorem gate_wellFormed (hs : s.WellFormed) (f : Sched (gateSystem cfg)) (n : Nat) :
    (conf s f n).w.st.WellFormed := by
  have hreach : Reach any (conf s f n) := conf_reach hs fun _ _ _ _ => trivial
  exact ((gateSound cfg).keeps hreach).1

theorem gate_step_later (c : Config (gateSystem cfg)) (ch : Choice (gateSystem cfg)) :
    Later c.w.st (step c ch).w.st := by
  have hm := step_moved c ch
  revert hm
  generalize step c ch = c'
  intro hm
  cases hm with
  | idle => exact .refl _
  | @ran pid o k r s _ hx =>
    rcases o with o | o
    · cases r with
      | error e => cases hx
      | ok a =>
        cases hx
        exact .refl _
    · exact (exec_did hx).later
  | crashed => exact .refl _
  | started => exact .refl _
  | @moved e _ _ hx =>
    cases hx
    exact later_tick _ e

theorem gate_later (f : Sched (gateSystem cfg)) {n m : Nat} (h : n ≤ m) :
    Later (conf s f n).w.st (conf s f m).w.st := by
  induction h with
  | refl => exact .refl _
  | step _ ih => exact ih.trans (gate_step_later _ _)

/-- An event of the authentication code in a run. -/
theorem gate_did {n pid : Nat} {o : AuthOp} {r : Except Exc o.Ret}
    (he : event (conf s f n) (f n) = some ⟨pid, Sum.inr o, r⟩) :
    Did cfg.verify (conf s f n).w.st o r (conf s f (n + 1)).w.st := by
  obtain ⟨k, s', _, hx, hs'⟩ := event_some he
  have hst : (conf s f (n + 1)).w.st = s' := by
    show (step _ _).w.st = s'
    rw [hs']
    rfl
  rw [hst]
  exact exec_did hx

/-- What stands behind a handler that is entered at step `n`: the path is public, or the
    request decoded a token in time and found its session active. -/
def Entered (s : AuthDb) (f : Sched (gateSystem cfg)) (n pid : Nat) : Option Attached → Prop
  | none => ∃ request, (conf s f n).task pid = some request ∧ isPublicPath request.path = true
  | some user => ∃ (payload : Token) (id : Uuid) (row : UserSession) (j k : Nat), j < n ∧ k < n ∧
      user = payload.attached ∧ payload.jti = id.str ∧
      (event (conf s f j) (f j) = some ⟨pid, Sum.inr (AuthOp.jwtDecode payload), .ok (some payload)⟩ ∧
        payload ∈ (conf s f j).w.st.issued ∧ seconds (conf s f j).w.st.now ≤ payload.exp) ∧
      (event (conf s f k) (f k) = some ⟨pid, Sum.inr (AuthOp.getActiveSession id), .ok (some row)⟩ ∧
        (conf s f k).w.st.sessions id = some row ∧ row.revoked = false ∧ (conf s f k).w.st.now < row.expiresAt)

theorem entered_checked (hs : s.WellFormed) (f : Sched (gateSystem cfg)) {n pid : Nat}
    {user : Option Attached} {r : Except Exc Unit}
    (he : event (conf s f n) (f n) = some ⟨pid, Sum.inl user, r⟩) : Entered s f n pid user := by
  have hreach : Reach any (conf s f n) := conf_reach hs fun _ _ _ _ => trivial
  obtain ⟨k, s', hp, hx, _⟩ := event_some he
  obtain ⟨request, ht, hg⟩ := (gateSound cfg).promise hreach hp hx trivial
  have hadmits := hg.2 user r rfl
  cases user with
  | none => exact ⟨request, ht, hadmits⟩
  | some user =>
    obtain ⟨payload, id, row, hdec, hact, hj, hu⟩ := hadmits
    obtain ⟨j, hjn, hej⟩ := hist_event hdec
    obtain ⟨k, hkn, hek⟩ := hist_event hact
    have hd := decoded_payload (gate_did (o := .jwtDecode payload) hej)
    have ha := found_active (gate_did (o := .getActiveSession id) hek)
    exact ⟨payload, id, row, j, k, hjn, hkn, hu, hj, ⟨hej, hd.2⟩, hek, ha⟩

/-- A request that is started when a session is closed is not let through with it. -/
theorem closed_out (hs : s.WellFormed) (f : Sched (gateSystem cfg)) {n : Nat} {id : Uuid}
    (hc : (conf s f n).w.st.Closed id)
    {m pid : Nat} (hnew : (conf s f n).task pid = none) {user : Attached} {r : Except Exc Unit}
    (he : event (conf s f m) (f m) = some ⟨pid, Sum.inl (some user), r⟩) : user.sessionId ≠ id.str := by
  intro hsid
  obtain ⟨payload, id', row, _, k, _, _, rfl, hj, _, hek, hrow, hrev, hexp⟩ := entered_checked hs f he
  have hid : id' = id := by
    have hstr : id'.str = id.str := hj.symm.trans hsid
    have hparse := Uuid.ofString_str cfg.unicode id'
    rw [hstr, Uuid.ofString_str] at hparse
    exact (Option.some.inj hparse).symm
  subst hid
  have hclosed := (gate_later f (event_started hs hnew hek rfl)).closed id' hc
  rcases hclosed.2 row hrow with hr | he
  · rw [hrev] at hr
    cases hr
  · exact absurd hexp (by omega)

/-- The sessions a statement closes. -/
def AuthOp.closes : AuthOp → Uuid → UserSession → Prop
  | .revokeSession sessionId, id, _ => id = sessionId
  | .revokeAllUserSessions userId, _, row | .updatePassword userId _, _, row | .updateRole userId _ _, _, row
  | .deleteUser userId, _, row => row.userId = userId
  | _, _, _ => False

theorem revoke_closed {s s' : AuthDb} {p : Uuid → UserSession → Bool} (hs' : s'.sessions = revoke s.sessions p)
    {id : Uuid} (hu : id ∈ s'.used) {row : UserSession} (hrow : s.sessions id = some row)
    (hp : p id row = true) : s'.Closed id := by
  refine ⟨hu, fun row' hrow' => Or.inl ?_⟩
  rw [hs', revoke, hrow] at hrow'
  cases hrow'
  simp [hp]

theorem did_closes {verify : String → String → Bool} {s s' : AuthDb} {o : AuthOp} {a : o.Ret} (hw : s.WellFormed)
    (h : Did verify s o (.ok a) s') {id : Uuid} {row : UserSession} (hrow : s.sessions id = some row)
    (hc : o.closes id row) :
    s'.Closed id := by
  have hused := (hw.sessions id row hrow).1
  have huser := (hw.sessions id row hrow).2
  generalize hr : (Except.ok a : Except Exc o.Ret) = r at h
  cases h with
  | raised e => cases hr
  | revokedOne sessionId => exact revoke_closed rfl hused hrow (beq_iff_eq.mpr hc)
  | revokedAll userId => exact revoke_closed rfl hused hrow (beq_iff_eq.mpr hc)
  | passwordSet hash hu => exact revoke_closed rfl hused hrow (beq_iff_eq.mpr hc)
  | passwordUnset hash hu => exact absurd (hc ▸ hu) huser
  | roleSet loaded isAdmin hu => exact revoke_closed rfl hused hrow (beq_iff_eq.mpr hc)
  | @deleted userId hu =>
    refine ⟨hused, fun row' hrow' => ?_⟩
    obtain ⟨hrow', hne⟩ := Option.filter_eq_some_iff.mp hrow'
    cases hrow.symm.trans hrow'
    simp only [bne_iff_ne, ne_eq] at hne
    exact absurd hc hne
  | undeleted hu => exact absurd (hc ▸ hu) huser
  | _ => exact hc.elim

/-- Once a statement closed a session, no request that is started later is let through with it. -/
theorem locked_out (hs : s.WellFormed) (f : Sched (gateSystem cfg)) {n pid : Nat} {o : AuthOp} {a : o.Ret}
    (he : event (conf s f n) (f n) = some ⟨pid, Sum.inr o, .ok a⟩) :
    ∀ id row, (conf s f n).w.st.sessions id = some row → o.closes id row →
      ∀ m pid' user r, (conf s f (n + 1)).task pid' = none →
        event (conf s f m) (f m) = some ⟨pid', Sum.inl (some user), r⟩ → user.sessionId ≠ id.str := by
  intro id row hrow hc m pid' user r hnew hm
  exact closed_out hs f (did_closes (gate_wellFormed hs f n) (gate_did he) hrow hc) hnew hm

/-! ## A logout -/

attribute [local semireducible] parseUuid

def gateAnswer (s : AuthDb) : (o : gateSig.Op) → Except Exc (gateSig.Ret o)
  | .inl _ => .ok ()
  | .inr o => obey (uuid 3) s o

def gateRuns (pid : Nat) : Choice (gateSystem someConfig) := .run pid gateAnswer

def loginToken : Token := ⟨(uuid 1).str, "a@b.c", false, (uuid 3).str, 28800, 0⟩

/-- The user logs in a second time and logs out of the first session. The middleware decodes the
    first token, the route once more, and then revokes its session. The second token still opens
    a page. -/
def loggingOut : Sched (gateSystem someConfig) := sched
  ([.start ⟨"/api/auth/login", none, none, .login "a@b.c" "Passw0rd"⟩] ++ List.replicate 7 (gateRuns 0) ++
    [.start ⟨"/api/auth/logout", some someToken, none, .logout⟩] ++ List.replicate 6 (gateRuns 1) ++
    [.start ⟨"/", some loginToken, none, .page⟩] ++ List.replicate 3 (gateRuns 2))
  (.env (0 : Nat))

theorem entered_checked_loggingOut : Entered oneToken loggingOut 11 1 (some someToken.attached) :=
  @entered_checked someConfig oneToken oneToken_wellFormed loggingOut 11 1 (some someToken.attached) (.ok ()) rfl

theorem locked_out_loggingOut : ∃ user r, event (conf oneToken loggingOut 18) (loggingOut 18) =
    some ⟨2, Sum.inl (some user), r⟩ ∧ user.sessionId ≠ (uuid 2).str :=
  ⟨_, _, rfl, @locked_out someConfig oneToken oneToken_wellFormed loggingOut 14 1 (.revokeSession (uuid 2)) true rfl
    (uuid 2) ⟨uuid 1, 0, 28800000000, false⟩ rfl rfl 18 2 loginToken.attached _ rfl rfl⟩

end Connect.Auth
