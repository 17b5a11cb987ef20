/-
  Connect.Auth.LastAdmin — the last admin, over runs of requests served one after another.

  The role of a request is the token's. Run one at a time, the requests keep the roles of
  the tokens in step with the rows (`Trusted`): a token is signed from the row, and a change
  of the role revokes what was signed before it.

  `change_user_role` and `delete_user` compare the path with the admin's own id as text
  and look the user up by the parsed UUID, so another spelling of the own id passes the
  check: the admin deletes or demotes itself, and may be the last one (`last_admin_lost`).
  `ensure_admin_exists` adds an admin only to an empty table. Outside these the claim
  holds: `admin_stays`.
-/

import Connect.Auth.StaleLogin

namespace Connect.Auth

open Await

def AuthDb.IsAdmin (s : AuthDb) (id : Uuid) : Prop := ∃ user, s.users id = some user ∧ user.isAdmin = true

def AuthDb.HasAdmin (s : AuthDb) : Prop := ∃ id, s.IsAdmin id

/-- The token of an active session names its user, with the role of the row. -/
def AuthDb.Trusted (s : AuthDb) : Prop :=
  ∀ token ∈ s.issued, ∀ i id, token.jti = i.str → s.Active i id →
    token.sub = id.str ∧ ∃ user, s.users id = some user ∧ user.isAdmin = token.isAdmin

/-- What every request keeps. -/
structure AuthDb.Sane (s : AuthDb) : Prop where
  rows : s.WellFormed
  trusted : s.Trusted

section Requests

variable {cfg : AuthConfig} {s s' : AuthDb}

theorem Did.sane {o : AuthOp} {r : Except Exc o.Ret} (h : Did cfg.verify s o r s') (hs : s.Sane)
    (ho : ∀ t, SignsUsed t o) : s'.Sane := by
  have hw' := h.wellFormed hs.rows (ho s)
  refine ⟨hw', fun token ht i id hj ha => ?_⟩
  have ht' : token ∈ s.issued := by
    cases h with
    | signed =>
      obtain ⟨_, hm, _⟩ := ho { s with used := [] }
      cases hm
    | _ => exact ht
  obtain ⟨j, hu, hj'⟩ := hs.rows.issued token ht'
  cases Uuid.str_injective (hj.symm.trans hj')
  obtain ⟨ha', hc⟩ := h.still_active hu ha
  obtain ⟨hsub, user, huser, hadmin⟩ := hs.trusted token ht' i id hj ha'
  obtain ⟨row, hrow, hid, _⟩ := ha
  obtain ⟨user', huser'⟩ := Option.ne_none_iff_exists'.mp (hw'.sessions i row hrow).2
  rw [hid] at huser'
  obtain ⟨old, hold, _, h2⟩ := h.row (hc 0) (active_used hs.rows ha') huser'
  cases huser.symm.trans hold
  exact ⟨hsub, user', huser', h2.trans hadmin⟩

/-- A coroutine that signs nothing keeps the tables sane. -/
theorem runs_sane {α : Type} {p : AuthProg α} {x : Except Exc α} (hp : p.Uses fun o : AuthOp => ∀ t, SignsUsed t o)
    (h : Runs (authRequests cfg) 0 p s x s') (hs : s.Sane) : s'.Sane :=
  Runs.keeps (M := authRequests cfg) (I := AuthDb.Sane) (fun _ _ _ _ ho hi hx => (exec_did hx).sane hi ho) hp h hs

/-- A coroutine that only reads leaves the tables as they are. -/
theorem runs_reads {α : Type} {p : AuthProg α} {x : Except Exc α} (hp : p.Uses fun o : AuthOp => o.reads = true)
    (h : Runs (authRequests cfg) 0 p s x s') : s' = s :=
  Runs.keeps (M := authRequests cfg) (I := fun t : AuthDb => t = s)
    (fun _ _ _ _ ho hi hx => ((exec_did hx).of_reads ho).trans hi) hp h rfl

/-! ## Tokens are signed from the row -/

/-- The result describes a row. -/
def Describes (s : AuthDb) (dict : UserDict) : Prop := ∃ id user, dict = userToDict id user ∧ s.users id = some user

theorem authenticateUser_describes {email password : String} {dict : UserDict}
    (h : Runs (authRequests cfg) 0 (authenticateUser cfg email password) s (.ok (.ok dict)) s') :
    Describes s' dict := by
  rw [authenticateUser_eq] at h
  obtain ⟨found, s₁, _, h⟩ := Runs.bind_ok.mp h
  rcases found with _ | ⟨id, user⟩
  · cases (Runs.ret_iff.mp h).1
  cases hv : cfg.verify password user.passwordHash with
  | false =>
    simp only [hv] at h
    cases (Runs.ret_iff.mp h).1
  | true =>
    simp only [hv, if_true, stamping] at h
    obtain ⟨_, s₂, _, h⟩ := Runs.bind_ok.mp h
    obtain ⟨row, s₃, hr, h⟩ := Runs.bind_ok.mp h
    obtain ⟨he, rfl⟩ := Runs.ret_iff.mp h
    obtain ⟨rfl, hd⟩ := runs_read (o := .refreshUser id) rfl hr
    cases he
    cases hd with
    | refreshed hu => exact ⟨id, row, rfl, hu⟩

theorem registerUser_describes {email password : String} {displayName : Option String} {isAdmin : Bool}
    {dict : UserDict}
    (h : Runs (authRequests cfg) 0 (registerUser cfg email password displayName isAdmin) s (.ok (.ok dict)) s') :
    Describes s' dict := by
  rw [registerUser_eq] at h
  split at h
  · cases (Runs.ret_iff.mp h).1
  obtain ⟨found, s₁, _, h⟩ := Runs.bind_ok.mp h
  cases found with
  | some found => cases (Runs.ret_iff.mp h).1
  | none =>
    obtain ⟨hash, s₂, _, h⟩ := Runs.bind_ok.mp h
    rcases Runs.catching_iff.mp h with ⟨_, he, h⟩ | ⟨e, s₃, _, h⟩
    · cases he
      obtain ⟨⟨id, user⟩, s₃, hc, h⟩ := Runs.bind_ok.mp h
      obtain ⟨he, rfl⟩ := Runs.ret_iff.mp h
      cases he
      have hd := runs_did (o := .createUser email hash displayName isAdmin) hc
      cases hd with
      | created => exact ⟨id, _, rfl, put_same _ _ _⟩
    · split at h
      · cases (Runs.ret_iff.mp h).1
      · cases (Runs.raise_iff.mp h).1

/-- A session is opened for a row, and a token signed for it from the row. -/
theorem signed_sane {t : AuthDb} {id sessionId : Uuid} {user : User} {expiresAt exp : Int}
    {x : Except Exc Token} (hs : s.Sane)
    (hu : s.users id = some user) (hc : Did cfg.verify s (.createSession id expiresAt) (.ok sessionId) t)
    (hd : Did cfg.verify t (.jwtEncode id.str user.email user.isAdmin sessionId.str exp) x s') : s'.Sane := by
  have ht := hc.sane hs fun _ => trivial
  cases hc with
  | opened hf =>
    have hw' := hd.wellFormed ht.rows ⟨sessionId, List.mem_cons_self, rfl⟩
    cases hd with
    | raised e => exact ht
    | signed =>
      refine ⟨hw', fun token hm i j hj ha => ?_⟩
      rcases List.mem_cons.mp hm with rfl | hm
      · cases Uuid.str_injective hj
        obtain ⟨row, hrow, rfl, _⟩ := ha
        cases (put_same s.sessions sessionId _).symm.trans hrow
        exact ⟨rfl, user, hu, rfl⟩
      · exact ht.trusted token hm i j hj ha

/-- `create_access_token` for a row as it is. -/
theorem createAccessToken_sane {id : Uuid} {user : User} {x : Except Exc Token} (hs : s.Sane)
    (hu : s.users id = some user)
    (h : Runs (authRequests cfg) 0 (createAccessToken cfg id.str user.email user.isAdmin) s x s') : s'.Sane := by
  simp only [createAccessToken, Prog.bind_def, parseUuid_str, Prog.ret_bind] at h
  rcases Runs.bind_iff.mp h with ⟨now, s₁, hn, hrest⟩ | ⟨_, _, hn⟩
  · obtain ⟨rfl, _⟩ := runs_read (o := .now) rfl hn
    rcases Runs.bind_iff.mp hrest with ⟨sessionId, s₂, hc, hsign⟩ | ⟨_, _, hc⟩
    · exact signed_sane hs hu (runs_did (o := .createSession id _) hc) (runs_did (o := .jwtEncode _ _ _ _ _) hsign)
    · exact (runs_did (o := .createSession id _) hc).sane hs fun _ => trivial
  · exact (runs_did (o := .now) hn).sane hs fun _ => trivial

/-- Only login and registration sign, and they sign from the row. -/
theorem request_sane {request : Request} {x : Except Exc Reply} (hs : s.Sane)
    (h : Runs (authRequests cfg) 0 (request.code cfg) s x s') : s'.Sane := by
  have hother : (∀ o, request.writes o = true → ∀ t, SignsUsed t o) → s'.Sane := by
    intro hw
    refine runs_sane ((uses_code request).mono fun o ho => ?_) h hs
    rcases Bool.or_eq_true_iff.mp ho with hr | ho
    · exact reads_unsigned o hr
    · exact hw o ho
  cases request with
  | login email password =>
    have h : Runs (authRequests cfg) 0 (login cfg email password) s x s' := h
    rw [login_eq] at h
    rcases Runs.bind_iff.mp h with ⟨result, s₁, h1, hrest⟩ | ⟨_, _, h1⟩
    · have hs₁ := runs_sane (uses_authenticateUser reads_unsigned (fun _ _ => trivial) email password) h1 hs
      cases result with
      | error error =>
        cases (Runs.raise_iff.mp hrest).2
        exact hs₁
      | ok dict =>
        obtain ⟨id, user, rfl, hu⟩ := authenticateUser_describes h1
        rcases Runs.bind_iff.mp hrest with ⟨token, s₂, h2, hret⟩ | ⟨_, _, h2⟩
        · cases (Runs.ret_iff.mp hret).2
          exact createAccessToken_sane hs₁ hu h2
        · exact createAccessToken_sane hs₁ hu h2
    · exact runs_sane (uses_authenticateUser reads_unsigned (fun _ _ => trivial) email password) h1 hs
  | register email password displayName =>
    have h : Runs (authRequests cfg) 0 (register cfg email password displayName) s x s' := h
    unfold register at h
    split at h
    · cases (Runs.raise_iff.mp h).2
      exact hs
    rcases Runs.bind_iff.mp h with ⟨result, s₁, h1, hrest⟩ | ⟨_, _, h1⟩
    · have hs₁ := runs_sane (uses_registerUser reads_unsigned fun _ _ => trivial) h1 hs
      cases result with
      | error error =>
        cases (Runs.raise_iff.mp hrest).2
        exact hs₁
      | ok dict =>
        obtain ⟨id, user, rfl, hu⟩ := registerUser_describes h1
        rcases Runs.bind_iff.mp hrest with ⟨token, s₂, h2, hret⟩ | ⟨_, _, h2⟩
        · cases (Runs.ret_iff.mp hret).2
          exact createAccessToken_sane hs₁ hu h2
        · exact createAccessToken_sane hs₁ hu h2
    · exact runs_sane (uses_registerUser reads_unsigned fun _ _ => trivial) h1 hs
  | logout | changePassword | invite | changeUserRole | deleteUser | logoutAll =>
    refine hother fun o ho t => ?_
    cases o with
    | jwtEncode => cases ho
    | _ => trivial

/-! ## Who sends a request -/

/-- An admin's token, accepted now. -/
structure Acts (cfg : AuthConfig) (s : AuthDb) (token : Token) (id : Uuid) : Prop where
  accepted : Decodes cfg s token (some token)
  admin : token.isAdmin = true
  sub : token.sub = id.str

/-- Only a signed token is accepted, and its payload is what was signed. -/
theorem decodes_issued (hw : s.WellFormed) {token payload : Token} (h : Decodes cfg s token (some payload)) :
    payload = token ∧ token ∈ s.issued ∧ ∃ i id, token.jti = i.str ∧ s.Active i id := by
  have hm : token ∈ s.issued := by
    obtain ⟨s', h⟩ := h
    obtain ⟨_, s₁, h1, h2⟩ := Runs.bind_ok.mp h
    obtain ⟨rfl, rfl⟩ := jwtDecode_runs.mp h1
    cases hd : s₁.decodes token with
    | true => exact List.contains_iff_mem.mp (Bool.and_eq_true_iff.mp hd).1
    | false =>
      rw [hd] at h2
      cases (Runs.ret_iff.mp h2).1
  obtain ⟨i, _, hj⟩ := hw.issued token hm
  have hx := (decodes_iff hj).mp h
  cases hacc : s.accepts token i with
  | false => rw [hacc] at hx; cases hx
  | true =>
    rw [hacc] at hx
    cases hx
    obtain ⟨row, hrow⟩ := Option.isSome_iff_exists.mp (Bool.and_eq_true_iff.mp hacc).2
    obtain ⟨hrow, hlive⟩ := Option.filter_eq_some_iff.mp hrow
    simp only [Bool.and_eq_true, Bool.not_eq_true'] at hlive
    exact ⟨rfl, hm, i, row.userId, hj, row, hrow, rfl, hlive.1⟩

/-- The token of an admin names an admin. -/
theorem acts_row (hs : s.Sane) {token : Token} (hd : Decodes cfg s token (some token)) (ha : token.isAdmin = true) :
    ∃ id, Acts cfg s token id ∧ s.IsAdmin id := by
  obtain ⟨_, hm, i, id, hj, hactive⟩ := decodes_issued hs.rows hd
  obtain ⟨hsub, user, huser, hadmin⟩ := hs.trusted token hm i id hj hactive
  exact ⟨id, ⟨hd, ha, hsub⟩, user, huser, hadmin.trans ha⟩

/-- `require_admin` reads, and returns for the accepted token of an admin. -/
theorem requireAdmin_runs (hw : s.WellFormed) {token : Option Token} {x : Except Exc TokenData}
    (h : Runs (authRequests cfg) 0 (requireAdmin cfg token) s x s') :
    s' = s ∧ ∀ data, x = .ok data → ∃ t, token = some t ∧ Decodes cfg s t (some t) ∧ t.isAdmin = true ∧
    data.userId = t.sub := by
  obtain rfl := runs_reads (uses_requireAdmin (fun _ h => h) token) h
  refine ⟨rfl, fun data hx => ?_⟩
  subst hx
  obtain ⟨user, s₁, h1, h⟩ := Runs.bind_ok.mp h
  obtain ⟨current, s₂, h2, h1⟩ := Runs.bind_ok.mp h1
  cases token with
  | none =>
    cases (Runs.ret_iff.mp h2).1
    cases (Runs.raise_iff.mp h1).1
  | some t =>
    obtain ⟨payload, s₃, h3, h4⟩ := Runs.bind_ok.mp h2
    cases payload with
    | none =>
      cases (Runs.ret_iff.mp h4).1
      cases (Runs.raise_iff.mp h1).1
    | some payload =>
      obtain ⟨rfl, _⟩ := decodes_issued hw ⟨s₃, h3⟩
      cases (Runs.ret_iff.mp h4).1
      cases (Runs.ret_iff.mp h1).1
      cases ha : payload.isAdmin with
      | false =>
        simp only [ha] at h
        cases (Runs.raise_iff.mp h).1
      | true =>
        simp only [ha] at h
        cases (Runs.ret_iff.mp h).1
        exact ⟨payload, rfl, ⟨s₃, h3⟩, ha, rfl⟩

/-! ## What an admin's row goes through -/

/-- The operation leaves the role of the admin `id`. -/
def Spares (id : Uuid) : AuthOp → Prop
  | .updateRole userId _ isAdmin => userId = id → isAdmin = true
  | .deleteUser userId => userId ≠ id
  | _ => True

theorem Did.spares {o : AuthOp} {r : Except Exc o.Ret} (h : Did cfg.verify s o r s') {id : Uuid} (ho : Spares id o)
    (hu : id ∈ s.used) (ha : s.IsAdmin id) : s'.IsAdmin id := by
  obtain ⟨user, huser, hadmin⟩ := ha
  have hupdate : ∀ userId (f : User → User), (userId = id → (f user).isAdmin = true) →
      (s.updateUser userId f).IsAdmin id := by
    intro userId f hf
    by_cases e : id = userId
    · exact ⟨f user, (if_pos e).trans (by rw [huser, Option.map_some]), hf e.symm⟩
    · exact ⟨user, (if_neg e).trans huser, hadmin⟩
  cases h with
  | stamped userId => exact hupdate userId _ fun _ => hadmin
  | @passwordSet userId hash => exact hupdate userId (fun user => { user with passwordHash := hash }) fun _ => hadmin
  | @roleSet userId loaded isAdmin =>
    refine hupdate userId (fun user => if loaded = isAdmin then user else { user with isAdmin := isAdmin })
      fun e => ?_
    by_cases hl : loaded = isAdmin
    · simp only [hl, if_true, hadmin]
    · simp only [hl, if_false]
      exact ho e
  | @created i _ _ _ _ hf =>
    have hne : id ≠ i := by
      intro h
      subst h
      exact hf hu
    exact ⟨user, (put_ne _ _ hne).trans huser, hadmin⟩
  | @deleted userId =>
    have hne : ¬ id = userId := fun e => ho e.symm
    exact ⟨user, (if_neg hne).trans huser, hadmin⟩
  | _ => exact ⟨user, huser, hadmin⟩

theorem runs_spares {α : Type} {p : AuthProg α} {x : Except Exc α} {id : Uuid} (hp : p.Uses (Spares id))
    (h : Runs (authRequests cfg) 0 p s x s') (hw : s.WellFormed) (ha : s.IsAdmin id) : s'.IsAdmin id := by
  have hu : id ∈ s.used := by
    obtain ⟨user, huser, _⟩ := ha
    exact hw.users id (by rw [huser]; nofun)
  refine (Runs.keeps (M := authRequests cfg) (I := fun t : AuthDb => t.IsAdmin id ∧ id ∈ t.used) ?_ hp h ⟨ha, hu⟩).1
  intro t t' o r ho hi hx
  exact ⟨(exec_did hx).spares ho hi.2 hi.1, (exec_did hx).later.used _ hi.2⟩

/-- The operation leaves the row of the admin `id` as it is. -/
def Leaves (id : Uuid) : AuthOp → Prop
  | .updateRole userId _ isAdmin => userId = id → isAdmin = true
  | .deleteUser userId => userId ≠ id
  | .updateLastLogin _ | .updatePassword _ _ | .createUser _ _ _ _ => False
  | _ => True

theorem Did.leaves {o : AuthOp} {r : Except Exc o.Ret} (h : Did cfg.verify s o r s') {id : Uuid}
    {user : User} (ho : Leaves id o)
    (huser : s.users id = some user) (hadmin : user.isAdmin = true) : s'.users id = some user := by
  cases h with
  | stamped | passwordSet | created => exact ho.elim
  | @roleSet userId loaded isAdmin =>
    show (if id = userId then (s.users id).map _ else s.users id) = some user
    by_cases e : id = userId
    · rw [if_pos e, huser, Option.map_some]
      -- a promotion of an admin writes what is there
      have hrole := ho e.symm
      subst hrole
      split
      · rfl
      · rw [← hadmin]
    · exact (if_neg e).trans huser
  | @deleted userId =>
    have hne : ¬ id = userId := fun e => ho e.symm
    exact (if_neg hne).trans huser
  | _ => exact huser

theorem runs_leaves {α : Type} {p : AuthProg α} {x : Except Exc α} {id : Uuid} (hp : p.Uses (Leaves id))
    (h : Runs (authRequests cfg) 0 p s x s') (ha : s.IsAdmin id) : s'.users id = s.users id := by
  obtain ⟨user, huser, hadmin⟩ := ha
  rw [huser]
  exact Runs.keeps (M := authRequests cfg) (I := fun t : AuthDb => t.users id = some user)
    (fun _ _ _ _ ho hi hx => (exec_did hx).leaves ho hi hadmin) hp h huser

theorem leaves_reads {id : Uuid} (o : AuthOp) (h : o.reads = true) : Leaves id o := by
  cases o with
  | updateRole | deleteUser | updateLastLogin | updatePassword | createUser => cases h
  | _ => trivial

/-! ## The routes that change other users -/

/-- A demotion or a deletion of the admin who asks for it, by another spelling of its id. -/
def SelfSpelled (cfg : AuthConfig) (s : AuthDb) (request : Request) : Prop :=
  ∃ token path id, (request = .changeUserRole (some token) path false ∨ request = .deleteUser (some token) path) ∧
    Acts cfg s token id ∧ Uuid.ofString cfg.unicode path = some id ∧ path ≠ id.str

/-- The admin who sends a request that is not so spelled keeps its row. -/
theorem route_leaves {request : Request} {token : Token} {path : String} {id : Uuid} {x : Except Exc Reply}
    (hs : s.Sane)
    (hr : (∃ isAdmin, request = .changeUserRole (some token) path isAdmin) ∨ request = .deleteUser (some token) path)
    (ha : Acts cfg s token id) (hspelled : ¬ SelfSpelled cfg s request)
    (h : Runs (authRequests cfg) 0 (request.code cfg) s x s') :
    s'.users id = s.users id := by
  have hadmin : s.IsAdmin id := by
    obtain ⟨i, hi, hadmin⟩ := acts_row hs ha.accepted ha.admin
    rw [Uuid.str_injective (ha.sub.symm.trans hi.sub)]
    exact hadmin
  rcases hr with ⟨isAdmin, rfl⟩ | rfl
  · rcases Runs.bind_iff.mp h with ⟨data, s₁, h1, hrest⟩ | ⟨_, _, h1⟩
    · obtain ⟨rfl, hdata⟩ := requireAdmin_runs hs.rows h1
      obtain ⟨t, ht, _, _, hsub⟩ := hdata data rfl
      cases ht
      refine runs_leaves ?_ hrest hadmin
      refine .bind (uses_parseUuid _ _) fun _ => .bind (uses_op _ trivial) fun _ => ?_
      split
      · exact uses_accountTab leaves_reads _ _
      rename_i hne
      refine .bind (uses_changeUserRole leaves_reads fun i hi loaded e => ?_) fun result => ?_
      · subst e
        cases isAdmin with
        | true => rfl
        | false =>
          exact absurd ⟨token, path, i, Or.inl rfl, ha, hi, fun e => hne (e.trans (hsub.trans ha.sub).symm)⟩ hspelled
      · cases result with
        | error error => exact uses_accountTab leaves_reads _ _
        | ok _ =>
          exact .bind (uses_op (.listUsers 1000) trivial) fun _ => .bind (uses_parseUuid _ _) fun _ =>
            .bind (uses_op _ trivial) fun _ => trivial
    · rw [(requireAdmin_runs hs.rows h1).1]
  · rcases Runs.bind_iff.mp h with ⟨data, s₁, h1, hrest⟩ | ⟨_, _, h1⟩
    · obtain ⟨rfl, hdata⟩ := requireAdmin_runs hs.rows h1
      obtain ⟨t, ht, _, _, hsub⟩ := hdata data rfl
      cases ht
      refine runs_leaves ?_ hrest hadmin
      refine .bind (uses_parseUuid _ _) fun _ => .bind (uses_op _ trivial) fun _ => ?_
      split
      · exact uses_accountTab leaves_reads _ _
      rename_i hne
      refine uses_parsed fun i hi => .bind (uses_op _ trivial) fun _ => .bind (uses_op _ fun e => ?_)
        fun deleted => ?_
      · subst e
        exact hspelled ⟨token, path, i, Or.inr rfl, ha, hi, fun e => hne (e.trans (hsub.trans ha.sub).symm)⟩
      · split
        · exact uses_accountTab leaves_reads _ _
        · exact uses_accountTab leaves_reads _ _
    · rw [(requireAdmin_runs hs.rows h1).1]

/-- A request that is not so spelled leaves an admin. -/
theorem request_admin {request : Request} {x : Except Exc Reply} (hs : s.Sane) (ha : s.HasAdmin)
    (hspelled : ¬ SelfSpelled cfg s request) (h : Runs (authRequests cfg) 0 (request.code cfg) s x s') :
    s'.HasAdmin := by
  -- the admin who acts stays one, and where nobody acts the tables stay as they are
  have hroute : ∀ token path, ((∃ isAdmin, request = .changeUserRole token path isAdmin) ∨
      request = .deleteUser token path) →
      s'.HasAdmin := by
    intro token path hr
    have hfirst : (∃ data, Runs (authRequests cfg) 0 (requireAdmin cfg token) s (.ok data) s) ∨ s' = s := by
      rcases hr with ⟨isAdmin, rfl⟩ | rfl
      · rcases Runs.bind_iff.mp h with ⟨data, s₁, h1, _⟩ | ⟨_, _, h1⟩
        · exact Or.inl ⟨data, (requireAdmin_runs hs.rows h1).1 ▸ h1⟩
        · exact Or.inr (requireAdmin_runs hs.rows h1).1
      · rcases Runs.bind_iff.mp h with ⟨data, s₁, h1, _⟩ | ⟨_, _, h1⟩
        · exact Or.inl ⟨data, (requireAdmin_runs hs.rows h1).1 ▸ h1⟩
        · exact Or.inr (requireAdmin_runs hs.rows h1).1
    rcases hfirst with ⟨data, h1⟩ | rfl
    · obtain ⟨t, rfl, hd, hadmin, _⟩ := (requireAdmin_runs hs.rows h1).2 data rfl
      obtain ⟨id, hacts, user, huser, hrole⟩ := acts_row hs hd hadmin
      exact ⟨id, user, (route_leaves hs hr hacts hspelled h).trans huser, hrole⟩
    · exact ha
  have hother : (∀ id o, request.writes o = true → Spares id o) → s'.HasAdmin := by
    intro hw
    obtain ⟨id, ha⟩ := ha
    refine ⟨id, runs_spares ((uses_code request).mono fun o ho => ?_) h hs.rows ha⟩
    rcases Bool.or_eq_true_iff.mp ho with hr | ho
    · cases o with
      | updateRole | deleteUser => cases hr
      | _ => trivial
    · exact hw id o ho
  cases request with
  | changeUserRole token path isAdmin => exact hroute token path (Or.inl ⟨isAdmin, rfl⟩)
  | deleteUser token path => exact hroute token path (Or.inr rfl)
  | login | logout | register | changePassword | invite | logoutAll =>
    refine hother fun id o ho => ?_
    cases o with
    | updateRole | deleteUser => cases ho
    | _ => trivial

end Requests

/-! ## Runs of requests -/

/-- A request that was served between two states. -/
structure Served where
  before : AuthDb
  request : Request
  after : AuthDb

/-- Requests served one after another, each alone, with the clock going on in between:
    the state, and what was served so far, newest first. -/
inductive Serves (cfg : AuthConfig) (start : AuthDb) : List Served → AuthDb → Prop
  | begun : Serves cfg start [] start
  | served {done : List Served} {s s' : AuthDb} {request : Request} {x : Except Exc Reply} : Serves cfg start done s →
      Runs (authRequests cfg) 0 (request.code cfg) s x s' → Serves cfg start (⟨s, request, s'⟩ :: done) s'
  | tick {done : List Served} {s : AuthDb} (microseconds : Nat) : Serves cfg start done s →
      Serves cfg start done { s with now := s.now + microseconds }

/-- An admin's PATCH or DELETE of an id it spells as its own leaves its row. -/
def KeepsOwnRow (cfg : AuthConfig) (served : Served) : Prop :=
  ∀ token path id, ((∃ isAdmin, served.request = .changeUserRole (some token) path isAdmin) ∨
      served.request = .deleteUser (some token) path) →
    Acts cfg served.before token id → Uuid.ofString cfg.unicode path = some id →
    served.after.users id = served.before.users id

variable {cfg : AuthConfig}

theorem ensureAdminExists_sane {s s' : AuthDb} {x : Except Exc Unit} (hs : s.Sane)
    (h : Runs (authRequests cfg) 0 (ensureAdminExists cfg) s x s') : s'.Sane := by
  refine runs_sane (.bind (uses_op .countUsers fun _ => trivial) fun count => ?_) h hs
  split
  · exact .bind (uses_op (.hashPassword _) fun _ => trivial)
      fun _ => .bind (uses_op (.createUser _ _ _ _) fun _ => trivial) fun _ => trivial
  · trivial

theorem ensureAdminExists_admin {s s' : AuthDb} (h : Runs (authRequests cfg) 0 (ensureAdminExists cfg) s (.ok ()) s')
    (ha : (∀ i, s.users i = none) ∨ s.HasAdmin) : s'.HasAdmin := by
  obtain ⟨count, s₁, h1, hrest⟩ := Runs.bind_ok.mp h
  obtain ⟨rfl, hd⟩ := runs_read (o := .countUsers) rfl h1
  cases hd
  by_cases hc : s₁.countUsers = 0
  · rw [if_pos hc] at hrest
    obtain ⟨hash, s₂, _, h2⟩ := Runs.bind_ok.mp hrest
    obtain ⟨⟨id, user⟩, s₃, h3, h4⟩ := Runs.bind_ok.mp h2
    obtain ⟨_, rfl⟩ := Runs.ret_iff.mp h4
    cases runs_did (o := .createUser cfg.adminEmail hash (some "Admin") true) h3 with
    | created => exact ⟨id, _, put_same _ _ _, rfl⟩
  · rw [if_neg hc] at hrest
    obtain ⟨_, rfl⟩ := Runs.ret_iff.mp hrest
    refine ha.resolve_left fun hnone => hc (List.countP_eq_zero.mpr fun i _ => ?_)
    rw [hnone i]
    nofun

theorem serves_admin {start s : AuthDb} {done : List Served} (hs : start.Sane) (ha : start.HasAdmin)
    (h : Serves cfg start done s) (hok : ∀ served ∈ done, ¬ SelfSpelled cfg served.before served.request) :
    s.Sane ∧ s.HasAdmin ∧ ∀ served ∈ done, KeepsOwnRow cfg served := by
  induction h with
  | begun => exact ⟨hs, ha, fun _ hm => absurd hm List.not_mem_nil⟩
  | @served done s s' request x _ hrun ih =>
    obtain ⟨hsane, hadmin, hkept⟩ := ih fun served hm => hok served (List.mem_cons_of_mem _ hm)
    have hspelled := hok _ List.mem_cons_self
    refine ⟨request_sane hsane hrun, request_admin hsane hadmin hspelled hrun, fun served hm => ?_⟩
    rcases List.mem_cons.mp hm with rfl | hm
    · exact fun token path id hr hacts _ => route_leaves hsane hr hacts hspelled hrun
    · exact hkept served hm
  | tick microseconds _ ih =>
    obtain ⟨hsane, hadmin, hkept⟩ := ih hok
    exact ⟨⟨⟨hsane.rows.distinct, hsane.rows.users, hsane.rows.sessions, hsane.rows.issued⟩, hsane.trusted⟩,
      hadmin, hkept⟩

/-- There is an admin in every state of a run, and no admin's row is changed by its own
    request, when `ensure_admin_exists` found no users or an admin, and no admin asks to
    demote or delete itself by another spelling of its id. -/
theorem admin_stays {s₀ start s : AuthDb} {done : List Served} (hs : s₀.Sane)
    (ha : (∀ i, s₀.users i = none) ∨ s₀.HasAdmin)
    (hensure : Runs (authRequests cfg) 0 (ensureAdminExists cfg) s₀ (.ok ()) start) (h : Serves cfg start done s)
    (hok : ∀ served ∈ done, ¬ SelfSpelled cfg served.before served.request) :
    s.HasAdmin ∧ ∀ served ∈ done, KeepsOwnRow cfg served :=
  (serves_admin (ensureAdminExists_sane hs hensure) (ensureAdminExists_admin hensure ha) h hok).2

/-! ## One admin -/

def adminToken : Token := ⟨(uuid 10).str, "a@b.c", true, (uuid 11).str, 28800, 0⟩

/-- One admin with one session and its token. -/
def oneAdmin : AuthDb where
  now := 0
  users := put (fun _ => none) (uuid 10) { someUser with isAdmin := true }
  sessions := put (fun _ => none) (uuid 11) ⟨uuid 10, 0, 28800000000, false⟩
  used := [uuid 11, uuid 10]
  issued := [adminToken]

theorem oneAdmin_sessions {i : Uuid} {row : UserSession} (h : oneAdmin.sessions i = some row) :
    i = uuid 11 ∧ row = ⟨uuid 10, 0, 28800000000, false⟩ := by
  by_cases e : i = uuid 11
  · subst e
    have hsome : oneAdmin.sessions (uuid 11) = some ⟨uuid 10, 0, 28800000000, false⟩ := by decide
    cases hsome.symm.trans h
    exact ⟨rfl, rfl⟩
  · have hnone : oneAdmin.sessions i = none := if_neg e
    cases hnone.symm.trans h

theorem oneAdmin_sane : oneAdmin.Sane := by
  refine ⟨⟨by decide, fun i hne => ?_, fun i row hrow => ?_, fun token ht => ?_⟩, fun token ht i id hj ha => ?_⟩
  · by_cases e : i = uuid 10
    · rw [e]; decide
    · have hnone : oneAdmin.users i = none := if_neg e
      exact absurd hnone hne
  · obtain ⟨rfl, rfl⟩ := oneAdmin_sessions hrow
    exact ⟨by decide, by decide⟩
  · cases List.mem_singleton.mp ht
    exact ⟨uuid 11, by decide, rfl⟩
  · cases List.mem_singleton.mp ht
    obtain ⟨row, hrow, rfl, _⟩ := ha
    obtain ⟨rfl, rfl⟩ := oneAdmin_sessions hrow
    exact ⟨rfl, { someUser with isAdmin := true }, by decide, rfl⟩

attribute [local semireducible] parseUuid

/-- The next operation answers as it must. -/
theorem runs_obey {α : Type} (fresh : Uuid) {s s₁ s' : AuthDb} {o : AuthOp}
    {k : Except Exc o.Ret → AuthProg α} {x : Except Exc α}
    (hx : s.exec someConfig.verify o (obey fresh s o) = some s₁)
    (h : Runs (authRequests someConfig) 0 (k (obey fresh s o)) s₁ x s') :
    Runs (authRequests someConfig) 0 (@Prog.op authSig Exc α o k) s x s' := Runs.op_iff.mpr ⟨_, _, hx, h⟩

/-- `ensure_admin_exists` leaves a table that is not empty as it is. -/
theorem ensureAdminExists_idle {s : AuthDb} (h : s.countUsers ≠ 0) :
    Runs (authRequests someConfig) 0 (ensureAdminExists someConfig) s (.ok ()) s := by
  refine Runs.bind_ok.mpr ⟨s.countUsers, s, Runs.await_iff.mpr (if_pos rfl), ?_⟩
  rw [if_neg h]
  exact Runs.ret_iff.mpr ⟨rfl, rfl⟩

/-- The id as its token has it. -/
def selfNamed : Request := .deleteUser (some adminToken) (uuid 10).str

theorem selfNamed_runs : Runs (authRequests someConfig) 0 (selfNamed.code someConfig) oneAdmin
    (.ok (.accountTab (some ⟨(uuid 10).str, "a@b.c", none, true⟩) [⟨(uuid 10).str, "a@b.c", none, true⟩]
      (.error "Cannot delete your own account"))) oneAdmin := by
  refine runs_obey (uuid 3) (by rfl) ?_
  refine runs_obey (uuid 3) (by rfl) ?_
  refine runs_obey (uuid 3) (by rfl) ?_
  refine runs_obey (uuid 3) (by rfl) ?_
  exact Runs.ret_iff.mpr ⟨rfl, rfl⟩

theorem admin_stays_selfNamed :
    oneAdmin.HasAdmin ∧ ∀ served ∈ [⟨oneAdmin, selfNamed, oneAdmin⟩], KeepsOwnRow someConfig served := by
  refine admin_stays oneAdmin_sane (Or.inr ⟨uuid 10, { someUser with isAdmin := true }, by decide, rfl⟩)
    (ensureAdminExists_idle (by decide)) (.served .begun selfNamed_runs) fun served hm => ?_
  cases List.mem_singleton.mp hm
  intro h
  obtain ⟨token, path, id, hr, hacts, _, hne⟩ := h
  rcases hr with hr | hr
  · cases hr
  · cases hr
    exact hne hacts.sub

/-! ## An admin that deletes itself -/

/-- The id of the admin, in capitals. -/
def selfSpelled : Request := .deleteUser (some adminToken) "00000000-0000-0000-0000-00000000000A"

theorem selfSpelled_runs : Runs (authRequests someConfig) 0 (selfSpelled.code someConfig) oneAdmin
    (.ok (.accountTab (some ⟨(uuid 10).str, "a@b.c", none, true⟩) [] (.ok "User deleted successfully")))
    (oneAdmin.removeUser (uuid 10)) := by
  refine runs_obey (uuid 3) (by rfl) ?_
  refine runs_obey (uuid 3) (by rfl) ?_
  refine runs_obey (uuid 3) (by rfl) ?_
  refine runs_obey (uuid 3) (by rfl) ?_
  refine runs_obey (uuid 3) (by rfl) ?_
  refine runs_obey (uuid 3) (by rfl) ?_
  exact Runs.ret_iff.mpr ⟨rfl, rfl⟩

theorem oneAdmin_acts : Acts someConfig oneAdmin adminToken (uuid 10) :=
  ⟨(@decodes_iff someConfig _ adminToken (uuid 11) rfl _).mpr (by decide), rfl, rfl⟩

/-- The only admin deletes itself; and a table with users but no admin stays without one. -/
theorem last_admin_lost :
    (oneAdmin.Sane ∧ oneAdmin.HasAdmin ∧
      Runs (authRequests someConfig) 0 (ensureAdminExists someConfig) oneAdmin (.ok ()) oneAdmin ∧
      Serves someConfig oneAdmin [⟨oneAdmin, selfSpelled, oneAdmin.removeUser (uuid 10)⟩]
        (oneAdmin.removeUser (uuid 10)) ∧
      ¬ (oneAdmin.removeUser (uuid 10)).HasAdmin ∧
      ¬ KeepsOwnRow someConfig ⟨oneAdmin, selfSpelled, oneAdmin.removeUser (uuid 10)⟩) ∧
    (Runs (authRequests someConfig) 0 (ensureAdminExists someConfig) oneToken (.ok ()) oneToken ∧
      ¬ oneToken.HasAdmin) := by
  refine ⟨⟨oneAdmin_sane, ⟨uuid 10, { someUser with isAdmin := true }, by decide, rfl⟩,
    ensureAdminExists_idle (by decide), .served .begun selfSpelled_runs, ?_, ?_⟩,
    ensureAdminExists_idle (by decide), ?_⟩
  · intro h
    obtain ⟨i, user, huser, _⟩ := h
    have huser : (if i = uuid 10 then none else oneAdmin.users i) = some user := huser
    split at huser
    · cases huser
    · rename_i hne
      have hnone : oneAdmin.users i = none := if_neg hne
      rw [hnone] at huser
      cases huser
  · intro h
    have hrow := h adminToken _ (uuid 10) (Or.inr rfl) oneAdmin_acts (by decide +kernel)
    exact absurd hrow (by decide)
  · intro h
    obtain ⟨i, user, huser, hadmin⟩ := h
    by_cases e : i = uuid 1
    · have hsome : oneToken.users i = some someUser := by rw [e]; decide
      cases hsome.symm.trans huser
      cases hadmin
    · have hnone : oneToken.users i = none := if_neg e
      cases hnone.symm.trans huser

end Connect.Auth
