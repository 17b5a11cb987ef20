/-
  Connect.Auth.Routes — the authentication service and its routes (services/auth.py,
  routes/auth.py), and the system of their requests.

  The value of a token string is its payload: a request carries the token it sends, or
  none. The settings the environment gives are a parameter, with passlib's `verify` and
  the tables of Unicode. The activity log and the rendering of the pages are left out; a
  page is the data its template is given.
-/

import Connect.Auth.Store

namespace Connect.Auth

open Await

abbrev AuthProg := Prog authSig Exc

structure AuthConfig where
  verify : String → String → Bool
  unicode : Unicode
  /-- `str.lower`. -/
  lower : String → String
  accessTokenExpireMinutes : Int
  allowedEmailDomain : Option String
  disableRegistration : Bool
  adminEmail : String
  adminPassword : String

structure UserDict where
  id : String
  email : String
  passwordHash : String
  displayName : Option String
  isAdmin : Bool
  createdAt : Int
  lastLogin : Option Int
  deriving DecidableEq, Repr

def userToDict (id : Uuid) (user : User) : UserDict :=
  ⟨id.str, user.email, user.passwordHash, user.displayName, user.isAdmin, user.createdAt, user.lastLogin⟩

structure TokenData where
  userId : String
  email : String
  sessionId : String
  isAdmin : Bool
  deriving DecidableEq, Repr

/-- `str(HTTPException(status, detail))`. -/
def httpException (status : Nat) (detail : String) : Exc := .exception (toString status ++ ": " ++ detail)

/-- `UUID(s)`. -/
@[irreducible] def parseUuid (U : Unicode) (s : String) : AuthProg Uuid :=
  match Uuid.ofString U s with
  | some id => .ret id
  | none => .raise (.exception "badly formed hexadecimal UUID string")

theorem parseUuid_some {U : Unicode} {s : String} {id : Uuid} (h : Uuid.ofString U s = some id) :
    parseUuid U s = .ret id := by
  rw [parseUuid, h]

@[simp] theorem parseUuid_str (U : Unicode) (id : Uuid) : parseUuid U id.str = .ret id :=
  parseUuid_some (Uuid.ofString_str U id)

/-- `UUID(s)` is an id with this spelling, or raises. -/
theorem parseUuid_cases (U : Unicode) (s : String) :
    (∃ id, Uuid.ofString U s = some id ∧ parseUuid U s = .ret id) ∨ ∃ e, parseUuid U s = .raise e := by
  cases h : Uuid.ofString U s with
  | some id => exact Or.inl ⟨id, rfl, parseUuid_some h⟩
  | none => exact Or.inr ⟨_, by rw [parseUuid, h]⟩

/-! ## Statements -/

def jwtDecode (token : Token) : AuthProg (Option Token) := @Prog.await authSig Exc (.jwtDecode token)
def getActiveSession (sessionId : Uuid) : AuthProg (Option UserSession) :=
  @Prog.await authSig Exc (.getActiveSession sessionId)
def getByEmail (email : String) : AuthProg (Option (Uuid × User)) := @Prog.await authSig Exc (.getByEmail email)
def getUser (userId : Uuid) : AuthProg (Option User) := @Prog.await authSig Exc (.getUser userId)
def updateLastLogin (userId : Uuid) : AuthProg Unit := @Prog.await authSig Exc (.updateLastLogin userId)
def refreshUser (userId : Uuid) : AuthProg User := @Prog.await authSig Exc (.refreshUser userId)
def utcNow : AuthProg Int := @Prog.await authSig Exc .now
def createSession (userId : Uuid) (expiresAt : Int) : AuthProg Uuid :=
  @Prog.await authSig Exc (.createSession userId expiresAt)
def jwtEncode (sub email : String) (isAdmin : Bool) (jti : String) (exp : Int) : AuthProg Token :=
  @Prog.await authSig Exc (.jwtEncode sub email isAdmin jti exp)
def hashPassword (password : String) : AuthProg String := @Prog.await authSig Exc (.hashPassword password)
def tokenUrlsafe : AuthProg String := @Prog.await authSig Exc .tokenUrlsafe
def createUser (email passwordHash : String) (displayName : Option String) (isAdmin : Bool) :
    AuthProg (Uuid × User) :=
  @Prog.await authSig Exc (.createUser email passwordHash displayName isAdmin)
def revokeSession (sessionId : Uuid) : AuthProg Bool := @Prog.await authSig Exc (.revokeSession sessionId)
def revokeAllUserSessions (userId : Uuid) : AuthProg Nat := @Prog.await authSig Exc (.revokeAllUserSessions userId)
def updatePassword (userId : Uuid) (passwordHash : String) : AuthProg Bool :=
  @Prog.await authSig Exc (.updatePassword userId passwordHash)
def updateRole (userId : Uuid) (loaded isAdmin : Bool) : AuthProg Unit :=
  @Prog.await authSig Exc (.updateRole userId loaded isAdmin)
def deleteUser (userId : Uuid) : AuthProg Bool := @Prog.await authSig Exc (.deleteUser userId)
def countUsers : AuthProg Nat := @Prog.await authSig Exc .countUsers
def listUsers (limit : Nat) : AuthProg (List (Uuid × User)) := @Prog.await authSig Exc (.listUsers limit)

/-! ## Validation -/

/-- `\d`. -/
def Unicode.isDecimal (U : Unicode) (c : Char) : Bool := if c.toNat < 128 then c.isDigit else (U.decimal c).isSome

def validatePasswordStrength (U : Unicode) (password : String) : Except String Unit :=
  if password.length < 8 then .error "Password must be at least 8 characters"
  else if !password.toList.any Char.isUpper then .error "Password must contain at least one uppercase letter"
  else if !password.toList.any Char.isLower then .error "Password must contain at least one lowercase letter"
  else if !password.toList.any (Unicode.isDecimal U) then .error "Password must contain at least one digit"
  else .ok ()

/-- `[a-zA-Z0-9-]`. -/
def isLabel (c : Char) : Bool := c.isAlphanum || c == '-'

/-- Letters and digits are ASCII. -/
theorem isAlphanum_lt {c : Char} (h : c.isAlphanum = true) : c.toNat < 128 := by
  rcases Bool.or_eq_true_iff.mp h with h | hdigit
  · rcases Bool.or_eq_true_iff.mp h with hupper | hlower
    · have hle : c.val ≥ 'A'.val ∧ c.val ≤ 'Z'.val := of_decide_eq_true hupper
      exact Nat.lt_of_le_of_lt hle.2 (by decide)
    · have hle : c.val ≤ 'z'.val := of_decide_eq_true (Bool.and_eq_true_iff.mp hlower).2
      exact Nat.lt_of_le_of_lt hle (by decide)
  · have hle : c.val ≤ '9'.val := of_decide_eq_true (Bool.and_eq_true_iff.mp hdigit).2
    exact Nat.lt_of_le_of_lt hle (by decide)

/-- `^[a-zA-Z0-9_.+-]+@[a-zA-Z0-9-]+\.[a-zA-Z0-9-.]+$`; `$` also stands before a last newline. -/
def validEmail (email : String) : Bool :=
  let cs := email.toList
  let cs := if cs.getLast? = some '\n' then cs.dropLast else cs
  let name := cs.takeWhile (· != '@')
  let domain := (cs.drop name.length).drop 1
  let label := domain.takeWhile (· != '.')
  let rest := (domain.drop label.length).drop 1
  !name.isEmpty && name.all (fun c => isLabel c || c == '_' || c == '.' || c == '+') &&
    !label.isEmpty && label.all isLabel && !rest.isEmpty && rest.all fun c => isLabel c || c == '.'

/-- `email.lower().endswith(f"@{domain.lower()}")`. -/
def hasDomain (cfg : AuthConfig) (email domain : String) : Bool :=
  ("@" ++ cfg.lower domain).toList.isSuffixOf (cfg.lower email).toList

/-! ## Service -/

def authenticateUser (cfg : AuthConfig) (email password : String) : AuthProg (Except String UserDict) := do
  match ← getByEmail email with
  | none => return .error "Invalid email or password"
  | some (id, user) =>
    if cfg.verify password user.passwordHash then
      let _ ← updateLastLogin id
      let user ← refreshUser id
      return .ok (userToDict id user)
    else return .error "Invalid email or password"

/-- The `try` block of `register_user`. -/
def tryCreate (email passwordHash : String) (displayName : Option String) (isAdmin : Bool) :
    AuthProg (Except String UserDict) :=
  (do
    let (id, user) ← createUser email passwordHash displayName isAdmin
    return .ok (userToDict id user) : AuthProg (Except String UserDict)).catching fun e =>
      if e.isException then .ret (.error ("Failed to create user: " ++ e.text)) else .raise e

def registerUser (cfg : AuthConfig) (email password : String) (displayName : Option String) (isAdmin : Bool) :
    AuthProg (Except String UserDict) := do
  if !validEmail email then return .error "Invalid email format"
  match (truthy cfg.allowedEmailDomain).filter fun domain => !hasDomain cfg email domain with
  | some domain => return .error ("Only @" ++ domain ++ " email addresses are allowed")
  | none =>
    match validatePasswordStrength cfg.unicode password with
    | .error error => return .error error
    | .ok () =>
      match ← getByEmail email with
      | some _ => return .error "Email already registered"
      | none =>
        let passwordHash ← hashPassword password
        tryCreate email passwordHash displayName isAdmin

section Refusal

variable (cfg : AuthConfig) (email password : String)

/-- What is answered before the tables are read. -/
def refusal : Option String :=
  if !validEmail email then some "Invalid email format"
  else
    match (truthy cfg.allowedEmailDomain).filter fun domain => !hasDomain cfg email domain with
    | some domain => some ("Only @" ++ domain ++ " email addresses are allowed")
    | none =>
      match validatePasswordStrength cfg.unicode password with
      | .error error => some error
      | .ok () => none

/-- What follows the checks. -/
def enroll (email password : String) (displayName : Option String) (isAdmin : Bool) :
    AuthProg (Except String UserDict) := do
  match ← getByEmail email with
  | some _ => return .error "Email already registered"
  | none =>
    let passwordHash ← hashPassword password
    tryCreate email passwordHash displayName isAdmin

theorem registerUser_eq (displayName : Option String) (isAdmin : Bool) :
    registerUser cfg email password displayName isAdmin =
      match refusal cfg email password with
    | some error => .ret (.error error)
    | none => enroll email password displayName isAdmin := by
  unfold registerUser refusal
  cases validEmail email with
  | false => rfl
  | true =>
    cases (truthy cfg.allowedEmailDomain).filter fun domain => !hasDomain cfg email domain with
    | some domain => rfl
    | none =>
      cases validatePasswordStrength cfg.unicode password with
      | error error => rfl
      | ok _ => rfl

variable {cfg email password}

/-- The address is allowed, and the password strong. -/
theorem refusal_none : refusal cfg email password = none ↔ validEmail email = true ∧
    (∀ domain, truthy cfg.allowedEmailDomain = some domain → hasDomain cfg email domain = true) ∧
    validatePasswordStrength cfg.unicode password = .ok () := by
  unfold refusal
  cases validEmail email with
  | false => simp
  | true =>
    cases ht : truthy cfg.allowedEmailDomain with
    | none => cases validatePasswordStrength cfg.unicode password <;> simp
    | some domain =>
      cases hd : hasDomain cfg email domain with
      | false => simp [Option.filter, hd]
      | true => cases validatePasswordStrength cfg.unicode password <;> simp [Option.filter, hd]

end Refusal

def createAccessToken (cfg : AuthConfig) (userId email : String) (isAdmin : Bool) : AuthProg Token := do
  let now ← utcNow
  let expiresAt : Int := now + cfg.accessTokenExpireMinutes * 60000000
  let id ← parseUuid cfg.unicode userId
  let sessionId ← createSession id expiresAt
  jwtEncode userId email isAdmin sessionId.str expiresAt

def decodeToken (cfg : AuthConfig) (token : Token) : AuthProg (Option Token) := do
  match ← jwtDecode token with
  | none => return none
  | some payload =>
    if payload.jti = "" then return some payload
    let sessionId ← parseUuid cfg.unicode payload.jti
    match ← getActiveSession sessionId with
    | none => return none
    | some _ => return some payload

def logoutUser (cfg : AuthConfig) (sessionId : String) : AuthProg Bool := do
  let id ← parseUuid cfg.unicode sessionId
  revokeSession id

def logoutAllSessions (cfg : AuthConfig) (userId : String) : AuthProg Nat := do
  let id ← parseUuid cfg.unicode userId
  revokeAllUserSessions id

def changePassword (cfg : AuthConfig) (userId oldPassword newPassword : String) : AuthProg (Except String Unit) := do
  let id ← parseUuid cfg.unicode userId
  match ← getUser id with
  | none => return .error "User not found"
  | some user =>
    if !cfg.verify oldPassword user.passwordHash then return .error "Current password is incorrect"
    match validatePasswordStrength cfg.unicode newPassword with
    | .error error => return .error error
    | .ok () =>
      let newHash ← hashPassword newPassword
      let updated ← updatePassword id newHash
      return if updated = true then .ok () else .error "Failed to update password"

def createInviteUser (cfg : AuthConfig) (email : String) (isAdmin : Bool) :
    AuthProg (Except String (String × String)) := do
  let tempPassword ← tokenUrlsafe
  match ← registerUser cfg email tempPassword none isAdmin with
  | .error error => return .error error
  | .ok user => return .ok (user.id, tempPassword)

def changeUserRole (cfg : AuthConfig) (userId : String) (isAdmin : Bool) : AuthProg (Except String Unit) := do
  let id ← parseUuid cfg.unicode userId
  match ← getUser id with
  | none => return .error "User not found"
  | some user =>
    let _ ← updateRole id user.isAdmin isAdmin
    return .ok ()

def ensureAdminExists (cfg : AuthConfig) : AuthProg Unit := do
  let count ← countUsers
  if count = (0 : Nat) then
    let passwordHash ← hashPassword cfg.adminPassword
    let _ ← createUser cfg.adminEmail passwordHash (some "Admin") true
    return ()
  else return ()

/-! ## Routes -/

/-- A user as the account page shows it. -/
structure UserView where
  id : String
  email : String
  displayName : Option String
  isAdmin : Bool
  deriving DecidableEq, Repr

def User.view (id : Uuid) (user : User) : UserView := ⟨id.str, user.email, user.displayName, user.isAdmin⟩

inductive Reply where
  | loggedIn (token : Token) (email : String) (displayName : Option String)
  | loggedOut
  | registered (token : Token) (userId : String)
  | passwordChanged
  | invite (result : Except String (String × String))
  | accountTab (currentUser : Option UserView) (users : List UserView) (result : Except String String)
  | sessionsRevoked (count : Nat)

def getCurrentUserOptional (cfg : AuthConfig) (token : Option Token) : AuthProg (Option TokenData) :=
  match token with
  | none => return none
  | some token => do
    match ← decodeToken cfg token with
    | none => return none
    | some payload => return some ⟨payload.sub, payload.email, payload.jti, payload.isAdmin⟩

def getCurrentUser (cfg : AuthConfig) (token : Option Token) : AuthProg TokenData := do
  match ← getCurrentUserOptional cfg token with
  | none => .raise (httpException 401 "Not authenticated")
  | some user => return user

def requireAdmin (cfg : AuthConfig) (token : Option Token) : AuthProg TokenData := do
  let user ← getCurrentUser cfg token
  if !user.isAdmin then .raise (httpException 403 "Admin access required") else return user

def login (cfg : AuthConfig) (email password : String) : AuthProg Reply := do
  match ← authenticateUser cfg email password with
  | .error error => .raise (httpException 401 error)
  | .ok user =>
    let token ← createAccessToken cfg user.id user.email user.isAdmin
    return .loggedIn token user.email user.displayName

def logout (cfg : AuthConfig) (token : Option Token) : AuthProg Reply := do
  match ← getCurrentUserOptional cfg token with
  | none => return .loggedOut
  | some user =>
    let _ ← logoutUser cfg user.sessionId
    return .loggedOut

def register (cfg : AuthConfig) (email password : String) (displayName : Option String) : AuthProg Reply :=
  if cfg.disableRegistration then .raise (httpException 403 "Registration is disabled")
  else do
    match ← registerUser cfg email password displayName false with
    | .error error => .raise (httpException 400 error)
    | .ok user =>
      let token ← createAccessToken cfg user.id user.email user.isAdmin
      return .registered token user.id

def changePasswordRoute (cfg : AuthConfig) (token : Option Token) (currentPassword newPassword : String) :
    AuthProg Reply := do
  let user ← getCurrentUser cfg token
  match ← changePassword cfg user.userId currentPassword newPassword with
  | .error error => .raise (httpException 400 error)
  | .ok () => return .passwordChanged

def inviteUser (cfg : AuthConfig) (token : Option Token) (email : String) (isAdmin : Bool) : AuthProg Reply := do
  let _ ← requireAdmin cfg token
  return .invite ((← createInviteUser cfg email isAdmin).map fun invited => (invited.2, email))

/-- The account page with the first 1000 users. -/
def accountTab (currentUser : Option UserView) (result : Except String String) : AuthProg Reply := do
  let users ← listUsers 1000
  return .accountTab currentUser (users.map fun row => row.2.view row.1) result

def changeUserRoleRoute (cfg : AuthConfig) (token : Option Token) (userId : String) (isAdmin : Bool) :
    AuthProg Reply := do
  let admin ← requireAdmin cfg token
  let adminId ← parseUuid cfg.unicode admin.userId
  let current ← getUser adminId
  let currentUser := Option.map (User.view adminId) current
  if userId = admin.userId then accountTab currentUser (.error "Cannot change your own role")
  else do
    match ← changeUserRole cfg userId isAdmin with
    | .error error => accountTab currentUser (.error error)
    | .ok () =>
      let users ← listUsers 1000
      let id ← parseUuid cfg.unicode userId
      let target ← getUser id
      let targetEmail := (Option.map User.email target).getD "unknown"
      let roleAction := if isAdmin then "promoted to admin" else "demoted to user"
      return .accountTab currentUser (users.map fun row => row.2.view row.1) (.ok (targetEmail ++ " " ++ roleAction))

def deleteUserRoute (cfg : AuthConfig) (token : Option Token) (userId : String) : AuthProg Reply := do
  let admin ← requireAdmin cfg token
  let adminId ← parseUuid cfg.unicode admin.userId
  let current ← getUser adminId
  let currentUser := Option.map (User.view adminId) current
  if userId = admin.userId then accountTab currentUser (.error "Cannot delete your own account")
  else do
    let id ← parseUuid cfg.unicode userId
    let _ ← getUser id
    let deleted ← deleteUser id
    if deleted = true then accountTab currentUser (.ok "User deleted successfully")
    else accountTab currentUser (.error "User not found")

def logoutAll (cfg : AuthConfig) (token : Option Token) : AuthProg Reply := do
  let user ← getCurrentUser cfg token
  return .sessionsRevoked (← logoutAllSessions cfg user.userId)

inductive Request where
  | login (email password : String)
  | logout (token : Option Token)
  | register (email password : String) (displayName : Option String)
  | changePassword (token : Option Token) (currentPassword newPassword : String)
  | invite (token : Option Token) (email : String) (isAdmin : Bool)
  | changeUserRole (token : Option Token) (userId : String) (isAdmin : Bool)
  | deleteUser (token : Option Token) (userId : String)
  | logoutAll (token : Option Token)
  deriving DecidableEq, Repr

def Request.code (cfg : AuthConfig) : Request → AuthProg Reply
  | .login email password => Auth.login cfg email password
  | .logout token => Auth.logout cfg token
  | .register email password displayName => Auth.register cfg email password displayName
  | .changePassword token currentPassword newPassword => changePasswordRoute cfg token currentPassword newPassword
  | .invite token email isAdmin => inviteUser cfg token email isAdmin
  | .changeUserRole token userId isAdmin => changeUserRoleRoute cfg token userId isAdmin
  | .deleteUser token userId => deleteUserRoute cfg token userId
  | .logoutAll token => Auth.logoutAll cfg token

/-! ## What a request may do -/

/-- The statements with which a request of this kind changes the tables. -/
def Request.writes : Request → AuthOp → Bool
  | .login _ _, .updateLastLogin _ | .login _ _, .createSession _ _ | .login _ _, .jwtEncode _ _ _ _ _ => true
  | .logout _, .revokeSession _ => true
  | .register _ _ _, .createUser _ _ _ _ | .register _ _ _, .createSession _ _ | .register _ _ _,
      .jwtEncode _ _ _ _ _ => true
  | .changePassword _ _ _, .updatePassword _ _ => true
  | .invite _ _ _, .createUser _ _ _ _ => true
  | .changeUserRole _ _ _, .updateRole _ _ _ => true
  | .deleteUser _ _, .deleteUser _ => true
  | .logoutAll _, .revokeAllUserSessions _ => true
  | _, _ => false

section Uses

variable {cfg : AuthConfig} {P : AuthOp → Prop}

theorem uses_op (o : AuthOp) (h : P o) : (@Prog.await authSig Exc o).Uses P := .await h

theorem uses_parseUuid (U : Unicode) (text : String) : (parseUuid U text).Uses P := by
  rcases parseUuid_cases U text with ⟨id, _, h⟩ | ⟨e, h⟩
  · rw [h]; trivial
  · rw [h]; trivial

theorem uses_createAccessToken {userId email : String} {isAdmin : Bool} (hr : ∀ o : AuthOp, o.reads = true → P o)
    (hs : ∀ id exp, P (.createSession id exp))
    (ht : ∀ sub email isAdmin jti exp, P (.jwtEncode sub email isAdmin jti exp)) :
    (createAccessToken cfg userId email isAdmin).Uses P :=
  .bind (uses_op .now (hr _ rfl)) fun _ => .bind (uses_parseUuid _ _) fun _ => .bind (uses_op _ (hs _ _)) fun _ =>
    uses_op _ (ht _ _ _ _ _)

theorem uses_authenticateUser (hr : ∀ o : AuthOp, o.reads = true → P o) (hl : ∀ id, P (.updateLastLogin id))
    (email password : String) : (authenticateUser cfg email password).Uses P := by
  refine .bind (uses_op _ (hr _ rfl)) fun found => ?_
  cases found with
  | none => trivial
  | some found =>
    obtain ⟨id, user⟩ := found
    simp only []
    split
    · exact .bind (uses_op _ (hl _)) fun _ => .bind (uses_op _ (hr _ rfl)) fun _ => trivial
    · trivial

theorem uses_registerUser {email password : String} {displayName : Option String} {isAdmin : Bool}
    (hr : ∀ o : AuthOp, o.reads = true → P o) (hc : ∀ hash, P (.createUser email hash displayName isAdmin)) :
    (registerUser cfg email password displayName isAdmin).Uses P := by
  have htry : ∀ hash, (tryCreate email hash displayName isAdmin).Uses P := by
    intro hash
    refine Prog.Uses.catching (.bind (uses_op _ (hc _)) fun _ => trivial) fun e => ?_
    split <;> trivial
  rw [registerUser_eq]
  split
  · trivial
  refine .bind (uses_op _ (hr _ rfl)) fun existing => ?_
  cases existing with
  | some _ => trivial
  | none => exact .bind (uses_op _ (hr _ rfl)) fun _ => htry _

theorem uses_getCurrentUserOptional (hr : ∀ o : AuthOp, o.reads = true → P o) (token : Option Token) :
    (getCurrentUserOptional cfg token).Uses P := by
  cases token with
  | none => trivial
  | some token =>
    refine .bind (.bind (uses_op _ (hr _ rfl)) fun payload => ?_) fun payload => ?_
    · cases payload with
      | none => trivial
      | some payload =>
        simp only []
        split
        · trivial
        refine .bind (uses_parseUuid _ _) fun _ => .bind (uses_op _ (hr _ rfl)) fun active => ?_
        cases active <;> trivial
    · cases payload <;> trivial

theorem uses_getCurrentUser (hr : ∀ o : AuthOp, o.reads = true → P o) (token : Option Token) :
    (getCurrentUser cfg token).Uses P :=
  .bind (uses_getCurrentUserOptional hr token) fun user => by cases user <;> trivial

theorem uses_requireAdmin (hr : ∀ o : AuthOp, o.reads = true → P o) (token : Option Token) :
    (requireAdmin cfg token).Uses P :=
  .bind (uses_getCurrentUser hr token) fun user => by
    split <;> trivial

theorem uses_accountTab (hr : ∀ o : AuthOp, o.reads = true → P o) (current : Option UserView)
    (result : Except String String) :
    (accountTab current result).Uses P :=
  .bind (uses_op _ (hr _ rfl)) fun _ => trivial

/-- What follows `UUID(text)` may be about the id it spells. -/
theorem uses_parsed {α : Type} {U : Unicode} {text : String} {f : Uuid → AuthProg α}
    (h : ∀ id, Uuid.ofString U text = some id → (f id).Uses P) : ((parseUuid U text).bind f).Uses P := by
  rcases parseUuid_cases U text with ⟨id, hid, hp⟩ | ⟨e, hp⟩
  · rw [hp]
    exact h id hid
  · rw [hp]
    trivial

theorem uses_changeUserRole {userId : String} {isAdmin : Bool} (hr : ∀ o : AuthOp, o.reads = true → P o)
    (hw : ∀ id, Uuid.ofString cfg.unicode userId = some id → ∀ loaded, P (.updateRole id loaded isAdmin)) :
    (changeUserRole cfg userId isAdmin).Uses P :=
  uses_parsed fun id hid => .bind (uses_op _ (hr _ rfl)) fun user => by
    cases user with
    | none => trivial
    | some user => exact .bind (uses_op _ (hw id hid _)) fun _ => trivial

theorem uses_changePassword (hr : ∀ o : AuthOp, o.reads = true → P o) (hw : ∀ id hash, P (.updatePassword id hash))
    (userId oldPassword newPassword : String) : (changePassword cfg userId oldPassword newPassword).Uses P :=
  .bind (uses_parseUuid _ _) fun _ => .bind (uses_op _ (hr _ rfl)) fun user => by
    cases user with
    | none => trivial
    | some user =>
      simp only []
      split
      · trivial
      split
      · trivial
      exact .bind (uses_op _ (hr _ rfl)) fun _ => .bind (uses_op _ (hw _ _)) fun _ => trivial

/-- A request reads, and makes the changes of its kind. -/
theorem uses_code (request : Request) : (request.code cfg).Uses fun o :
    AuthOp => (o.reads || request.writes o) = true := by
  have hr : ∀ o : AuthOp, o.reads = true → (o.reads || request.writes o) = true := fun o h => by rw [h]; rfl
  have hw : ∀ o : AuthOp, request.writes o = true → (o.reads || request.writes o) = true :=
    fun o h => by rw [h, Bool.or_true]
  cases request with
  | login email password =>
    refine .bind (uses_authenticateUser hr (fun _ => hw _ rfl) email password) fun user => ?_
    cases user with
    | error error => trivial
    | ok user =>
      exact .bind (uses_createAccessToken hr (fun _ _ => hw _ rfl) fun _ _ _ _ _ => hw _ rfl) fun _ => trivial
  | logout token =>
    refine .bind (uses_getCurrentUserOptional hr token) fun user => ?_
    cases user with
    | none => trivial
    | some user => exact .bind (.bind (uses_parseUuid _ _) fun _ => uses_op _ rfl) fun _ => trivial
  | register email password displayName =>
    show (register cfg email password displayName).Uses _
    unfold register
    split
    · trivial
    refine .bind (uses_registerUser hr fun _ => hw _ rfl) fun user => ?_
    cases user with
    | error error => trivial
    | ok user =>
      exact .bind (uses_createAccessToken hr (fun _ _ => hw _ rfl) fun _ _ _ _ _ => hw _ rfl) fun _ => trivial
  | changePassword token currentPassword newPassword =>
    simp only [Request.code, changePasswordRoute, Prog.bind_def]
    refine .bind (uses_getCurrentUser hr token) fun user => ?_
    refine .bind (uses_changePassword hr (fun _ _ => hw _ rfl) user.userId currentPassword newPassword)
      fun result => ?_
    cases result <;> trivial
  | invite token email isAdmin =>
    simp only [Request.code, inviteUser, createInviteUser, Prog.bind_def]
    refine .bind (uses_requireAdmin hr token) fun _ => .bind (.bind (uses_op .tokenUrlsafe rfl) fun _ => ?_)
      fun _ => trivial
    refine .bind (uses_registerUser hr fun _ => hw _ rfl) fun user => ?_
    cases user <;> trivial
  | changeUserRole token userId isAdmin =>
    refine .bind (uses_requireAdmin hr token) fun admin => .bind (uses_parseUuid _ _)
      fun _ => .bind (uses_op _ rfl) fun _ => ?_
    split
    · exact uses_accountTab hr _ _
    refine .bind (uses_changeUserRole hr fun _ _ _ => hw _ rfl) fun result => ?_
    cases result with
    | error error => exact uses_accountTab hr _ _
    | ok _ =>
      exact .bind (uses_op (.listUsers 1000) rfl) fun _ => .bind (uses_parseUuid _ _)
        fun _ => .bind (uses_op _ rfl) fun _ => trivial
  | deleteUser token userId =>
    refine .bind (uses_requireAdmin hr token) fun admin => .bind (uses_parseUuid _ _)
      fun _ => .bind (uses_op _ rfl) fun _ => ?_
    split
    · exact uses_accountTab hr _ _
    refine .bind (uses_parseUuid _ _) fun _ => .bind (uses_op _ rfl) fun _ => .bind (uses_op _ rfl) fun deleted => ?_
    split
    · exact uses_accountTab hr _ _
    · exact uses_accountTab hr _ _
  | logoutAll token =>
    exact .bind (uses_getCurrentUser hr token)
      fun _ => .bind (.bind (uses_parseUuid _ _) fun _ => uses_op _ rfl) fun _ => trivial

end Uses

/-- Requests of the kinds in `allowed`, one operation at a time, on well-formed tables; the
    clock moves on between any two operations. -/
def authSystem (cfg : AuthConfig) (allowed : Request → Bool) : System authSig Exc Reply where
  State := AuthDb
  Env := Nat
  Task := Request
  init := AuthDb.WellFormed
  exec := fun _ s o r => s.exec cfg.verify o r
  env := fun s microseconds => some { s with now := s.now + microseconds }
  starts := fun _ request => allowed request
  code := fun _ request => request.code cfg

/-- Every kind of request. -/
abbrev authRequests (cfg : AuthConfig) : System authSig Exc Reply := authSystem cfg fun _ => true

end Connect.Auth
