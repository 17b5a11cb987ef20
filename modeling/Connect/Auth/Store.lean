/-
  Connect.Auth.Store — the tables users and user_sessions, the tokens that were signed, and
  what one statement of the authentication code does to them (db/repositories/user.py,
  user_session.py, AsyncRepository).

  A statement that writes is one operation with the commit that follows it; two writes of
  one transaction are one operation. A statement that raises leaves the tables as they
  were. `uuid4` never repeats a value: `used` are those in the tables so far. The
  signature is unforgeable: `jwt.decode` takes the tokens of `issued` and no others.

  Times are microseconds of one clock, which the application and the database share.
-/

import Connect.Await.Pool
import Connect.Py
import Connect.Uuid

namespace Connect.Auth

open Await

structure User where
  email : String
  passwordHash : String
  displayName : Option String
  isAdmin : Bool
  createdAt : Int
  lastLogin : Option Int
  deriving DecidableEq, Repr

structure UserSession where
  userId : Uuid
  createdAt : Int
  expiresAt : Int
  revoked : Bool
  deriving DecidableEq, Repr

/-- The payload of a signed token; `exp` and `iat` are seconds. -/
structure Token where
  sub : String
  email : String
  isAdmin : Bool
  jti : String
  exp : Int
  iat : Int
  deriving DecidableEq, Repr

inductive AuthOp where
  /-- `jwt.decode`: `none` for JWTError. -/
  | jwtDecode (token : Token)
  | getActiveSession (sessionId : Uuid)
  | getByEmail (email : String)
  | getUser (userId : Uuid)
  | updateLastLogin (userId : Uuid)
  /-- `session.refresh(user)`. -/
  | refreshUser (userId : Uuid)
  | now
  /-- `uuid4()`, the INSERT and the commit. -/
  | createSession (userId : Uuid) (expiresAt : Int)
  | jwtEncode (sub email : String) (isAdmin : Bool) (jti : String) (exp : Int)
  | hashPassword (password : String)
  /-- `secrets.token_urlsafe(12)`. -/
  | tokenUrlsafe
  | createUser (email passwordHash : String) (displayName : Option String) (isAdmin : Bool)
  | revokeSession (sessionId : Uuid)
  | revokeAllUserSessions (userId : Uuid)
  /-- `update_password` and `revoke_all_user_sessions`. -/
  | updatePassword (userId : Uuid) (passwordHash : String)
  /-- The flush of `update(id, is_admin=...)` over a row loaded with `loaded`, and `revoke_all_user_sessions`. -/
  | updateRole (userId : Uuid) (loaded isAdmin : Bool)
  /-- `revoke_all_user_sessions` and `delete`; no commit when no row was deleted. -/
  | deleteUser (userId : Uuid)
  | countUsers
  | listUsers (limit : Nat)
  deriving DecidableEq, Repr

def AuthOp.Ret : AuthOp → Type
  | .jwtDecode _ => Option Token
  | .getActiveSession _ => Option UserSession
  | .getByEmail _ => Option (Uuid × User)
  | .getUser _ => Option User
  | .updateLastLogin _ => Unit
  | .refreshUser _ => User
  | .now => Int
  | .createSession _ _ => Uuid
  | .jwtEncode _ _ _ _ _ => Token
  | .hashPassword _ => String
  | .tokenUrlsafe => String
  | .createUser _ _ _ _ => Uuid × User
  | .revokeSession _ => Bool
  | .revokeAllUserSessions _ => Nat
  | .updatePassword _ _ => Bool
  | .updateRole _ _ _ => Unit
  | .deleteUser _ => Bool
  | .countUsers => Nat
  | .listUsers _ => List (Uuid × User)

abbrev authSig : Sig := ⟨AuthOp, AuthOp.Ret⟩

structure AuthDb where
  now : Int
  users : Uuid → Option User
  sessions : Uuid → Option UserSession
  used : List Uuid
  issued : List Token

/-! ## Statements -/

def put {α : Type} (table : Uuid → Option α) (id : Uuid) (row : α) : Uuid → Option α :=
  fun i => if i = id then some row else table i

@[simp] theorem put_same {α : Type} (table : Uuid → Option α) (id : Uuid) (row : α) :
    put table id row id = some row :=
  if_pos rfl

@[simp] theorem put_ne {α : Type} (table : Uuid → Option α) {id i : Uuid} (row : α) (h : i ≠ id) :
    put table id row i = table i := if_neg h

/-- The sessions with `id` in `p` revoked. -/
def revoke (sessions : Uuid → Option UserSession) (p : Uuid → UserSession → Bool) : Uuid → Option UserSession :=
  fun i => (sessions i).map fun row => if p i row then { row with revoked := true } else row

/-- `exp` and `iat` of a payload: a datetime becomes whole seconds. -/
def seconds (t : Int) : Int := t / 1000000

namespace AuthDb

/-- `jwt.decode`: the signature, then `exp < now` in whole seconds. -/
def decodes (s : AuthDb) (token : Token) : Bool := s.issued.contains token && !(token.exp < seconds s.now)

/-- `get_active_session`. -/
def activeSession (s : AuthDb) (sessionId : Uuid) : Option UserSession :=
  (s.sessions sessionId).filter fun row => !row.revoked && s.now < row.expiresAt

def hasEmail (s : AuthDb) (email : String) : Bool := s.used.any fun i => (s.users i).any (·.email == email)

def updateUser (s : AuthDb) (userId : Uuid) (f : User → User) : AuthDb :=
  { s with users := fun i => if i = userId then (s.users i).map f else s.users i }

/-- `UPDATE user_sessions SET revoked = true WHERE user_id = ...`. -/
def revokeAll (s : AuthDb) (userId : Uuid) : AuthDb :=
  { s with sessions := revoke s.sessions fun _ row => row.userId == userId }

def setPassword (s : AuthDb) (userId : Uuid) (passwordHash : String) : AuthDb :=
  (s.updateUser userId fun user => { user with passwordHash := passwordHash }).revokeAll userId

/-- No UPDATE of the row when the loaded value is the new one. -/
def setRole (s : AuthDb) (userId : Uuid) (loaded isAdmin : Bool) : AuthDb :=
  (s.updateUser userId fun user => if loaded = isAdmin then user
    else { user with isAdmin := isAdmin }).revokeAll userId

/-- `DELETE FROM users`, which takes the sessions of the user with it. -/
def removeUser (s : AuthDb) (userId : Uuid) : AuthDb :=
  { s with
    users := fun i => if i = userId then none else s.users i
    sessions := fun i => (s.sessions i).filter fun row => row.userId != userId }

def openSession (s : AuthDb) (sessionId userId : Uuid) (expiresAt : Int) : AuthDb :=
  { s with sessions := put s.sessions sessionId ⟨userId, s.now, expiresAt, false⟩, used := sessionId :: s.used }

def newUser (s : AuthDb) (email passwordHash : String) (displayName : Option String) (isAdmin : Bool) : User :=
  ⟨email, passwordHash, displayName, isAdmin, s.now, none⟩

def addUser (s : AuthDb) (userId : Uuid) (user : User) : AuthDb :=
  { s with users := put s.users userId user, used := userId :: s.used }

def liveSessions (s : AuthDb) (userId : Uuid) : Nat :=
  s.used.countP fun i => (s.sessions i).any fun row => row.userId == userId && !row.revoked

def countUsers (s : AuthDb) : Nat := s.used.countP fun i => (s.users i).isSome

end AuthDb

/-- The state after an operation with this answer, `none` when it cannot be answered so.
    `verify` is passlib's. -/
def AuthDb.exec (verify : String → String → Bool) (s : AuthDb) : (o : AuthOp) → Except Exc o.Ret → Option AuthDb
  | _, .error _ => some s
  | .jwtDecode token, .ok (a : Option Token) =>
    if a = (if s.decodes token then some token else none) then some s else none
  | .getActiveSession sessionId, .ok (a : Option UserSession) =>
    if a = s.activeSession sessionId then some s else none
  | .getByEmail email, .ok (a : Option (Uuid × User)) =>
    match a with
    | some (id, user) => if s.users id = some user ∧ user.email = email then some s else none
    | none => if s.hasEmail email then none else some s
  | .getUser userId, .ok (a : Option User) => if a = s.users userId then some s else none
  | .updateLastLogin userId, .ok _ => some (s.updateUser userId fun user => { user with lastLogin := some s.now })
  | .refreshUser userId, .ok (user : User) => if s.users userId = some user then some s else none
  | .now, .ok (t : Int) => if t = s.now then some s else none
  | .createSession userId expiresAt, .ok (sessionId : Uuid) =>
    if sessionId ∉ s.used ∧ (s.users userId).isSome then some (s.openSession sessionId userId expiresAt) else none
  | .jwtEncode sub email isAdmin jti exp, .ok (token : Token) =>
    if token = ⟨sub, email, isAdmin, jti, seconds exp, seconds s.now⟩ then
      some { s with issued := token :: s.issued } else none
  | .hashPassword password, .ok (hash : String) => if verify password hash then some s else none
  | .tokenUrlsafe, .ok _ => some s
  | .createUser email passwordHash displayName isAdmin, .ok (id, user) =>
    if id ∉ s.used ∧ s.hasEmail email = false ∧ user = s.newUser email passwordHash displayName isAdmin then
      some (s.addUser id user)
    else none
  | .revokeSession sessionId, .ok (a : Bool) =>
    if a = (s.sessions sessionId).isSome then
      some { s with sessions := revoke s.sessions fun i _ => i == sessionId } else none
  | .revokeAllUserSessions userId, .ok (a : Nat) =>
    if a = s.liveSessions userId then some (s.revokeAll userId) else none
  | .updatePassword userId passwordHash, .ok (a : Bool) =>
    if a = (s.users userId).isSome then some (if a then s.setPassword userId passwordHash else s) else none
  | .updateRole userId loaded isAdmin, .ok _ =>
    if (s.users userId).isSome then some (s.setRole userId loaded isAdmin) else none
  | .deleteUser userId, .ok (a : Bool) =>
    if a = (s.users userId).isSome then some (if a then s.removeUser userId else s) else none
  | .countUsers, .ok (a : Nat) => if a = s.countUsers then some s else none
  | .listUsers limit, .ok (a : List (Uuid × User)) =>
    if a.length = min limit s.countUsers ∧ (a.map (·.1)).Nodup ∧
      ∀ row ∈ a, s.users row.1 = some row.2 then some s else none

/-- What an answered operation did. -/
inductive Did (verify : String → String → Bool) (s : AuthDb) : (o : AuthOp) → Except Exc o.Ret → AuthDb → Prop
  | raised {o : AuthOp} (e : Exc) : Did verify s o (.error e) s
  | decoded (token : Token) : Did verify s (.jwtDecode token) (.ok (if s.decodes token then some token else none)) s
  | active (sessionId : Uuid) : Did verify s (.getActiveSession sessionId) (.ok (s.activeSession sessionId)) s
  | found {email : String} {id : Uuid} {user : User} : s.users id = some user → user.email = email →
      Did verify s (.getByEmail email) (.ok (some (id, user))) s
  | unknown {email : String} : s.hasEmail email = false → Did verify s (.getByEmail email) (.ok none) s
  | got (userId : Uuid) : Did verify s (.getUser userId) (.ok (s.users userId)) s
  | stamped (userId : Uuid) : Did verify s (.updateLastLogin userId) (.ok ())
      (s.updateUser userId fun user => { user with lastLogin := some s.now })
  | refreshed {userId : Uuid} {user : User} : s.users userId = some user →
      Did verify s (.refreshUser userId) (.ok user) s
  | clock : Did verify s .now (.ok s.now) s
  | opened {userId sessionId : Uuid} {expiresAt : Int} : sessionId ∉ s.used → (s.users userId).isSome = true →
      Did verify s (.createSession userId expiresAt) (.ok sessionId) (s.openSession sessionId userId expiresAt)
  | signed (sub email : String) (isAdmin : Bool) (jti : String) (exp : Int) :
      Did verify s (.jwtEncode sub email isAdmin jti exp) (.ok ⟨sub, email, isAdmin, jti, seconds exp, seconds s.now⟩)
        { s with issued := ⟨sub, email, isAdmin, jti, seconds exp, seconds s.now⟩ :: s.issued }
  | hashed {password hash : String} : verify password hash = true → Did verify s (.hashPassword password) (.ok hash) s
  | drawn (token : String) : Did verify s .tokenUrlsafe (.ok token) s
  | created {id : Uuid} {email passwordHash : String} {displayName : Option String} {isAdmin : Bool} :
      id ∉ s.used → s.hasEmail email = false →
      Did verify s (.createUser email passwordHash displayName isAdmin)
        (.ok (id, s.newUser email passwordHash displayName isAdmin))
        (s.addUser id (s.newUser email passwordHash displayName isAdmin))
  | revokedOne (sessionId : Uuid) : Did verify s (.revokeSession sessionId) (.ok (s.sessions sessionId).isSome)
      { s with sessions := revoke s.sessions fun i _ => i == sessionId }
  | revokedAll (userId : Uuid) : Did verify s (.revokeAllUserSessions userId) (.ok (s.liveSessions userId))
      (s.revokeAll userId)
  | passwordSet {userId : Uuid} (passwordHash : String) : (s.users userId).isSome = true →
      Did verify s (.updatePassword userId passwordHash) (.ok true) (s.setPassword userId passwordHash)
  | passwordUnset {userId : Uuid} (passwordHash : String) : s.users userId = none →
      Did verify s (.updatePassword userId passwordHash) (.ok false) s
  | roleSet {userId : Uuid} (loaded isAdmin : Bool) : (s.users userId).isSome = true →
      Did verify s (.updateRole userId loaded isAdmin) (.ok ()) (s.setRole userId loaded isAdmin)
  | deleted {userId : Uuid} : (s.users userId).isSome = true →
      Did verify s (.deleteUser userId) (.ok true) (s.removeUser userId)
  | undeleted {userId : Uuid} : s.users userId = none → Did verify s (.deleteUser userId) (.ok false) s
  | counted : Did verify s .countUsers (.ok s.countUsers) s
  | listed {limit : Nat} {rows : List (Uuid × User)} : rows.length = min limit s.countUsers → (rows.map (·.1)).Nodup →
      (∀ row ∈ rows, s.users row.1 = some row.2) → Did verify s (.listUsers limit) (.ok rows) s

theorem exec_did {verify : String → String → Bool} {s s' : AuthDb} {o : AuthOp} {r : Except Exc o.Ret}
    (h : s.exec verify o r = some s') : Did verify s o r s' := by
  rcases r with e | a
  · cases h; exact .raised e
  cases o with
  | jwtDecode token =>
    simp only [AuthDb.exec, Option.ite_none_right_eq_some, Option.some.injEq] at h
    obtain ⟨rfl, rfl⟩ := h
    exact .decoded token
  | getActiveSession sessionId =>
    simp only [AuthDb.exec, Option.ite_none_right_eq_some, Option.some.injEq] at h
    obtain ⟨rfl, rfl⟩ := h
    exact .active sessionId
  | getByEmail email =>
    rcases a with _ | ⟨id, user⟩
    · simp only [AuthDb.exec, Option.ite_none_left_eq_some, Option.some.injEq, Bool.not_eq_true] at h
      obtain ⟨hno, rfl⟩ := h
      exact .unknown hno
    · simp only [AuthDb.exec, Option.ite_none_right_eq_some, Option.some.injEq] at h
      obtain ⟨⟨hu, he⟩, rfl⟩ := h
      exact .found hu he
  | getUser userId =>
    simp only [AuthDb.exec, Option.ite_none_right_eq_some, Option.some.injEq] at h
    obtain ⟨rfl, rfl⟩ := h
    exact .got userId
  | updateLastLogin userId => cases h; exact .stamped userId
  | refreshUser userId =>
    simp only [AuthDb.exec, Option.ite_none_right_eq_some, Option.some.injEq] at h
    obtain ⟨hu, rfl⟩ := h
    exact .refreshed hu
  | now =>
    simp only [AuthDb.exec, Option.ite_none_right_eq_some, Option.some.injEq] at h
    obtain ⟨rfl, rfl⟩ := h
    exact .clock
  | createSession userId expiresAt =>
    simp only [AuthDb.exec, Option.ite_none_right_eq_some, Option.some.injEq] at h
    obtain ⟨⟨hf, hu⟩, rfl⟩ := h
    exact .opened hf hu
  | jwtEncode sub email isAdmin jti exp =>
    simp only [AuthDb.exec, Option.ite_none_right_eq_some, Option.some.injEq] at h
    obtain ⟨rfl, rfl⟩ := h
    exact .signed sub email isAdmin jti exp
  | hashPassword password =>
    simp only [AuthDb.exec, Option.ite_none_right_eq_some, Option.some.injEq] at h
    obtain ⟨hv, rfl⟩ := h
    exact .hashed hv
  | tokenUrlsafe => cases h; exact .drawn a
  | createUser email passwordHash displayName isAdmin =>
    obtain ⟨id, user⟩ := a
    simp only [AuthDb.exec, Option.ite_none_right_eq_some, Option.some.injEq] at h
    obtain ⟨⟨hf, he, rfl⟩, rfl⟩ := h
    exact .created hf he
  | revokeSession sessionId =>
    simp only [AuthDb.exec, Option.ite_none_right_eq_some, Option.some.injEq] at h
    obtain ⟨rfl, rfl⟩ := h
    exact .revokedOne sessionId
  | revokeAllUserSessions userId =>
    simp only [AuthDb.exec, Option.ite_none_right_eq_some, Option.some.injEq] at h
    obtain ⟨rfl, rfl⟩ := h
    exact .revokedAll userId
  | updatePassword userId passwordHash =>
    simp only [AuthDb.exec, Option.ite_none_right_eq_some, Option.some.injEq] at h
    obtain ⟨ha, rfl⟩ := h
    cases a with
    | true => exact .passwordSet passwordHash ha.symm
    | false =>
      exact .passwordUnset passwordHash (Option.isSome_eq_false_iff.mp ha.symm |> Option.isNone_iff_eq_none.mp)
  | updateRole userId loaded isAdmin =>
    simp only [AuthDb.exec, Option.ite_none_right_eq_some, Option.some.injEq] at h
    obtain ⟨hu, rfl⟩ := h
    exact .roleSet loaded isAdmin hu
  | deleteUser userId =>
    simp only [AuthDb.exec, Option.ite_none_right_eq_some, Option.some.injEq] at h
    obtain ⟨ha, rfl⟩ := h
    cases a with
    | true => exact .deleted ha.symm
    | false => exact .undeleted (Option.isSome_eq_false_iff.mp ha.symm |> Option.isNone_iff_eq_none.mp)
  | countUsers =>
    simp only [AuthDb.exec, Option.ite_none_right_eq_some, Option.some.injEq] at h
    obtain ⟨rfl, rfl⟩ := h
    exact .counted
  | listUsers limit =>
    simp only [AuthDb.exec, Option.ite_none_right_eq_some, Option.some.injEq] at h
    obtain ⟨⟨hl, hn, hr⟩, rfl⟩ := h
    exact .listed hl hn hr

/-- The operations that leave the tables and the tokens as they are. -/
def AuthOp.reads : AuthOp → Bool
  | .jwtDecode _ | .getActiveSession _ | .getByEmail _ | .getUser _ | .refreshUser _ | .now
  | .hashPassword _ | .tokenUrlsafe
  | .countUsers | .listUsers _ => true
  | _ => false

theorem Did.of_reads {verify : String → String → Bool} {s s' : AuthDb} {o : AuthOp} {r : Except Exc o.Ret}
    (h : Did verify s o r s') (ho : o.reads = true) : s' = s := by
  cases h with
  | stamped | opened | signed | created | revokedOne | revokedAll | passwordSet | roleSet | deleted => cases ho
  | _ => rfl

/-- What the tables and the tokens keep: ids were generated once, a session has its user,
    a token its session's id. -/
structure AuthDb.WellFormed (s : AuthDb) : Prop where
  distinct : s.used.Nodup
  users : ∀ i, s.users i ≠ none → i ∈ s.used
  sessions : ∀ i row, s.sessions i = some row → i ∈ s.used ∧ s.users row.userId ≠ none
  issued : ∀ token ∈ s.issued, ∃ i ∈ s.used, token.jti = i.str

end Connect.Auth
