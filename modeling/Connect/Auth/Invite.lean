/-
  Connect.Auth.Invite — invitations with a temporary password.

  `secrets.token_urlsafe(12)` draws sixteen characters out of 64, and `register_user` asks
  for an upper case letter, a lower case letter and a digit. An invitation works exactly
  when the drawn text has all three (`invite_works_iff`); otherwise it is refused before the
  tables are read (`invite_fails`).

  Meanwhile other requests may do anything but register the address, delete its row or
  change its password (`Untouched`).
-/

import Connect.Auth.Revoked

namespace Connect.Auth

open Await

/-! ## Temporary passwords -/

/-- The alphabet of `token_urlsafe`. -/
def isUrlSafe (c : Char) : Bool := c.isAlphanum || c == '-' || c == '_'

/-- A text that `token_urlsafe(12)` can return. -/
structure UrlSafe (t : String) : Prop where
  length : t.length = 16
  chars : ∀ c ∈ t.toList, isUrlSafe c = true

/-- An upper case letter, a lower case letter and a digit. -/
structure Mixed (t : String) : Prop where
  upper : ∃ c ∈ t.toList, c.isUpper = true
  lower : ∃ c ∈ t.toList, c.isLower = true
  digit : ∃ c ∈ t.toList, c.isDigit = true

theorem isUrlSafe_lt {c : Char} (h : isUrlSafe c = true) : c.toNat < 128 := by
  simp only [isUrlSafe, Bool.or_eq_true, beq_iff_eq] at h
  rcases h with (h | rfl) | rfl
  · exact isAlphanum_lt h
  · decide
  · decide

/-- A drawn text is long enough, so its letters decide. -/
theorem strong_iff (U : Unicode) {t : String} (h : UrlSafe t) : validatePasswordStrength U t = .ok () ↔ Mixed t := by
  have hdigit : t.toList.any (Unicode.isDecimal U) = t.toList.any Char.isDigit := by
    rw [Bool.eq_iff_iff, List.any_eq_true, List.any_eq_true]
    refine exists_congr fun c => and_congr_right fun hc => ?_
    rw [Unicode.isDecimal, if_pos (isUrlSafe_lt (h.chars c hc))]
  have hmixed : Mixed t ↔ t.toList.any Char.isUpper = true ∧ t.toList.any Char.isLower = true ∧
      t.toList.any Char.isDigit = true := by
    simp only [List.any_eq_true]
    exact ⟨fun h => ⟨h.upper, h.lower, h.digit⟩, fun h => ⟨h.1, h.2.1, h.2.2⟩⟩
  unfold validatePasswordStrength
  rw [if_neg (by rw [h.length]; decide), hdigit, hmixed]
  cases t.toList.any Char.isUpper with
  | false => simp
  | true =>
    cases t.toList.any Char.isLower with
    | false => simp
    | true => cases t.toList.any Char.isDigit <;> simp

/-! ## Rows of an address -/

def AuthDb.Has (s : AuthDb) (email : String) (id : Uuid) (hash : String) : Prop :=
  ∃ user, s.users id = some user ∧ user.email = email ∧ user.passwordHash = hash

/-- The rows of the address keep their passwords, and none was added or deleted. -/
structure Untouched (email : String) (s s' : AuthDb) : Prop where
  rows : ∀ id hash, s'.Has email id hash ↔ s.Has email id hash
  known : s'.hasEmail email = s.hasEmail email

theorem Untouched.refl (email : String) (s : AuthDb) : Untouched email s s := ⟨fun _ _ => Iff.rfl, rfl⟩

/-- The address has this row only. -/
structure Only (email : String) (id : Uuid) (hash : String) (s : AuthDb) : Prop where
  rows : ∀ i h, s.Has email i h ↔ i = id ∧ h = hash
  known : s.hasEmail email = true

theorem Untouched.only {email hash : String} {id : Uuid} {s s' : AuthDb} (h : Untouched email s s')
    (ho : Only email id hash s) :
    Only email id hash s' := ⟨fun i k => (h.rows i k).trans (ho.rows i k), h.known.trans ho.known⟩

/-! ## Answers -/

/-- Every operation is answered, `token_urlsafe` with `t`. -/
def Answers (t : String) : (o : AuthOp) → Except Exc o.Ret → Prop
  | .tokenUrlsafe, (r : Except Exc String) => r = .ok t
  | _, r => ∃ a, r = .ok a

theorem Answers.ok {t : String} {o : AuthOp} {r : Except Exc o.Ret} (h : Answers t o r) : ∃ a, r = .ok a := by
  cases o with
  | tokenUrlsafe => exact ⟨t, h⟩
  | _ => exact h

/-- `create_invite_user` returns an id and `t`, and `authenticate_user` with `t` then returns
    the row of this id, in every run in which the tables take the statements. -/
def InviteWorks (cfg : AuthConfig) (email : String) (isAdmin : Bool) (t : String) (s : AuthDb) : Prop :=
  ∀ calls x s', Exec (authRequests cfg) (Untouched email) 0 (createInviteUser cfg email isAdmin) s calls x s' →
    (∀ call ∈ calls, Answers t call.op call.ans) → ∃ id : Uuid, x = .ok (.ok (id.str, t)) ∧
      ∀ calls' y s'', Exec (authRequests cfg) (Untouched email) 0 (authenticateUser cfg email t) s' calls' y s'' →
        (∀ call ∈ calls', Answers t call.op call.ans) →
        ∃ user, user.email = email ∧ y = .ok (.ok (userToDict id user))

section Runs

variable {cfg : AuthConfig} {email t : String} {isAdmin : Bool} {s s' : AuthDb} {calls : List (Call authSig Exc)}

/-- The next operation is answered, and what follows goes on from there. -/
theorem answered {α : Type} {o : AuthOp} {k : Except Exc o.Ret → AuthProg α} {x : Except Exc α}
    (h : Exec (authRequests cfg) (Untouched email) 0 (@Prog.op authSig Exc α o k) s calls x s')
    (hok : ∀ call ∈ calls, Answers t call.op call.ans) : ∃ a s₁ s₂ rest, Untouched email s s₁ ∧ Answers t o (.ok a) ∧
      Did cfg.verify s₁ o (.ok a) s₂ ∧ Exec (authRequests cfg) (Untouched email) 0 (k (.ok a)) s₂ rest x s' ∧
      ∀ call ∈ rest, Answers t call.op call.ans := by
  obtain ⟨s₁, r, s₂, rest, hr, hx, rfl, hk⟩ := h
  obtain ⟨ha, hrest⟩ := List.forall_mem_cons.mp hok
  obtain ⟨a, rfl⟩ := Answers.ok (o := o) (r := r) ha
  exact ⟨a, s₁, s₂, rest, hr, ha, exec_did hx, hk, hrest⟩

theorem answered_bind {α : Type} {o : AuthOp} {f : o.Ret → AuthProg α} {x : Except Exc α}
    (h : Exec (authRequests cfg) (Untouched email) 0 ((@Prog.await authSig Exc o).bind f) s calls x s')
    (hok : ∀ call ∈ calls, Answers t call.op call.ans) : ∃ a s₁ s₂ rest, Untouched email s s₁ ∧ Answers t o (.ok a) ∧
      Did cfg.verify s₁ o (.ok a) s₂ ∧ Exec (authRequests cfg) (Untouched email) 0 (f a) s₂ rest x s' ∧
      ∀ call ∈ rest, Answers t call.op call.ans := answered h hok

/-- The new row is the only one of the address. -/
theorem only_added {id : Uuid} {hash : String} (hnew : ∀ i h, ¬ s.Has email i h) :
    Only email id hash (s.addUser id (s.newUser email hash none isAdmin)) := by
  refine ⟨fun i h => ⟨fun hh => ?_, fun hh => ?_⟩, ?_⟩
  · obtain ⟨user, hu, he, hp⟩ := hh
    have hu : put s.users id (s.newUser email hash none isAdmin) i = some user := hu
    by_cases e : i = id
    · subst e
      rw [put_same] at hu
      cases hu
      exact ⟨rfl, hp.symm⟩
    · rw [put_ne _ _ e] at hu
      exact absurd ⟨user, hu, he, hp⟩ (hnew i h)
  · obtain ⟨rfl, rfl⟩ := hh
    exact ⟨_, put_same _ _ _, rfl, rfl⟩
  · have hrow : (put s.users id (s.newUser email hash none isAdmin) id).any (·.email == email) = true := by
      rw [put_same]
      simp [AuthDb.newUser]
    exact List.any_eq_true.mpr ⟨id, List.mem_cons_self, hrow⟩

/-- A login leaves the row its password. -/
theorem has_stamped {id : Uuid} {hash : String} (h : s.Has email id hash) :
    (s.updateUser id fun user => { user with lastLogin := some s.now }).Has email id hash := by
  obtain ⟨user, hu, he, hp⟩ := h
  refine ⟨{ user with lastLogin := some s.now }, ?_, he, hp⟩
  show (if id = id then (s.users id).map _ else s.users id) = _
  rw [if_pos rfl, hu]
  rfl

theorem enroll_adds (hnew : ∀ i h, ¬ s.Has email i h) {x : Except Exc (Except String UserDict)}
    (h : Exec (authRequests cfg) (Untouched email) 0 (enroll email t none isAdmin) s calls x s')
    (hok : ∀ call ∈ calls, Answers t call.op call.ans) :
    ∃ id user, x = .ok (.ok (userToDict id user)) ∧ cfg.verify t user.passwordHash = true ∧
    Only email id user.passwordHash s' := by
  obtain ⟨found, s₁, s₂, rest, hu₁, -, hd₁, h, hok⟩ := answered_bind h hok
  have hnew₁ : ∀ i h, ¬ s₁.Has email i h := fun i h hh => hnew i h ((hu₁.rows i h).mp hh)
  cases hd₁ with
  | found hu he => exact absurd ⟨_, hu, he, rfl⟩ (hnew₁ _ _)
  | unknown =>
    obtain ⟨hash, s₂, s₃, rest, hu₂, -, hd₂, h, hok⟩ := answered_bind h hok
    cases hd₂ with
    | hashed hverify =>
      obtain ⟨added, s₃, s₄, rest, hu₃, -, hd₃, h, hok⟩ := answered h hok
      have hnew₃ : ∀ i h, ¬ s₃.Has email i h := fun i h hh => hnew₁ i h ((hu₂.rows i h).mp ((hu₃.rows i h).mp hh))
      cases hd₃ with
      | @created id =>
        obtain ⟨-, rfl, hu₄⟩ := h
        exact ⟨id, _, rfl, hverify, hu₄.only (only_added hnew₃)⟩

theorem createInviteUser_adds (hr : refusal cfg email t = none) (hnew : ∀ i h, ¬ s.Has email i h)
    {x : Except Exc (Except String (String × String))}
    (h : Exec (authRequests cfg) (Untouched email) 0 (createInviteUser cfg email isAdmin) s calls x s')
    (hok : ∀ call ∈ calls, Answers t call.op call.ans) :
    ∃ id hash, x = .ok (.ok (Uuid.str id, t)) ∧ cfg.verify t hash = true ∧ Only email id hash s' := by
  obtain ⟨drawn, s₁, s₂, rest, hu₁, ha, hd₁, h, hok⟩ := answered_bind h hok
  cases Except.ok.inj ha
  cases hd₁
  rw [registerUser_eq, hr] at h
  have hnew₁ : ∀ i h, ¬ s₁.Has email i h := fun i h hh => hnew i h ((hu₁.rows i h).mp hh)
  rcases exec_bind (Untouched.refl email) h with ⟨e, -, h⟩ | ⟨_, s₂, first, rest, rfl, h, hend⟩
  · obtain ⟨_, _, he, -⟩ := enroll_adds hnew₁ h hok
    cases he
  · obtain ⟨id, user, he, hverify, ho⟩ := enroll_adds hnew₁ h (List.forall_mem_append.mp hok).1
    cases he
    obtain ⟨-, rfl, hu₂⟩ := hend
    exact ⟨id, _, rfl, hverify, hu₂.only ho⟩

theorem authenticateUser_takes {id : Uuid} {hash : String} (hv : cfg.verify t hash = true) (ho : Only email id hash s)
    {y : Except Exc (Except String UserDict)}
    (h : Exec (authRequests cfg) (Untouched email) 0 (authenticateUser cfg email t) s calls y s')
    (hok : ∀ call ∈ calls, Answers t call.op call.ans) :
    ∃ user, user.email = email ∧ y = .ok (.ok (userToDict id user)) := by
  obtain ⟨found, s₁, s₂, rest, hu₁, -, hd₁, h, hok⟩ := answered_bind h hok
  have ho₁ := hu₁.only ho
  cases hd₁ with
  | unknown hno => exact absurd (ho₁.known.symm.trans hno) (by decide)
  | @found _ i user hu he =>
    obtain ⟨rfl, hp⟩ := (ho₁.rows i user.passwordHash).mp ⟨user, hu, he, rfl⟩
    simp only [hp, hv, if_true] at h
    obtain ⟨_, s₂, s₃, rest, hu₂, -, hd₂, h, hok⟩ := answered_bind h hok
    cases hd₂
    obtain ⟨row, s₄, s₅, rest, hu₃, -, hd₃, h, hok⟩ := answered_bind h hok
    cases hd₃ with
    | refreshed hrow =>
      obtain ⟨-, rfl, -⟩ := h
      have hhas := has_stamped (((hu₂.only ho₁).rows i hash).mpr ⟨rfl, rfl⟩)
      obtain ⟨user', huser, hemail, -⟩ := (hu₃.rows i hash).mpr hhas
      cases hrow.symm.trans huser
      exact ⟨row, hemail, rfl⟩

/-- A refused password ends the invitation before the tables are read. -/
theorem invite_fails (ht : UrlSafe t) (hm : ¬ Mixed t) : ¬ InviteWorks cfg email isAdmin t s := by
  intro hw
  have hr : refusal cfg email t ≠ none := fun hr => hm ((strong_iff _ ht).mp (refusal_none.mp hr).2.2)
  obtain ⟨error, hr⟩ := Option.ne_none_iff_exists'.mp hr
  have hrun : Exec (authRequests cfg) (Untouched email) 0 (createInviteUser cfg email isAdmin) s
      [⟨AuthOp.tokenUrlsafe, .ok t⟩]
      (.ok (.error error)) s := by
    refine ⟨s, .ok t, s, [], .refl email s, rfl, rfl, ?_⟩
    show Exec (authRequests cfg) _ 0 ((registerUser cfg email t none isAdmin).bind _) s [] _ s
    rw [registerUser_eq, hr]
    exact ⟨rfl, rfl, .refl email s⟩
  obtain ⟨id, he, -⟩ := hw _ _ _ hrun fun call hc => by
    cases List.mem_singleton.mp hc
    rfl
  cases he

end Runs

/-- For an address that is acceptable and not registered, an invitation works exactly when
    the drawn password has an upper case letter, a lower case letter and a digit. -/
theorem invite_works_iff {cfg : AuthConfig} {email t : String} {s : AuthDb} (hv : validEmail email = true)
    (hd : ∀ domain, truthy cfg.allowedEmailDomain = some domain → hasDomain cfg email domain = true)
    (hnew : ∀ id user, s.users id = some user → user.email ≠ email) (ht : UrlSafe t) (isAdmin : Bool) :
    InviteWorks cfg email isAdmin t s ↔ Mixed t := by
  constructor
  · intro hw
    exact Classical.byContradiction fun hm => invite_fails ht hm hw
  · intro hm calls x s' h hok
    have hr : refusal cfg email t = none := refusal_none.mpr ⟨hv, hd, (strong_iff _ ht).mpr hm⟩
    have hnew : ∀ i h, ¬ s.Has email i h := by
      intro i h hh
      obtain ⟨user, hu, he, -⟩ := hh
      exact hnew i user hu he
    obtain ⟨id, hash, hx, hverify, ho⟩ := createInviteUser_adds hr hnew h hok
    exact ⟨id, hx, fun _ _ _ h' hok' => authenticateUser_takes hverify ho h' hok'⟩

/-! ## Two invitations -/

theorem oneToken_new {id : Uuid} {user : User} (h : oneToken.users id = some user) : user.email ≠ "new@b.c" := by
  have h : put (fun _ => none) (uuid 1) someUser id = some user := h
  by_cases e : id = uuid 1
  · subst e
    rw [put_same] at h
    cases h
    decide
  · rw [put_ne _ _ e] at h
    cases h

theorem invite_works_mixed : InviteWorks someConfig "new@b.c" false "Abcdefgh-Ijklm0_" oneToken :=
  (invite_works_iff (by decide) (by decide) (fun _ _ => oneToken_new)
    ⟨by decide, List.all_eq_true.mp (by decide)⟩ false).mpr
    ⟨⟨'A', by decide, by decide⟩, ⟨'b', by decide, by decide⟩, ⟨'0', by decide, by decide⟩⟩

/-- No digit was drawn. -/
theorem invite_refused : UrlSafe "Abcdefgh-Ijklmn_" ∧ validEmail "new@b.c" = true ∧
    truthy someConfig.allowedEmailDomain = none ∧
    (∀ id user, oneToken.users id = some user → user.email ≠ "new@b.c") ∧
    ¬ InviteWorks someConfig "new@b.c" false "Abcdefgh-Ijklmn_" oneToken := by
  have ht : UrlSafe "Abcdefgh-Ijklmn_" := ⟨by decide, List.all_eq_true.mp (by decide)⟩
  refine ⟨ht, by decide, rfl, fun _ _ => oneToken_new, invite_fails ht fun hm => ?_⟩
  have hdigit := List.any_eq_true.mpr hm.digit
  exact absurd hdigit (by decide)

end Connect.Auth
