/-
  Connect.Auth.Revoked — a rejected token stays rejected.

  A session is closed once its id was used and it has no active row (`Closed`): it was
  revoked, deleted with its user, or has expired. No statement opens it again, because a
  new session has an id that was not used before (`Did.later`). Every token is signed for a
  session that was inserted first (`wellFormed`), so a token that is rejected has expired or
  its session is closed, and stays so (`rejected_stays`).
-/

import Connect.Await.Exec
import Connect.Await.Rely
import Connect.Auth.Routes

namespace Connect.Auth

open Await

/-! ## What an operation keeps -/

/-- The id is in the table or was, and the row is not an active session. -/
def AuthDb.Closed (s : AuthDb) (id : Uuid) : Prop :=
  id ∈ s.used ∧ ∀ row, s.sessions id = some row → row.revoked = true ∨ row.expiresAt ≤ s.now

/-- A later moment: closed sessions stay closed. -/
structure Later (s s' : AuthDb) : Prop where
  now : s.now ≤ s'.now
  used : ∀ i ∈ s.used, i ∈ s'.used
  issued : ∀ token ∈ s.issued, token ∈ s'.issued
  closed : ∀ i, s.Closed i → s'.Closed i

theorem Later.refl (s : AuthDb) : Later s s := ⟨Int.le_refl _, fun _ h => h, fun _ h => h, fun _ h => h⟩

theorem Later.trans {a b c : AuthDb} (h : Later a b) (h' : Later b c) : Later a c :=
  ⟨Int.le_trans h.now h'.now, fun i hi => h'.used i (h.used i hi), fun t ht => h'.issued t (h.issued t ht),
    fun i hi => h'.closed i (h.closed i hi)⟩

/-- A table of sessions in which rows were revoked or deleted. -/
def Fewer (sessions sessions' : Uuid → Option UserSession) : Prop :=
  ∀ i row', sessions' i = some row' → ∃ row, sessions i = some row ∧ row'.userId = row.userId ∧
    row'.expiresAt = row.expiresAt ∧ (row.revoked = true → row'.revoked = true)

theorem Fewer.refl (sessions : Uuid → Option UserSession) : Fewer sessions sessions :=
  fun _ row' h => ⟨row', h, rfl, rfl, id⟩

theorem fewer_revoke (sessions : Uuid → Option UserSession) (p : Uuid → UserSession → Bool) :
    Fewer sessions (revoke sessions p) := by
  intro i row' h
  obtain ⟨row, hrow, rfl⟩ := Option.map_eq_some_iff.mp h
  refine ⟨row, hrow, ?_⟩
  by_cases hp : p i row = true
  · simp [hp]
  · simp [hp]

theorem fewer_filter (sessions : Uuid → Option UserSession) (p : UserSession → Bool) :
    Fewer sessions fun i => (sessions i).filter p :=
  fun _ row' h => ⟨row', (Option.filter_eq_some_iff.mp h).1, rfl, rfl, id⟩

theorem Fewer.later {s s' : AuthDb} (h : Fewer s.sessions s'.sessions) (hn : s'.now = s.now)
    (hu : ∀ i ∈ s.used, i ∈ s'.used) (hi : s'.issued = s.issued) : Later s s' := by
  refine ⟨by omega, hu, fun t ht => hi ▸ ht, fun i hc => ⟨hu i hc.1, fun row' hrow' => ?_⟩⟩
  obtain ⟨row, hrow, _, hexp, hrev⟩ := h i row' hrow'
  rcases hc.2 row hrow with hr | he
  · exact Or.inl (hrev hr)
  · exact Or.inr (by omega)

theorem Did.later {verify : String → String → Bool} {s s' : AuthDb} {o : AuthOp} {r : Except Exc o.Ret}
    (h : Did verify s o r s') : Later s s' := by
  cases h with
  | stamped => exact Fewer.later (.refl _) rfl (fun _ h => h) rfl
  | created => exact Fewer.later (.refl _) rfl (fun _ h => List.mem_cons_of_mem _ h) rfl
  | revokedOne => exact (fewer_revoke _ _).later rfl (fun _ h => h) rfl
  | revokedAll | passwordSet | roleSet => exact (fewer_revoke _ _).later rfl (fun _ h => h) rfl
  | deleted => exact (fewer_filter _ _).later rfl (fun _ h => h) rfl
  | signed => exact ⟨Int.le_refl _, fun _ h => h, fun _ h => List.mem_cons_of_mem _ h, fun _ h => h⟩
  | @opened userId sessionId expiresAt hf hu =>
    refine ⟨Int.le_refl _, fun _ h => List.mem_cons_of_mem _ h, fun _ h => h, fun i hc => ?_⟩
    have hne : i ≠ sessionId := by
      intro h
      subst h
      exact hf hc.1
    refine ⟨List.mem_cons_of_mem _ hc.1, fun row hrow => hc.2 row ?_⟩
    rw [← hrow]
    exact (put_ne _ _ hne).symm
  | _ => exact .refl s

/-- Time only closes sessions. -/
theorem later_tick (s : AuthDb) (microseconds : Nat) : Later s { s with now := s.now + microseconds } := by
  refine ⟨by show s.now ≤ s.now + microseconds; omega, fun _ h => h, fun _ h => h,
    fun i hc => ⟨hc.1, fun row hrow => ?_⟩⟩
  refine (hc.2 row hrow).imp_right fun he => ?_
  show row.expiresAt ≤ s.now + microseconds
  omega

theorem updateUser_isSome (s : AuthDb) (userId i : Uuid) (f : User → User) :
    (s.updateUser userId f).users i ≠ none ↔ s.users i ≠ none := by
  show (if i = userId then (s.users i).map f else s.users i) ≠ none ↔ _
  split
  · simp
  · rfl

/-- A write that changes rows of users and revokes sessions keeps the tables well formed. -/
theorem AuthDb.WellFormed.moved {s s' : AuthDb} (h : s.WellFormed) (hu : ∀ i, s'.users i ≠ none ↔ s.users i ≠ none)
    (hs : Fewer s.sessions s'.sessions) (hused : s'.used = s.used) (hi : s'.issued = s.issued) : s'.WellFormed := by
  refine ⟨hused ▸ h.distinct, fun i hne => hused ▸ h.users i ((hu i).mp hne), fun i row' hrow' => ?_, ?_⟩
  · obtain ⟨row, hrow, he, _⟩ := hs i row' hrow'
    obtain ⟨h1, h2⟩ := h.sessions i row hrow
    exact ⟨hused ▸ h1, (hu _).mpr (by rw [he]; exact h2)⟩
  · rw [hi, hused]
    exact h.issued

/-- A token is signed for the id of a session. -/
def SignsUsed (s : AuthDb) : AuthOp → Prop
  | .jwtEncode _ _ _ jti _ => ∃ i ∈ s.used, jti = i.str
  | _ => True

theorem Did.wellFormed {verify : String → String → Bool} {s s' : AuthDb} {o : AuthOp} {r : Except Exc o.Ret}
    (h : Did verify s o r s') (hw : s.WellFormed) (ho : SignsUsed s o) : s'.WellFormed := by
  have hlater := h.later
  cases h with
  | stamped userId => exact hw.moved (fun i => updateUser_isSome s userId i _) (.refl _) rfl rfl
  | revokedOne => exact hw.moved (fun _ => Iff.rfl) (fewer_revoke _ _) rfl rfl
  | revokedAll => exact hw.moved (fun _ => Iff.rfl) (fewer_revoke _ _) rfl rfl
  | @passwordSet userId => exact hw.moved (fun i => updateUser_isSome s userId i _) (fewer_revoke _ _) rfl rfl
  | @roleSet userId => exact hw.moved (fun i => updateUser_isSome s userId i _) (fewer_revoke _ _) rfl rfl
  | @deleted userId =>
    refine ⟨hw.distinct, fun i hne => ?_, fun i row hrow => ?_, hw.issued⟩
    · by_cases e : i = userId
      · exact absurd (if_pos e) hne
      · exact hw.users i fun hn => hne ((if_neg e).trans hn)
    · obtain ⟨hrow, hp⟩ := Option.filter_eq_some_iff.mp hrow
      obtain ⟨h1, h2⟩ := hw.sessions i row hrow
      refine ⟨h1, ?_⟩
      show (if row.userId = userId then none else s.users row.userId) ≠ none
      rw [if_neg (by simpa using hp)]
      exact h2
  | @created id email hash name isAdmin hf =>
    refine ⟨List.nodup_cons.mpr ⟨hf, hw.distinct⟩, fun i hne => ?_, fun i row hrow => ?_, fun t ht => ?_⟩
    · by_cases e : i = id
      · rw [e]; exact List.mem_cons_self
      · exact List.mem_cons_of_mem _ (hw.users i fun hn => hne ((put_ne _ _ e).trans hn))
    · obtain ⟨h1, h2⟩ := hw.sessions i row hrow
      refine ⟨List.mem_cons_of_mem _ h1, ?_⟩
      have hne : row.userId ≠ id := by
        intro e
        rw [e] at h2
        exact hf (hw.users _ h2)
      show put s.users id _ row.userId ≠ none
      rw [put_ne _ _ hne]
      exact h2
    · obtain ⟨i, hi, he⟩ := hw.issued t ht
      exact ⟨i, List.mem_cons_of_mem _ hi, he⟩
  | @opened userId sessionId expiresAt hf hu =>
    refine ⟨List.nodup_cons.mpr ⟨hf, hw.distinct⟩, fun i hne => List.mem_cons_of_mem _ (hw.users i hne),
      fun i row hrow => ?_, fun t ht => ?_⟩
    · by_cases e : i = sessionId
      · subst e
        have hrow : put s.sessions i _ i = some row := hrow
        rw [put_same] at hrow
        cases hrow
        refine ⟨List.mem_cons_self, fun hn => ?_⟩
        have hn : s.users userId = none := hn
        rw [hn] at hu
        cases hu
      · have hrow : put s.sessions sessionId _ i = some row := hrow
        rw [put_ne _ _ e] at hrow
        obtain ⟨h1, h2⟩ := hw.sessions i row hrow
        exact ⟨List.mem_cons_of_mem _ h1, h2⟩
    · obtain ⟨i, hi, he⟩ := hw.issued t ht
      exact ⟨i, List.mem_cons_of_mem _ hi, he⟩
  | signed sub email isAdmin jti exp =>
    refine ⟨hw.distinct, hw.users, hw.sessions, fun t ht => ?_⟩
    rcases List.mem_cons.mp ht with rfl | ht
    · exact ho
    · exact hw.issued t ht
  | _ => exact hw

/-! ## Every token is signed for a session that was inserted -/

section Law

variable (cfg : AuthConfig) (allowed : Request → Bool)

abbrev AuthWorld := World (authSystem cfg allowed)

/-- A process keeps the tables well formed and forgets no id. -/
def authGuar (w w' : AuthWorld cfg allowed) : Prop := w'.st.WellFormed ∧ Later w.st w'.st

abbrev authLaw (pid : Nat) : Law (AuthWorld cfg allowed) authSig Exc :=
  (authSystem cfg allowed).law (fun w => w.st.WellFormed) (fun _ w w' => Later w.st w'.st)
    (fun _ => authGuar cfg allowed) (fun _ _ _ _ => True) pid

variable {cfg} {allowed} {pid : Nat} {w w' : AuthWorld cfg allowed}

theorem act_did {o : AuthOp} {r : Except Exc o.Ret} (ha : (authLaw cfg allowed pid).act w o r w') :
    Did cfg.verify w.st o r w'.st := by
  obtain ⟨_, s, hx, rfl⟩ := ha
  exact exec_did hx

theorem act_guar {o : AuthOp} {r : Except Exc o.Ret} (hi : w.st.WellFormed) (ho : SignsUsed w.st o)
    (ha : (authLaw cfg allowed pid).act w o r w') : authGuar cfg allowed w w' :=
  ⟨(act_did ha).wellFormed hi ho, (act_did ha).later⟩

/-- A coroutine that signs nothing keeps the law. -/
theorem wp_unsigned {α : Type} {p : AuthProg α} (hp : p.Uses fun o : AuthOp => ∀ s, SignsUsed s o) :
    wp (authLaw cfg allowed pid) p (fun _ _ => True) w :=
  wp_uses (P := fun _ => True) (fun _ _ _ _ => trivial)
    (fun w _ _ _ ho _ hi ha => ⟨act_guar hi (ho w.st) ha, trivial⟩) hp
    trivial

theorem reads_unsigned (o : AuthOp) (h : o.reads = true) (s : AuthDb) : SignsUsed s o := by
  cases o with
  | jwtEncode => cases h
  | _ => trivial

theorem wp_createAccessToken {userId email : String} {isAdmin : Bool} :
    wp (authLaw cfg allowed pid) (createAccessToken cfg userId email isAdmin) (fun _ _ => True) w := by
  refine wp_seq (wp_unsigned (uses_op .now fun _ => trivial)) (fun _ _ _ => trivial) fun now w _ => ?_
  refine wp_seq (wp_unsigned (uses_parseUuid _ _)) (fun _ _ _ => trivial) fun id w _ => ?_
  refine wp_bind.mpr (wp_await fun w₁ _ hi r w₂ ha => ⟨act_guar (o := .createSession _ _) hi trivial ha, ?_⟩)
  cases r with
  | error e => trivial
  | ok sessionId =>
    have hused : sessionId ∈ w₂.st.used := by
      have hd := act_did (o := .createSession _ _) ha
      generalize w₂.st = t at hd ⊢
      cases hd
      exact List.mem_cons_self
    refine wp_await fun w₃ hr hi' r w₄ ha' => ⟨act_guar (o := .jwtEncode _ _ _ _ _) hi' ?_ ha', trivial⟩
    exact ⟨sessionId, hr.used _ hused, rfl⟩

/-- Only login and registration sign a token. -/
theorem wp_code (request : Request) : wp (authLaw cfg allowed pid) (request.code cfg) (fun _ _ => True) w := by
  have hother : (∀ o, request.writes o = true → ∀ s, SignsUsed s o) →
      wp (authLaw cfg allowed pid) (request.code cfg) (fun _ _ => True) w := by
    intro h
    refine wp_unsigned ((uses_code request).mono fun o ho => ?_)
    rcases Bool.or_eq_true_iff.mp ho with hr | hw
    · exact reads_unsigned o hr
    · exact h o hw
  cases request with
  | login email password =>
    refine wp_seq (wp_unsigned (uses_authenticateUser reads_unsigned (fun _ _ => trivial) email password))
      (fun _ _ _ => trivial)
      fun user w _ => ?_
    cases user with
    | error error => trivial
    | ok user => exact wp_seq wp_createAccessToken (fun _ _ _ => trivial) fun _ _ _ => trivial
  | register email password displayName =>
    show wp (authLaw cfg allowed pid) (register cfg email password displayName) _ w
    unfold register
    split
    · trivial
    refine wp_seq (wp_unsigned (uses_registerUser reads_unsigned fun _ _ => trivial)) (fun _ _ _ => trivial)
      fun user w _ => ?_
    cases user with
    | error error => trivial
    | ok user => exact wp_seq wp_createAccessToken (fun _ _ _ => trivial) fun _ _ _ => trivial
  | logout | changePassword | invite | changeUserRole | deleteUser | logoutAll =>
    refine hother fun o ho s => ?_
    cases o with
    | jwtEncode => cases ho
    | _ => trivial

variable (cfg) (allowed) in
def authSound : Sound (authSystem cfg allowed) any where
  inv w := w.st.WellFormed
  rely _ w w' := Later w.st w'.st
  guar _ _ := authGuar cfg allowed
  allow _ _ _ _ := True
  post _ _ _ _ := True
  refl _ w := .refl w.st
  trans _ _ _ _ := .trans
  init _ hs := hs
  keep _ _ _ _ _ hg := hg.1
  others _ _ _ _ _ _ _ hg := hg.2
  outside w e s hi hx := by
    cases hx
    exact ⟨⟨hi.distinct, hi.users, hi.sessions, hi.issued⟩, fun _ => later_tick w.st e⟩
  allowed _ _ _ := trivial
  stable _ _ _ _ _ _ _ := trivial
  code _ request _ _ _ _ := wp_code request

end Law

/-! ## Runs -/

variable {cfg : AuthConfig} {allowed : Request → Bool}

theorem wellFormed {c : Config (authSystem cfg allowed)} (h : Reach any c) : c.w.st.WellFormed :=
  ((authSound cfg allowed).keeps h).1

theorem step_later (c : Config (authSystem cfg allowed)) (ch : Choice (authSystem cfg allowed)) :
    Later c.w.st (step c ch).w.st := by
  have hm := step_moved c ch
  revert hm
  generalize step c ch = c'
  intro hm
  cases hm with
  | idle => exact .refl _
  | ran _ hx => exact (exec_did hx).later
  | crashed => exact .refl _
  | started => exact .refl _
  | @moved e _ _ hx =>
    cases hx
    exact later_tick _ e

theorem run_later {s : AuthDb} (f : Sched (authSystem cfg allowed)) {n m : Nat} (h : n ≤ m) :
    Later (conf s f n).w.st (conf s f m).w.st := by
  induction m with
  | zero =>
    cases Nat.le_zero.mp h
    exact .refl _
  | succ m ih =>
    by_cases e : n = m + 1
    · rw [e]; exact .refl _
    · exact (ih (by omega)).trans (step_later _ _)

/-! ## decode_token -/

/-- A call of `decode_token` that runs at one moment and does not raise. -/
def Decodes (cfg : AuthConfig) (s : AuthDb) (token : Token) (x : Option Token) : Prop :=
  ∃ s', Runs (authRequests cfg) 0 (decodeToken cfg token) s (.ok x) s'

/-- An operation that runs alone. -/
theorem runs_did {o : AuthOp} {s s' : AuthDb} {x : Except Exc o.Ret}
    (h : Runs (authRequests cfg) 0 (@Prog.await authSig Exc o) s x s') :
    Did cfg.verify s o x s' := exec_did (Runs.await_iff.mp h)

theorem runs_read {o : AuthOp} (ho : o.reads = true) {s s' : AuthDb} {x : Except Exc o.Ret}
    (h : Runs (authRequests cfg) 0 (@Prog.await authSig Exc o) s x s') : s' = s ∧ Did cfg.verify s o x s := by
  have hd : Did cfg.verify s o x s' := runs_did h
  cases hd.of_reads ho
  exact ⟨rfl, hd⟩

theorem read_runs {o : AuthOp} {s : AuthDb} {a : o.Ret} (h : s.exec cfg.verify o (.ok a) = some s) :
    Runs (authRequests cfg) 0 (@Prog.await authSig Exc o) s (.ok a) s := Runs.await_iff.mpr h

theorem jwtDecode_runs {s s' : AuthDb} {token : Token} {x : Option Token} :
    Runs (authRequests cfg) 0 (jwtDecode token) s (.ok x) s' ↔
    s' = s ∧ x = if s.decodes token then some token else none := by
  constructor
  · intro h
    obtain ⟨rfl, hd⟩ := runs_read (o := .jwtDecode token) rfl h
    cases hd
    exact ⟨rfl, rfl⟩
  · intro h
    obtain ⟨rfl, rfl⟩ := h
    exact read_runs (o := .jwtDecode token) (if_pos rfl)

theorem getActiveSession_runs {s s' : AuthDb} {id : Uuid} {x : Option UserSession} :
    Runs (authRequests cfg) 0 (getActiveSession id) s (.ok x) s' ↔ s' = s ∧ x = s.activeSession id := by
  constructor
  · intro h
    obtain ⟨rfl, hd⟩ := runs_read (o := .getActiveSession id) rfl h
    cases hd
    exact ⟨rfl, rfl⟩
  · intro h
    obtain ⟨rfl, rfl⟩ := h
    exact read_runs (o := .getActiveSession id) (if_pos rfl)

/-- `decode_token` accepts the token. -/
def AuthDb.accepts (s : AuthDb) (token : Token) (id : Uuid) : Bool := s.decodes token && (s.activeSession id).isSome

theorem str_ne_empty (id : Uuid) : id.str ≠ "" := by
  intro h
  have hs := Uuid.ofString_str ⟨fun _ => none, fun _ => false⟩ id
  rw [h] at hs
  cases hs

/-- A call of `decode_token` that runs alone leaves the tables as they are. -/
theorem decodeToken_runs {s s' : AuthDb} {token : Token} {id : Uuid} (hj : token.jti = id.str) {x : Option Token} :
    Runs (authRequests cfg) 0 (decodeToken cfg token) s (.ok x) s' ↔
      s' = s ∧ x = if s.accepts token id then some token else none := by
  have hjti : ¬ token.jti = "" := by rw [hj]; exact str_ne_empty id
  have hparse : parseUuid cfg.unicode token.jti = .ret id := by rw [hj]; exact parseUuid_str _ id
  unfold decodeToken AuthDb.accepts
  refine Runs.bind_ok.trans ⟨?_, ?_⟩
  · intro h
    obtain ⟨payload, s₁, h1, h2⟩ := h
    obtain ⟨rfl, rfl⟩ := jwtDecode_runs.mp h1
    cases hd : s₁.decodes token with
    | false =>
      rw [hd] at h2
      obtain ⟨hx, rfl⟩ := Runs.ret_iff.mp h2
      cases hx
      exact ⟨rfl, rfl⟩
    | true =>
      simp only [hd, if_true, if_neg hjti, hparse, Prog.bind_def, Prog.ret_bind] at h2
      obtain ⟨row, s₂, h3, h4⟩ := Runs.bind_ok.mp h2
      obtain ⟨rfl, rfl⟩ := getActiveSession_runs.mp h3
      cases ha : s₂.activeSession id with
      | none =>
        rw [ha] at h4
        obtain ⟨hx, rfl⟩ := Runs.ret_iff.mp h4
        cases hx
        exact ⟨rfl, rfl⟩
      | some row =>
        rw [ha] at h4
        obtain ⟨hx, rfl⟩ := Runs.ret_iff.mp h4
        cases hx
        exact ⟨rfl, rfl⟩
  · intro h
    obtain ⟨rfl, rfl⟩ := h
    refine ⟨_, s', jwtDecode_runs.mpr ⟨rfl, rfl⟩, ?_⟩
    cases hd : s'.decodes token with
    | false => exact Runs.ret_iff.mpr ⟨rfl, rfl⟩
    | true =>
      simp only [if_true, if_neg hjti, hparse, Prog.bind_def, Prog.ret_bind, Bool.true_and]
      refine Runs.bind_ok.mpr ⟨_, s', getActiveSession_runs.mpr ⟨rfl, rfl⟩, ?_⟩
      cases s'.activeSession id with
      | none => exact Runs.ret_iff.mpr ⟨rfl, rfl⟩
      | some row => exact Runs.ret_iff.mpr ⟨rfl, rfl⟩

theorem decodes_iff {s : AuthDb} {token : Token} {id : Uuid} (hj : token.jti = id.str) {x : Option Token} :
    Decodes cfg s token x ↔ x = if s.accepts token id then some token else none :=
  ⟨fun ⟨_, h⟩ => ((decodeToken_runs hj).mp h).2, fun h => ⟨s, (decodeToken_runs hj).mpr ⟨rfl, h⟩⟩⟩

/-- Expired, or its session closed. -/
def AuthDb.Rejects (s : AuthDb) (token : Token) (id : Uuid) : Prop := token.exp < seconds s.now ∨ s.Closed id

theorem rejects_iff {s : AuthDb} {token : Token} {id : Uuid} (hi : token ∈ s.issued) (hu : id ∈ s.used) :
    s.accepts token id = false ↔ s.Rejects token id := by
  have hsigned : s.issued.contains token = true := List.contains_iff_mem.mpr hi
  have hclosed : (s.activeSession id).isSome = false ↔ s.Closed id := by
    unfold AuthDb.activeSession AuthDb.Closed
    cases hs : s.sessions id with
    | none => simp [hu]
    | some row =>
      by_cases hr : row.revoked = true
      · simp [Option.filter, hu, hr]
      · simp [Option.filter, hu, hr]
  rw [AuthDb.accepts, AuthDb.decodes, hsigned, Bool.true_and, Bool.and_eq_false_iff, hclosed, AuthDb.Rejects]
  simp

theorem Later.rejects {s s' : AuthDb} (h : Later s s') {token : Token} {id : Uuid} (hr : s.Rejects token id) :
    s'.Rejects token id := by
  rcases hr with he | hc
  · have hs : seconds s.now ≤ seconds s'.now := Int.ediv_le_ediv (by decide) h.now
    exact Or.inl (Int.lt_of_lt_of_le he hs)
  · exact Or.inr (h.closed id hc)

/-- An issued token is accepted only while its row is there, not revoked and not expired;
    once it was rejected it is rejected at every later moment of the run. -/
theorem rejected_stays {s : AuthDb} (hs : s.WellFormed) (f : Sched (authRequests cfg)) {n : Nat} {token : Token}
    (hi : token ∈ (conf s f n).w.st.issued) :
    (∀ payload, Decodes cfg (conf s f n).w.st token (some payload) → ∃ id row, token.jti = id.str ∧
      (conf s f n).w.st.sessions id = some row ∧ row.revoked = false ∧ (conf s f n).w.st.now < row.expiresAt) ∧
    (Decodes cfg (conf s f n).w.st token none → ∀ m, n ≤ m → ∀ x, Decodes cfg (conf s f m).w.st token x ↔
      x = none) := by
  have hreach : Reach any (conf s f n) := conf_reach hs fun _ _ _ _ => trivial
  obtain ⟨id, hu, hj⟩ := (wellFormed hreach).issued token hi
  refine ⟨fun payload hp => ?_, fun hn m hm x => ?_⟩
  · have hp := (decodes_iff hj).mp hp
    split at hp
    · rename_i ha
      obtain ⟨row, hrow⟩ := Option.isSome_iff_exists.mp (Bool.and_eq_true_iff.mp ha).2
      obtain ⟨hrow, hact⟩ := Option.filter_eq_some_iff.mp hrow
      simp only [Bool.and_eq_true, Bool.not_eq_true', decide_eq_true_eq] at hact
      exact ⟨id, row, hj, hrow, hact.1, hact.2⟩
    · cases hp
  · have hn := (decodes_iff hj).mp hn
    have hrej : (conf s f n).w.st.Rejects token id := by
      rw [← rejects_iff hi hu]
      split at hn
      · cases hn
      · rename_i ha
        simpa using ha
    have hlater := run_later (s := s) f hm
    have hrej' := (rejects_iff (hlater.issued _ hi) (hlater.used _ hu)).mpr (hlater.rejects hrej)
    refine (decodes_iff hj).trans ?_
    rw [if_neg (ne_true_of_eq_false hrej')]

/-! ## One token -/

def someConfig : AuthConfig where
  verify password hash := password == hash
  unicode := ⟨fun _ => none, fun _ => false⟩
  lower := id
  accessTokenExpireMinutes := 480
  allowedEmailDomain := none
  disableRegistration := false
  adminEmail := "admin@localhost"
  adminPassword := "admin"

def uuid (n : Nat) : Uuid := ⟨n % 340282366920938463463374607431768211456, Nat.mod_lt _ (by decide)⟩

def someUser : User := ⟨"a@b.c", "Passw0rd", none, false, 0, none⟩

def someToken : Token := ⟨(uuid 1).str, "a@b.c", false, (uuid 2).str, 28800, 0⟩

/-- One user with one session and its token. -/
def oneToken : AuthDb where
  now := 0
  users := put (fun _ => none) (uuid 1) someUser
  sessions := put (fun _ => none) (uuid 2) ⟨uuid 1, 0, 28800000000, false⟩
  used := [uuid 2, uuid 1]
  issued := [someToken]

theorem oneToken_wellFormed : oneToken.WellFormed := by
  refine ⟨by decide, fun i hne => ?_, fun i row hrow => ?_, fun token ht => ?_⟩
  · by_cases e : i = uuid 1
    · rw [e]; decide
    · have hnone : oneToken.users i = none := if_neg e
      exact absurd hnone hne
  · by_cases e : i = uuid 2
    · subst e
      have hsome : oneToken.sessions (uuid 2) = some ⟨uuid 1, 0, 28800000000, false⟩ := by decide
      cases hsome.symm.trans hrow
      exact ⟨by decide, by decide⟩
    · have hnone : oneToken.sessions i = none := if_neg e
      cases hnone.symm.trans hrow
  · cases List.mem_singleton.mp ht
    exact ⟨uuid 2, by decide, rfl⟩

/-- The statements answer as they must; `fresh` is the next `uuid4`. -/
def obey (fresh : Uuid) (s : AuthDb) : (o : AuthOp) → Except Exc o.Ret
  | .jwtDecode token => .ok (if s.decodes token then some token else none : Option Token)
  | .getActiveSession sessionId => .ok (s.activeSession sessionId)
  | .getByEmail email =>
    .ok (s.used.findSome? fun i => ((s.users i).filter (·.email == email)).map fun user => (i, user) :
      Option (Uuid × User))
  | .getUser userId => .ok (s.users userId)
  | .updateLastLogin _ => .ok ()
  | .refreshUser userId =>
    match s.users userId with
    | some user => .ok user
    | none => .error (.exception "Could not refresh instance")
  | .now => .ok s.now
  | .createSession _ _ => .ok fresh
  | .jwtEncode sub email isAdmin jti exp => .ok (⟨sub, email, isAdmin, jti, seconds exp, seconds s.now⟩ : Token)
  | .hashPassword password => .ok password
  | .tokenUrlsafe => .ok "token"
  | .createUser email passwordHash displayName isAdmin =>
    .ok (fresh, s.newUser email passwordHash displayName isAdmin)
  | .revokeSession sessionId => .ok (s.sessions sessionId).isSome
  | .revokeAllUserSessions userId => .ok (s.liveSessions userId)
  | .updatePassword userId _ => .ok (s.users userId).isSome
  | .updateRole _ _ _ => .ok ()
  | .deleteUser userId => .ok (s.users userId).isSome
  | .countUsers => .ok s.countUsers
  | .listUsers limit =>
    .ok ((s.used.filterMap fun i => (s.users i).map fun user => (i, user)).take limit : List (Uuid × User))

attribute [local semireducible] parseUuid

/-- The user logs out with the token and logs in again; then the clock goes on. -/
def loggedOut : Sched (authRequests someConfig) := sched
  ([.start (.logout (some someToken))] ++ List.replicate 3 (.run 0 (obey (uuid 3))) ++
    [.start (.login "a@b.c" "Passw0rd")] ++
    List.replicate 6 (.run 1 (obey (uuid 3))))
  (.env (1000000 : Nat))

theorem rejected_stays_loggedOut :
    Decodes someConfig (conf oneToken loggedOut 3).w.st someToken (some someToken) ∧
      ∀ m, 4 ≤ m → Decodes someConfig (conf oneToken loggedOut m).w.st someToken none := by
  have hrejected : Decodes someConfig (conf oneToken loggedOut 4).w.st someToken none :=
    (@decodes_iff someConfig _ someToken (uuid 2) rfl none).mpr (by decide)
  refine ⟨(@decodes_iff someConfig _ someToken (uuid 2) rfl _).mpr (by decide), fun m hm => ?_⟩
  exact ((rejected_stays oneToken_wellFormed loggedOut (by decide)).2 hrejected m hm none).mpr rfl

end Connect.Auth
