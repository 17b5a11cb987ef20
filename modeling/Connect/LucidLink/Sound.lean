/-
  Connect.LucidLink.Sound — `ensure_structure` against any server.

  Every request is answered by any response or exception. A create is for the path that
  was resolved last before it; `attributed` gives every call of a run its path that way.

  The proof has two levels. `Round` says what the attempts at one segment send and what
  they come to, `Rounds` how a run over the segments is made of them; what the run then
  satisfies (`EnsureSpec`) is read off `Rounds` by induction.
-/

import Connect.LucidLink.Client

namespace Connect.LucidLink

open Await

abbrev HttpCall := Call httpSig Exc

/-! ## Ids in answers -/

/-- The id a resolve was answered with. -/
def resolvedId : Except Exc Response → Option Json
  | .ok resp => (resolved resp).toOption.filter Json.truthy
  | .error _ => none

/-- The id a create was answered with. -/
def madeId : Except Exc Response → Option Json
  | .ok resp =>
    if resp.statusCode = 200 ∨ resp.statusCode = 201 then (resp.json.bind folderId).toOption.filter Json.truthy
    else none
  | .error _ => none

namespace HttpCall

def path : HttpCall → Option String
  | ⟨.get _ _ path, _⟩ => some path
  | _ => none

def payload : HttpCall → Option (List (String × Json))
  | ⟨.post _ _ payload, _⟩ => some payload
  | _ => none

def id : HttpCall → Option Json
  | ⟨.get _ _ _, ans⟩ => resolvedId ans
  | ⟨.post _ _ _, ans⟩ => madeId ans
  | ⟨.sleep _, _⟩ => none

end HttpCall

/-- The calls, each with the path that was resolved last. -/
def attributed : String → List HttpCall → List (String × HttpCall)
  | _, [] => []
  | last, call :: rest => ((HttpCall.path call).getD last, call) :: attributed ((HttpCall.path call).getD last) rest

def lastPath (last : String) (calls : List HttpCall) : String :=
  calls.foldl (fun p call => (HttpCall.path call).getD p) last

theorem attributed_append (last : String) (xs ys : List HttpCall) :
    attributed last (xs ++ ys) = attributed last xs ++ attributed (lastPath last xs) ys := by
  induction xs generalizing last with
  | nil => rfl
  | cons x xs ih =>
    rw [List.cons_append, attributed, ih]
    rfl

/-- An answer to a request about `path` carried an id. -/
def Answered (path : String) (calls : List (String × HttpCall)) (id : Json) : Prop :=
  ∃ call, (path, call) ∈ calls ∧ HttpCall.id call = some id

theorem Answered.mono {path : String} {xs ys : List (String × HttpCall)} {id : Json} (hsub : ∀ t ∈ xs, t ∈ ys)
    (h : Answered path xs id) : Answered path ys id := by
  obtain ⟨call, hcall, hid⟩ := h
  exact ⟨call, hsub _ hcall, hid⟩

/-- A member of two lists joined is a member of the second or of the first. -/
theorem split_append {α : Type} {xs ys before after : List α} {a : α} (h : xs ++ ys = before ++ a :: after) :
    (∃ rest, before = xs ++ rest ∧ ys = rest ++ a :: after) ∨ ∃ rest, xs = before ++ a :: rest := by
  rcases List.append_eq_append_iff.mp h with ⟨rest, hb, hy⟩ | ⟨rest, hx, ha⟩
  · exact Or.inl ⟨rest, hb, hy⟩
  · cases rest with
    | nil => exact Or.inl ⟨[], by simpa using hx.symm, by simpa using ha.symm⟩
    | cons b rest =>
      obtain ⟨rfl, rfl⟩ := List.cons.inj ha
      exact Or.inr ⟨rest, hx⟩

/-! ## Requests -/

/-- What a `try` around a request comes to. -/
def outcome {ρ α : Type} (read : ρ → Read α) (f : Exc → α) : Except Exc ρ → Except Exc α
  | .ok resp =>
    match read resp with
    | .ok a => .ok a
    | .error text => .ok (f (.exception text))
  | .error e => if e.isException then .ok (f e) else .error e

section Requests

variable {γ : Type} {M : System httpSig Exc γ} {R : M.State → M.State → Prop} {pid : Nat} {s s' : M.State}
  {calls : List HttpCall} {c : Client}

theorem exec_onException {α : Type} {f : Exc → α} {e : Exc} {x : Except Exc α}
    (h : Exec M R pid (onException f e) s calls x s') :
    calls = [] ∧ x = if e.isException then .ok (f e) else .error e := by
  unfold onException at h
  split at h
  · exact ⟨h.1, by rw [if_pos ‹_›]; exact h.2.1⟩
  · exact ⟨h.1, by rw [if_neg ‹_›]; exact h.2.1⟩

/-- A request whose answer is read in a `try`. -/
theorem exec_request {α : Type} {o : HttpOp} {read : httpSig.Ret o → Read α} {f : Exc → α} {x : Except Exc α}
    (h : Exec M R pid (((@Prog.await httpSig Exc o).bind fun resp => raising (read resp)).catching
      (onException f)) s calls x s') :
    ∃ ans, calls = [⟨o, ans⟩] ∧ x = outcome read f ans := by
  obtain ⟨_, ans, _, rest, _, _, rfl, hk⟩ := h
  refine ⟨ans, ?_⟩
  cases ans with
  | error e =>
    obtain ⟨rfl, rfl⟩ := exec_onException hk
    exact ⟨rfl, rfl⟩
  | ok resp =>
    simp only [outcome]
    cases hr : read resp with
    | ok a =>
      simp only [Prog.bind, raising, hr] at hk
      exact ⟨by rw [hk.1], hk.2.1⟩
    | error text =>
      simp only [Prog.bind, raising, hr] at hk
      obtain ⟨rfl, rfl⟩ := exec_onException hk
      exact ⟨rfl, rfl⟩

theorem exec_getIdByPath (hb : c.baseUrl ≠ "") {path : String} {x : Except Exc Json}
    (h : Exec M R pid (getIdByPath c path) s calls x s') :
    ∃ ans, calls = [⟨.get (c.baseUrl ++ "/entries/resolve") c.getHeaders path, ans⟩] ∧
    x = outcome resolved (fun _ => .null) ans := by
  rw [getIdByPath, if_neg hb] at h
  exact exec_request h

theorem exec_createFolder (hb : c.baseUrl ≠ "") {name : String} {parentId : Json} {x : Except Exc (Json × String)}
    (h : Exec M R pid (createFolder c name parentId) s calls x s') :
    ∃ ans, calls = [⟨.post (c.baseUrl ++ "/entries") c.getHeaders (folderPayload name parentId), ans⟩] ∧
      x = outcome created (fun e => (.null, e.text)) ans := by
  rw [createFolder, if_neg hb] at h
  exact exec_request h

end Requests

/-- The id a resolve hands on is the one in its answer. -/
theorem outcome_resolved {ans : Except Exc Response} {id : Json}
    (h : outcome resolved (fun _ => .null) ans = .ok id) :
    resolvedId ans = if id.truthy then some id else none := by
  cases ans with
  | error e =>
    simp only [outcome] at h
    split at h <;> cases h
    rfl
  | ok resp =>
    simp only [outcome] at h
    cases hr : resolved resp with
    | ok a =>
      rw [hr] at h
      cases h
      simp [resolvedId, hr, Option.filter, Except.toOption]
    | error text =>
      rw [hr] at h
      cases h
      simp [resolvedId, hr, Except.toOption, Json.truthy]

/-- The id a create hands on is the one in its answer, where that is not the mark of a conflict. -/
theorem outcome_created {ans : Except Exc Response} {made : Json × String}
    (hc : ∀ id, madeId ans = some id → isConflict id = false)
    (h : outcome created (fun e => (.null, e.text)) ans = .ok made) :
    madeId ans = if made.1.truthy && !isConflict made.1 then some made.1 else none := by
  cases ans with
  | error e =>
    simp only [outcome] at h
    split at h <;> cases h
    rfl
  | ok resp =>
    simp only [outcome, created] at h
    by_cases hs : resp.statusCode = 200 ∨ resp.statusCode = 201
    · simp only [madeId, if_pos hs] at hc ⊢
      rw [if_pos hs] at h
      cases hj : resp.json.bind folderId with
      | error text =>
        rw [hj] at h
        cases h
        rfl
      | ok id =>
        rw [hj] at h
        cases h
        cases ht : id.truthy with
        | false => simp [Except.toOption, ht]
        | true =>
          have hid := hc id (by simp [hj, Except.toOption, ht])
          simp [Except.toOption, ht, hid]
    · rw [if_neg hs] at h
      simp only [madeId, if_neg hs]
      by_cases h4 : resp.statusCode = 409
      · rw [if_pos h4] at h
        cases h
        rfl
      · rw [if_neg h4] at h
        cases h
        rfl

/-! ## The attempts at one segment -/

/-- No create was answered with the mark of a conflict for an id. -/
def NoConflictId (calls : List HttpCall) : Prop :=
  ∀ call ∈ calls, ∀ id, HttpCall.id call = some id → isConflict id = false

/-- What at most `n` attempts at the folder `path` send. -/
structure Round (n : Nat) (path folder : String) (parentId : Json) (calls : List HttpCall) : Prop where
  here : attributed path calls = calls.map fun call => (path, call)
  sent : ∀ call ∈ calls, ∀ payload, HttpCall.payload call = some payload → payload = folderPayload folder parentId
  few : (calls.filter fun call => (HttpCall.payload call).isSome).length ≤ n

/-- What they come to. -/
def Tried.Fits (calls : List HttpCall) : Except Exc Tried → Prop
  | .ok ⟨some id, _⟩ => id.truthy = true ∧ ∃ call ∈ calls, HttpCall.id call = some id
  | .ok ⟨none, _⟩ => ∀ call ∈ calls, HttpCall.id call = none
  | .error _ => True

namespace Round

variable {n : Nat} {path folder : String} {parentId : Json} {calls : List HttpCall}

theorem nil : Round n path folder parentId [] := ⟨rfl, nofun, Nat.zero_le _⟩

theorem mono {m : Nat} (hn : n ≤ m) (h : Round n path folder parentId calls) : Round m path folder parentId calls :=
  ⟨h.here, h.sent, Nat.le_trans h.few hn⟩

/-- A resolve of the path, or a pause. -/
theorem quiet {call : HttpCall} (hpath : (HttpCall.path call).getD path = path) (hpay : HttpCall.payload call = none)
    (h : Round n path folder parentId calls) : Round n path folder parentId (call :: calls) := by
  refine ⟨?_, fun first hc payload hp => ?_, ?_⟩
  · rw [attributed, hpath, h.here]
    rfl
  · rcases List.mem_cons.mp hc with rfl | hc
    · rw [hpay] at hp
      cases hp
    · exact h.sent first hc payload hp
  · rw [List.filter_cons_of_neg (by simp [hpay])]
    exact h.few

theorem create {url : String} {headers : List (String × String)} {ans : Except Exc Response}
    (h : Round n path folder parentId calls) :
    Round (n + 1) path folder parentId (⟨.post url headers (folderPayload folder parentId), ans⟩ :: calls) := by
  refine ⟨?_, fun first hc payload hp => ?_, Nat.succ_le_succ h.few⟩
  · rw [attributed]
    simp only [HttpCall.path, Option.getD_none, h.here]
    rfl
  · rcases List.mem_cons.mp hc with rfl | hc
    · cases hp
      rfl
    · exact h.sent first hc payload hp

end Round

/-- A call without an id in front changes nothing. -/
theorem Tried.Fits.cons {call : HttpCall} {calls : List HttpCall} {x : Except Exc Tried}
    (hcall : HttpCall.id call = none) (h : Tried.Fits calls x) : Tried.Fits (call :: calls) x := by
  rcases x with e | ⟨_ | id, lastError⟩
  · trivial
  · intro first hf
    rcases List.mem_cons.mp hf with rfl | hf
    · exact hcall
    · exact h first hf
  · obtain ⟨ht, first, hf, hid⟩ := h
    exact ⟨ht, first, List.mem_cons_of_mem _ hf, hid⟩

section Runs

variable {γ : Type} {M : System httpSig Exc γ} {R : M.State → M.State → Prop} {pid : Nat} {s s' : M.State}
  {calls : List HttpCall} {c : Client}

theorem exec_sleep {ms : Nat} {x : Except Exc Unit} (h : Exec M R pid (sleep ms) s calls x s') :
    calls = [⟨.sleep ms, x⟩] := by
  obtain ⟨_, _, _, _, _, hcalls⟩ := exec_await h
  exact hcalls

theorem exec_tryFolder (hR : ∀ s, R s s) (hb : c.baseUrl ≠ "") {folder path : String} {currId : Json}
    {n : Nat} {lastError : String}
    {x : Except Exc Tried} (h : Exec M R pid (tryFolder c folder path currId n lastError) s calls x s')
    (hc : NoConflictId calls) :
    Round n path folder currId calls ∧ (∀ last, attributed last calls = attributed path calls) ∧
    Tried.Fits calls x := by
  induction n generalizing s calls lastError with
  | zero =>
    obtain ⟨rfl, rfl, _⟩ := h
    exact ⟨.nil, fun _ => rfl, nofun⟩
  | succ n ih =>
    rcases exec_bind hR h with ⟨e, rfl, hget⟩ | ⟨eid, s₁, first, rest, rfl, hget, hk⟩
    · obtain ⟨ans, rfl, _⟩ := exec_getIdByPath hb hget
      exact ⟨.quiet rfl rfl .nil, fun _ => rfl, trivial⟩
    obtain ⟨ans, rfl, hans⟩ := exec_getIdByPath hb hget
    have hid := outcome_resolved hans.symm
    by_cases ht : eid.truthy = true
    · -- found
      rw [if_pos ht] at hk hid
      obtain ⟨rfl, rfl, _⟩ := hk
      exact ⟨.quiet rfl rfl .nil, fun _ => rfl, ht, _, List.mem_cons_self, hid⟩
    rw [if_neg ht] at hk hid
    rcases exec_bind hR hk with ⟨e, rfl, hpost⟩ | ⟨made, s₂, second, rest, rfl, hpost, hthen⟩
    · obtain ⟨_, rfl, _⟩ := exec_createFolder hb hpost
      exact ⟨.quiet rfl rfl (.mono (Nat.succ_le_succ (Nat.zero_le n)) (.create .nil)), fun _ => rfl, trivial⟩
    obtain ⟨ans', rfl, hans'⟩ := exec_createFolder hb hpost
    have hmade := outcome_created (hc ⟨.post _ _ _, ans'⟩ (by simp)) hans'.symm
    -- what follows a create that gave no id
    have hrest : ∀ {ms : Nat} {message : String},
        Exec M R pid ((sleep ms).bind fun _ => tryFolder c folder path currId n message) s₂ rest x s' →
        Round n path folder currId rest ∧ Tried.Fits rest x := by
      intro ms message hpause
      rcases exec_bind hR hpause with ⟨e, rfl, hs⟩ | ⟨_, s₃, pause, more, rfl, hs, hagain⟩
      · rw [exec_sleep hs]
        exact ⟨.mono (Nat.zero_le n) (.quiet rfl rfl .nil), trivial⟩
      · have hp := exec_sleep hs
        subst hp
        obtain ⟨hround, _, hfits⟩ := ih hagain fun call hcall => hc call (by simp [hcall])
        exact ⟨.quiet rfl rfl hround, hfits.cons rfl⟩
    by_cases hconf : isConflict made.1 = true
    · rw [if_pos hconf] at hthen
      rw [hconf, Bool.not_true, Bool.and_false] at hmade
      obtain ⟨hround, hfits⟩ := hrest hthen
      exact ⟨.quiet rfl rfl (.create hround), fun _ => rfl, .cons hid (.cons hmade hfits)⟩
    rw [if_neg hconf] at hthen
    rw [Bool.not_eq_true] at hconf
    rw [hconf, Bool.not_false, Bool.and_true] at hmade
    by_cases htm : made.1.truthy = true
    · rw [if_pos htm] at hthen hmade
      obtain ⟨rfl, rfl, _⟩ := hthen
      refine ⟨.quiet rfl rfl (.mono (Nat.succ_le_succ (Nat.zero_le n)) (.create .nil)), fun _ => rfl, ?_⟩
      exact .cons hid ⟨htm, _, List.mem_cons_self, hmade⟩
    · rw [if_neg htm] at hthen hmade
      obtain ⟨hround, hfits⟩ := hrest hthen
      exact ⟨.quiet rfl rfl (.create hround), fun _ => rfl, .cons hid (.cons hmade hfits)⟩

end Runs

/-! ## A run over the segments -/

/-- The path of the first `i` names; of none, the root. -/
def prefixPath (names : List String) (i : Nat) : String := if i = 0 then "/" else Path.absolute (names.take i)

/-- All that is sent for segment `i`, under the folder `parentId`. -/
structure Segment (names : List String) (i : Nat) (parentId : Json) (calls : List HttpCall) : Prop where
  lt : i < names.length
  round : Round 3 (prefixPath names (i + 1)) names[i] parentId calls
  opens : ∀ last, attributed last calls = attributed (prefixPath names (i + 1)) calls

/-- From segment `i` on, under the folder `parentId`. -/
inductive Rounds (names : List String) : Nat → Json → List HttpCall → Except Exc (Bool × String) → Prop
  | done {i : Nat} {parentId : Json} : names.length ≤ i → Rounds names i parentId [] (.ok (true, ""))
  | failed {i : Nat} {parentId : Json} {calls : List HttpCall} (lastError : String) : Segment names i parentId calls →
      (∀ call ∈ calls, HttpCall.id call = none) →
      Rounds names i parentId calls (.ok
        (false, "Failed to create " ++ prefixPath names (i + 1) ++ ": " ++ lastError))
  | raised {i : Nat} {parentId : Json} {calls : List HttpCall} (e : Exc) : Segment names i parentId calls →
      Rounds names i parentId calls (.error e)
  | next {i : Nat} {parentId id : Json} {first calls : List HttpCall} {call : HttpCall}
      {x : Except Exc (Bool × String)} :
      Segment names i parentId first → id.truthy = true → call ∈ first → HttpCall.id call = some id →
      Rounds names (i + 1) id calls x → Rounds names i parentId (first ++ calls) x

theorem prefixPath_take (names : List String) (i : Nat) :
    prefixPath names (i + 1) = Path.absolute (names.take (i + 1)) :=
  if_neg (Nat.succ_ne_zero i)

theorem prefixPath_succ {names : List String} {i : Nat} (hi : i < names.length) :
    Path.absolute (names.take i) ++ "/" ++ names[i] = prefixPath names (i + 1) := by
  rw [prefixPath_take, List.take_succ_eq_append_getElem hi, Path.absolute_append]
  simp [Path.absolute, String.append_assoc]

/-- Different segments have different paths. -/
theorem prefixPath_ne {names : List String} {i j : Nat} (hij : i < j) (hj : j < names.length) :
    prefixPath names (i + 1) ≠ prefixPath names (j + 1) := by
  intro he
  have hlt := @Path.absolute_take_lt names _ _ (Nat.succ_lt_succ hij) hj
  rw [prefixPath_take, prefixPath_take] at he
  rw [he] at hlt
  exact Nat.lt_irrefl _ hlt

theorem exec_ensureFolders {γ : Type} {M : System httpSig Exc γ} {R : M.State → M.State → Prop} {pid : Nat}
    {s s' : M.State}
    {calls : List HttpCall} {c : Client} (hR : ∀ s, R s s) (hb : c.baseUrl ≠ "") {names rest : List String} {i : Nat}
    (hrest : names.drop i = rest) {currId : Json} {lastError : String} {x : Except Exc (Bool × String)}
    (h : Exec M R pid (ensureFolders c rest (Path.absolute (names.take i)) currId lastError) s calls x s')
    (hc : NoConflictId calls) :
    Rounds names i currId calls x := by
  induction rest generalizing i s calls currId lastError with
  | nil =>
    obtain ⟨rfl, rfl, _⟩ := h
    exact .done (List.drop_eq_nil_iff.mp hrest)
  | cons folder rest ih =>
    obtain ⟨hi, rfl, hdrop⟩ := drop_eq_cons hrest
    have hpath := prefixPath_succ hi
    rw [ensureFolders, hpath] at h
    rcases exec_bind hR h with ⟨e, rfl, htry⟩ | ⟨tried, s₁, first, more, rfl, htry, hthen⟩
    · obtain ⟨hround, hopen, _⟩ := exec_tryFolder hR hb htry hc
      exact .raised e ⟨hi, hround, hopen⟩
    obtain ⟨hround, hopen, hfits⟩ := exec_tryFolder hR hb htry fun call hcall => hc call (by simp [hcall])
    obtain ⟨_ | id, lastError'⟩ := tried
    · obtain ⟨rfl, rfl, _⟩ := hthen
      rw [List.append_nil]
      exact .failed lastError' ⟨hi, hround, hopen⟩ hfits
    · obtain ⟨ht, call, hcall, hid⟩ := hfits
      dsimp only at hthen
      rw [prefixPath_take] at hthen
      exact .next ⟨hi, hround, hopen⟩ ht hcall hid (ih hdrop hthen fun call hcall => hc call (by simp [hcall]))

/-! ## What a run satisfies -/

section Rounds

variable {names : List String} {i : Nat} {parentId : Json} {calls : List HttpCall} {x : Except Exc (Bool × String)}

/-- Every call is about the path of a segment. -/
theorem rounds_path (h : Rounds names i parentId calls x) {last path : String} {call : HttpCall}
    (hmem : (path, call) ∈ attributed last calls) :
    ∃ k, i ≤ k ∧ k < names.length ∧ path = prefixPath names (k + 1) := by
  have hseg : ∀ {i : Nat} {parentId : Json} {calls : List HttpCall} {last : String}, Segment names i parentId calls →
      (path, call) ∈ attributed last calls → ∃ k, i ≤ k ∧ k < names.length ∧ path = prefixPath names (k + 1) := by
    intro i parentId calls last h hmem
    rw [h.opens, h.round.here] at hmem
    obtain ⟨_, _, he⟩ := List.mem_map.mp hmem
    cases he
    exact ⟨i, Nat.le_refl i, h.lt, rfl⟩
  induction h generalizing last with
  | done _ => cases hmem
  | failed _ h _ => exact hseg h hmem
  | raised _ h => exact hseg h hmem
  | next h _ _ _ _ ih =>
    rw [attributed_append] at hmem
    rcases List.mem_append.mp hmem with hmem | hmem
    · exact hseg h hmem
    · obtain ⟨k, hk, hlt, hp⟩ := ih hmem
      exact ⟨k, Nat.le_of_succ_le hk, hlt, hp⟩

/-- A create goes out under the id that answered the prefix before it, with every prefix
    from `i` on answered. -/
theorem rounds_create (h : Rounds names i parentId calls x) (hparent : parentId.truthy = true)
    {last path : String} {call : HttpCall}
    {before after : List (String × HttpCall)} (hsplit : attributed last calls = before ++ (path, call) :: after)
    {payload : List (String × Json)} (hp : HttpCall.payload call = some payload) :
    ∃ k, ∃ hk : k < names.length, i ≤ k ∧ path = prefixPath names (k + 1) ∧
      (∃ id, id.truthy = true ∧ payload = folderPayload names[k] id ∧
        (k = i ∧ id = parentId ∨ Answered (prefixPath names k) before id)) ∧
      ∀ j, i ≤ j → j < k → ∃ id, Answered (prefixPath names (j + 1)) before id := by
  have hseg : ∀ {i : Nat} {parentId : Json} {calls : List HttpCall} {last : String}
      {before after : List (String × HttpCall)},
      Segment names i parentId calls → attributed last calls = before ++ (path, call) :: after →
      ∃ hi : i < names.length, path = prefixPath names (i + 1) ∧ payload = folderPayload names[i] parentId := by
    intro i parentId calls last before after h hsplit
    rw [h.opens, h.round.here] at hsplit
    have hmem : (path, call) ∈ calls.map fun call => (prefixPath names (i + 1), call) := by rw [hsplit]; simp
    obtain ⟨_, hcall, he⟩ := List.mem_map.mp hmem
    cases he
    exact ⟨h.lt, rfl, h.round.sent call hcall payload hp⟩
  induction h generalizing last before with
  | done _ => simp [attributed] at hsplit
  | @failed i _ _ _ h _ =>
    obtain ⟨hi, hpath, hpay⟩ := hseg h hsplit
    exact ⟨i, hi, Nat.le_refl i, hpath, ⟨_, hparent, hpay, Or.inl ⟨rfl, rfl⟩⟩, fun j _ _ => by omega⟩
  | @raised i _ _ _ h =>
    obtain ⟨hi, hpath, hpay⟩ := hseg h hsplit
    exact ⟨i, hi, Nat.le_refl i, hpath, ⟨_, hparent, hpay, Or.inl ⟨rfl, rfl⟩⟩, fun j _ _ => by omega⟩
  | @next i parentId id first calls found x h hid hfound hfid hrest ih =>
    have hanswer : Answered (prefixPath names (i + 1)) (attributed last first) id := by
      refine ⟨found, ?_, hfid⟩
      rw [h.opens, h.round.here]
      exact List.mem_map_of_mem hfound
    rw [attributed_append] at hsplit
    rcases split_append hsplit with ⟨rest, rfl, hlater⟩ | ⟨rest, hfirst⟩
    · obtain ⟨k, hk, hik, hpath, ⟨id', hid', hpay, hfrom⟩, hbetween⟩ := ih hid hlater
      refine ⟨k, hk, by omega, hpath, ⟨id', hid', hpay, Or.inr ?_⟩, fun j hij hjk => ?_⟩
      · rcases hfrom with ⟨rfl, rfl⟩ | hfrom
        · exact hanswer.mono fun t ht => List.mem_append_left _ ht
        · exact hfrom.mono fun t ht => List.mem_append_right _ ht
      · by_cases hj : j = i
        · subst hj
          exact ⟨id, hanswer.mono fun t ht => List.mem_append_left _ ht⟩
        · obtain ⟨id', h'⟩ := hbetween j (by omega) hjk
          exact ⟨id', h'.mono fun t ht => List.mem_append_right _ ht⟩
    · obtain ⟨hi, hpath, hpay⟩ := hseg h hfirst
      exact ⟨i, hi, Nat.le_refl i, hpath, ⟨_, hparent, hpay, Or.inl ⟨rfl, rfl⟩⟩, fun j _ _ => by omega⟩

/-- At most three creates at any path. -/
theorem rounds_three (h : Rounds names i parentId calls x) (last path : String) :
    ((attributed last calls).filter fun t => t.1 == path && (HttpCall.payload t.2).isSome).length ≤ 3 := by
  have hseg : ∀ {i : Nat} {parentId : Json} {calls : List HttpCall} {last : String}, Segment names i parentId calls →
      ((attributed last calls).filter fun t => t.1 == path && (HttpCall.payload t.2).isSome).length ≤ 3 := by
    intro i parentId calls last h
    have hfew := h.round.few
    rw [← List.countP_eq_length_filter] at hfew
    rw [h.opens, h.round.here, List.filter_map, List.length_map, ← List.countP_eq_length_filter]
    exact Nat.le_trans (List.countP_mono_left fun call _ hcall => (Bool.and_eq_true_iff.mp hcall).2) hfew
  induction h generalizing last with
  | done _ => exact Nat.zero_le 3
  | failed _ h _ => exact hseg h
  | raised _ h => exact hseg h
  | @next i parentId id first calls found x h _ _ _ hrest ih =>
    rw [attributed_append, List.filter_append, List.length_append]
    by_cases hp : path = prefixPath names (i + 1)
    · -- nothing later is about this path
      have hnone : ((attributed (lastPath last first) calls).filter fun t => t.1 == path &&
          (HttpCall.payload t.2).isSome) = [] := by
        refine List.filter_eq_nil_iff.mpr fun t ht => ?_
        obtain ⟨k, hk, hlt, hpath⟩ := rounds_path hrest ht
        have hne : t.1 ≠ path := by
          rw [hpath, hp]
          exact (prefixPath_ne (by omega) hlt).symm
        simp [hne]
      rw [hnone, List.length_nil, Nat.add_zero]
      exact hseg h
    · have hnone : ((attributed last first).filter fun t => t.1 == path && (HttpCall.payload t.2).isSome) = [] := by
        refine List.filter_eq_nil_iff.mpr fun t ht => ?_
        rw [h.opens, h.round.here] at ht
        obtain ⟨_, _, rfl⟩ := List.mem_map.mp ht
        simp [Ne.symm hp]
      rw [hnone, List.length_nil, Nat.zero_add]
      exact ih _

/-- After success every segment from `i` on is answered. -/
theorem rounds_true (h : Rounds names i parentId calls x) {e : String} (hx : x = .ok (true, e)) (last : String) :
    ∀ k, i ≤ k → k < names.length → ∃ id, Answered (prefixPath names (k + 1)) (attributed last calls) id := by
  induction h generalizing last with
  | done hi => exact fun k _ _ => by omega
  | failed => cases hx
  | raised => cases hx
  | @next i _ id first _ found _ h _ hfound hfid _ ih =>
    intro k hik hk
    rw [attributed_append]
    by_cases he : k = i
    · subst he
      refine ⟨id, found, List.mem_append_left _ ?_, hfid⟩
      rw [h.opens, h.round.here]
      exact List.mem_map_of_mem hfound
    · obtain ⟨id', h'⟩ := ih hx (lastPath last first) k (by omega) hk
      exact ⟨id', h'.mono fun t ht => List.mem_append_right _ ht⟩

/-- After failure the message names the first segment that is not answered. -/
theorem rounds_false (h : Rounds names i parentId calls x) {e : String} (hx : x = .ok (false, e)) (last : String) :
    ∃ k, i ≤ k ∧ k < names.length ∧ (∃ lastError, e = "Failed to create " ++ prefixPath names (k + 1) ++
      ": " ++ lastError) ∧
      (∀ id, ¬ Answered (prefixPath names (k + 1)) (attributed last calls) id) ∧
      ∀ j, i ≤ j → j < k → ∃ id, Answered (prefixPath names (j + 1)) (attributed last calls) id := by
  induction h generalizing last with
  | done => cases hx
  | @failed i _ calls lastError h hnone =>
    cases hx
    refine ⟨i, Nat.le_refl i, h.lt, ⟨lastError, rfl⟩, fun id ⟨call, hcall, hid⟩ => ?_, fun j _ _ => by omega⟩
    rw [h.opens, h.round.here] at hcall
    obtain ⟨_, hmem, he⟩ := List.mem_map.mp hcall
    cases he
    rw [hnone call hmem] at hid
    cases hid
  | raised => cases hx
  | @next i _ id first calls found _ h _ hfound hfid hrest ih =>
    obtain ⟨k, hik, hk, hmessage, hnone, hbefore⟩ := ih hx (lastPath last first)
    rw [attributed_append]
    refine ⟨k, by omega, hk, hmessage, fun id' ⟨call, hcall, hid'⟩ => ?_, fun j hij hjk => ?_⟩
    · rcases List.mem_append.mp hcall with hcall | hcall
      · rw [h.opens, h.round.here] at hcall
        obtain ⟨_, _, he⟩ := List.mem_map.mp hcall
        exact prefixPath_ne (by omega) hk (Prod.mk.inj he).1
      · exact hnone id' ⟨call, hcall, hid'⟩
    · by_cases he : j = i
      · subst he
        refine ⟨id, found, List.mem_append_left _ ?_, hfid⟩
        rw [h.opens, h.round.here]
        exact List.mem_map_of_mem hfound
      · obtain ⟨id', h'⟩ := hbefore j (by omega) hjk
        exact ⟨id', h'.mono fun t ht => List.mem_append_right _ ht⟩

end Rounds

/-! ## ensure_structure -/

/-- The folders of a key; none for the key that has no segment to pop. -/
def folders (fullKey : String) : List String :=
  match folderParts fullKey with
  | .ok names => names
  | .error _ => []

theorem folders_eq (fullKey : String) : folders fullKey = Path.named (Path.split fullKey).dropLast := by
  by_cases h : fullKey = ""
  · rw [h]
    rfl
  · rw [folders, folderParts_eq h]

theorem folders_name {fullKey name : String} (h : name ∈ folders fullKey) : name ≠ "" ∧ '/' ∉ name.toList := by
  rw [folders_eq] at h
  obtain ⟨hmem, hne⟩ := List.mem_filter.mp h
  exact ⟨by simpa using hne, Path.mem_split ((List.dropLast_sublist _).mem hmem)⟩

theorem prefixPath_root {names : List String} (hnames : ∀ name ∈ names, name ≠ "") {k : Nat} (hk : k < names.length) :
    prefixPath names (k + 1) ≠ "/" := by
  cases names with
  | nil => exact absurd hk (Nat.not_lt_zero k)
  | cons name names =>
    intro he
    have hlen := congrArg String.length he
    rw [prefixPath_take, List.take_succ_cons, Path.absolute_cons_length] at hlen
    have hone : "/".length = 1 := rfl
    have hname : name.length ≠ 0 := fun h0 => hnames name List.mem_cons_self (String.length_eq_zero_iff.mp h0)
    omega

/-- The paths `ensure_structure` checks for a key, the root apart. -/
def folderPaths (fullKey : String) : List String :=
  (List.range (folders fullKey).length).map fun k => prefixPath (folders fullKey) (k + 1)

/-- What a call of `ensure_structure` with these folders sends and returns, against any
    server. -/
structure EnsureSpec (names : List String) (calls : List HttpCall) (x : Except Exc (Bool × String)) : Prop where
  about : ∀ t ∈ attributed "" calls, t.1 = "/" ∨ ∃ k < names.length, t.1 = prefixPath names (k + 1)
  /-- A create for a segment carries the id an earlier answer gave for the prefix before it. -/
  parent : ∀ before path call after payload, attributed "" calls = before ++ (path, call) :: after →
    HttpCall.payload call = some payload → ∃ k, ∃ hk : k < names.length, path = prefixPath names (k + 1) ∧
      ∃ id, id.truthy = true ∧ payload = folderPayload names[k] id ∧ Answered (prefixPath names k) before id
  three : ∀ k, ((attributed "" calls).filter fun t => t.1 == prefixPath names (k + 1) &&
    (HttpCall.payload t.2).isSome).length ≤ 3
  /-- No create for a segment after one that was not answered. -/
  stops : ∀ before call after payload k, k < names.length →
    attributed "" calls = before ++ (prefixPath names (k + 1), call) :: after →
    HttpCall.payload call = some payload → ∀ j < k, ∃ id, Answered (prefixPath names (j + 1)) before id
  true_ : ∀ e, x = .ok (true, e) → ∀ k < names.length, ∃ id,
    Answered (prefixPath names (k + 1)) (attributed "" calls) id
  false_ : ∀ e root, x = .ok (false, e) → Answered "/" (attributed "" calls) root → ∃ k < names.length,
    (∃ lastError, e = "Failed to create " ++ prefixPath names (k + 1) ++ ": " ++ lastError) ∧
      (∀ id, ¬ Answered (prefixPath names (k + 1)) (attributed "" calls) id) ∧
      ∀ j < k, ∃ id, Answered (prefixPath names (j + 1)) (attributed "" calls) id

/-- Without a request and without success. -/
theorem sound_nil {names : List String} {x : Except Exc (Bool × String)}
    (hx : ∀ e, x = .ok (true, e) → names = []) : EnsureSpec names [] x where
  about t h := nomatch h
  parent before path call after payload h _ := by simp [attributed] at h
  three _ := Nat.zero_le 3
  stops before call after payload k _ h _ := by simp [attributed] at h
  true_ e he k hk := by rw [hx e he] at hk; exact absurd hk (Nat.not_lt_zero k)
  false_ e root _ h := by obtain ⟨_, hcall, _⟩ := h; cases hcall

theorem attributed_rooted (url : String) (headers : List (String × String)) (ans : Except Exc Response)
    (calls : List HttpCall) :
    attributed "" (⟨.get url headers "/", ans⟩ :: calls) = ("/", ⟨.get url headers "/", ans⟩) ::
    attributed "/" calls := rfl

/-- A create after the root was resolved. -/
theorem rooted_create {names : List String} {url : String} {headers : List (String × String)}
    {ans : Except Exc Response} {root : Json}
    {calls : List HttpCall} {x : Except Exc (Bool × String)} (hroot : resolvedId ans = some root)
    (htruthy : root.truthy = true)
    (h : Rounds names 0 root calls x) {before after : List (String × HttpCall)} {path : String} {call : HttpCall}
    {payload : List (String × Json)}
    (hsplit : attributed "" (⟨.get url headers "/", ans⟩ :: calls) = before ++ (path, call) :: after)
    (hp : HttpCall.payload call = some payload) :
    ∃ k, ∃ hk : k < names.length, path = prefixPath names (k + 1) ∧
      (∃ id, id.truthy = true ∧ payload = folderPayload names[k] id ∧ Answered (prefixPath names k) before id) ∧
      ∀ j < k, ∃ id, Answered (prefixPath names (j + 1)) before id := by
  rw [attributed_rooted] at hsplit
  cases before with
  | nil =>
    obtain ⟨ht, _⟩ := List.cons.inj hsplit
    cases ht
    cases hp
  | cons t before =>
    obtain ⟨rfl, hlater⟩ := List.cons.inj hsplit
    obtain ⟨k, hk, _, hpath, ⟨id, hid, hpay, hfrom⟩, hbetween⟩ := rounds_create h htruthy hlater hp
    refine ⟨k, hk, hpath, ⟨id, hid, hpay, ?_⟩, fun j hjk => ?_⟩
    · rcases hfrom with ⟨rfl, rfl⟩ | hfrom
      · exact ⟨_, List.mem_cons_self, hroot⟩
      · exact hfrom.mono fun t ht => List.mem_cons_of_mem _ ht
    · obtain ⟨id', h'⟩ := hbetween j (Nat.zero_le j) hjk
      exact ⟨id', h'.mono fun t ht => List.mem_cons_of_mem _ ht⟩

/-- The root was resolved, and the segments follow. -/
theorem sound_rooted {names : List String} {url : String} {headers : List (String × String)}
    {ans : Except Exc Response} {root : Json}
    {calls : List HttpCall} {x : Except Exc (Bool × String)} (hnames : ∀ name ∈ names, name ≠ "")
    (hroot : resolvedId ans = some root)
    (htruthy : root.truthy = true) (h : Rounds names 0 root calls x) :
    EnsureSpec names (⟨.get url headers "/", ans⟩ :: calls) x := by
  constructor
  case about =>
    intro t ht
    rw [attributed_rooted] at ht
    rcases List.mem_cons.mp ht with rfl | ht
    · exact Or.inl rfl
    · obtain ⟨k, _, hk, hpath⟩ := rounds_path h ht
      exact Or.inr ⟨k, hk, hpath⟩
  case parent =>
    intro before path call after payload hsplit hp
    obtain ⟨k, hk, hpath, hfrom, _⟩ := rooted_create hroot htruthy h hsplit hp
    exact ⟨k, hk, hpath, hfrom⟩
  case three =>
    intro k
    rw [attributed_rooted, List.filter_cons_of_neg (by simp [HttpCall.payload])]
    exact rounds_three h _ _
  case stops =>
    intro before call after payload k hk hsplit hp
    obtain ⟨k', hk', hpath, _, hbefore⟩ := rooted_create hroot htruthy h hsplit hp
    have he : k = k' := by
      rcases Nat.lt_trichotomy k k' with hlt | heq | hgt
      · exact absurd hpath (prefixPath_ne hlt hk')
      · exact heq
      · exact absurd hpath.symm (prefixPath_ne hgt hk)
    rw [he]
    exact hbefore
  case true_ =>
    intro e hx k hk
    obtain ⟨id, hid⟩ := rounds_true h hx "/" k (Nat.zero_le k) hk
    exact ⟨id, hid.mono fun t ht => List.mem_cons_of_mem _ ht⟩
  case false_ =>
    intro e _ hx _
    obtain ⟨k, _, hk, hmessage, hnone, hbefore⟩ := rounds_false h hx "/"
    refine ⟨k, hk, hmessage, fun id ⟨call, hcall, hid⟩ => ?_, fun j hjk => ?_⟩
    · rcases List.mem_cons.mp hcall with he | hcall
      · exact prefixPath_root hnames hk (Prod.mk.inj he).1
      · exact hnone id ⟨call, hcall, hid⟩
    · obtain ⟨id, hid⟩ := hbefore j (Nat.zero_le j) hjk
      exact ⟨id, hid.mono fun t ht => List.mem_cons_of_mem _ ht⟩

/-- The root was asked for, and nothing else. -/
theorem sound_unrooted {names : List String} {url : String} {headers : List (String × String)}
    {ans : Except Exc Response}
    {x : Except Exc (Bool × String)} (htrue : ∀ e, x ≠ .ok (true, e))
    (hfalse : ∀ e, x = .ok (false, e) → resolvedId ans = none) :
    EnsureSpec names [⟨.get url headers "/", ans⟩] x := by
  have hcreate : ∀ {before path call after payload}, attributed "" [⟨.get url headers "/", ans⟩] =
      before ++ (path, call) :: after →
      HttpCall.payload call = some payload → False := by
    intro before path call after payload hsplit hp
    have hmem : (path, call) ∈ attributed "" [⟨.get url headers "/", ans⟩] := by rw [hsplit]; simp
    rcases List.mem_singleton.mp hmem with he
    cases he
    cases hp
  constructor
  case about =>
    intro t ht
    rcases List.mem_singleton.mp ht with rfl
    exact Or.inl rfl
  case parent => exact fun _ _ _ _ _ hsplit hp => (hcreate hsplit hp).elim
  case three => exact fun _ => by simp [attributed, HttpCall.payload]
  case stops => exact fun _ _ _ _ _ _ hsplit hp => (hcreate hsplit hp).elim
  case true_ => exact fun e hx => absurd hx (htrue e)
  case false_ =>
    intro e root hx ⟨call, hcall, hid⟩
    rcases List.mem_singleton.mp hcall with he
    cases he
    have hroot : resolvedId ans = some root := hid
    rw [hfalse e hx] at hroot
    cases hroot

theorem sound_parts {c : Client} {names : List String} (hnames : ∀ name ∈ names, name ≠ "") {calls : List HttpCall}
    {x : Except Exc (Bool × String)} (h : Plays (ensureParts c names) calls x) (hc : NoConflictId calls) :
    EnsureSpec names calls x := by
  unfold ensureParts at h
  split at h
  · next hn =>
    obtain ⟨rfl, rfl, _⟩ := h
    exact sound_nil fun _ _ => hn
  by_cases hb : c.baseUrl = ""
  · rw [getIdByPath, if_pos hb] at h
    obtain ⟨rfl, rfl, _⟩ := h
    exact sound_nil nofun
  rcases exec_bind (fun _ => rfl) h with ⟨e, rfl, hget⟩ | ⟨rootId, _, first, rest, rfl, hget, hthen⟩
  · obtain ⟨_, rfl, _⟩ := exec_getIdByPath hb hget
    exact sound_unrooted nofun nofun
  · obtain ⟨ans, rfl, hans⟩ := exec_getIdByPath hb hget
    have hroot := outcome_resolved hans.symm
    by_cases ht : rootId.truthy = true
    · rw [if_pos ht] at hthen hroot
      have hrounds : Rounds names 0 rootId _ _ :=
        exec_ensureFolders (fun _ => rfl) hb rfl hthen fun call hcall => hc call (by simp [hcall])
      exact sound_rooted hnames hroot ht hrounds
    · rw [if_neg ht] at hthen hroot
      obtain ⟨rfl, rfl, _⟩ := hthen
      exact sound_unrooted nofun fun _ _ => hroot

/-- `ensure_structure` against any server whose ids are not the mark of a conflict. -/
theorem ensureStructure_sound (c : Client) (fullKey : String) {calls : List HttpCall} {x : Except Exc (Bool × String)}
    (h : Plays (ensureStructure c fullKey) calls x) (hc : NoConflictId calls) :
    EnsureSpec (folders fullKey) calls x := by
  have hnames : ∀ name ∈ folders fullKey, name ≠ "" := fun name h => (folders_name h).1
  unfold folders ensureStructure at *
  cases hp : folderParts fullKey with
  | error text =>
    rw [hp] at h
    obtain ⟨rfl, rfl, _⟩ := h
    exact sound_nil nofun
  | ok names =>
    rw [hp] at h
    simp only [hp] at hnames
    exact sound_parts hnames h hc

/-- The root is there, the folder `a` is not and is made. -/
def madeA : List HttpCall :=
  let c := Client.configure "host" "token" "fs"
  [⟨.get (c.baseUrl ++ "/entries/resolve") c.getHeaders "/",
    .ok (⟨200, "", .ok (.obj [("id", .str "r")])⟩ : Response)⟩,
    ⟨.get (c.baseUrl ++ "/entries/resolve") c.getHeaders "/a", .ok (⟨404, "", .error ""⟩ : Response)⟩,
    ⟨.post (c.baseUrl ++ "/entries") c.getHeaders (folderPayload "a" (.str "r")),
      .ok (⟨201, "", .ok (.obj [("id", .str "1")])⟩ : Response)⟩]

theorem madeA_plays : Plays (ensureStructure (Client.configure "host" "token" "fs") "a/f") madeA (.ok (true, "")) :=
  ⟨(), _, (), _, rfl, rfl, rfl, (), _, (), _, rfl, rfl, rfl, (), _, (), _, rfl, rfl, rfl, rfl, rfl, rfl⟩

theorem ensureStructure_sound_made : NoConflictId madeA ∧ EnsureSpec (folders "a/f") madeA (.ok (true, "")) := by
  have hc : NoConflictId madeA := by
    intro call hcall id hid
    simp only [madeA, List.mem_cons, List.not_mem_nil, or_false] at hcall
    rcases hcall with rfl | rfl | rfl <;> cases hid <;> rfl
  exact ⟨hc, ensureStructure_sound (Client.configure "host" "token" "fs") "a/f" madeA_plays hc⟩

end Connect.LucidLink
