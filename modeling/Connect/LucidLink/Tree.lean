/-
  Connect.LucidLink.Tree — the LucidLink server as a linearizable tree of folders, and any
  number of `ensure_structure` calls on it.

  `resolve` goes down from the root by names, `make` adds a folder under a parent unless
  one of that name is there. A request is one step. A resolve of no folder is answered
  404, a create of an existing one 409; an id stands in the body under "id", or under
  "data" and then "id". No request faults and nothing is removed, so a tree only grows
  (`Grows`), and what a path led to it leads to for ever (`walk_grows`).
-/

import Connect.LucidLink.Sound

namespace Connect.LucidLink

open Await

structure Folder where
  id : String
  name : String
  parentId : String
  deriving DecidableEq, Repr

structure Tree where
  root : String
  folders : List Folder
  deriving DecidableEq, Repr

namespace Tree

def has (t : Tree) (id : String) : Bool := id == t.root || t.folders.any (·.id == id)

def child (t : Tree) (parentId name : String) : Option Folder :=
  t.folders.find? fun f => f.parentId == parentId && f.name == name

/-- The folder a list of names leads to. -/
def walk (t : Tree) (id : String) : List String → Option String
  | [] => some id
  | name :: rest => (t.child id name).bind fun f => t.walk f.id rest

def resolve (t : Tree) (path : String) : Option String := t.walk t.root (Path.named (Path.split path))

def make (t : Tree) (id name parentId : String) : Tree := { t with folders := t.folders ++ [⟨id, name, parentId⟩] }

/-- An id to hand out. -/
def fresh (t : Tree) (id : String) : Bool := id != "" && id != "CONFLICT" && !t.has id

structure Valid (t : Tree) : Prop where
  root : t.root ≠ "" ∧ t.root ≠ "CONFLICT"
  ids : ∀ f ∈ t.folders, f.id ≠ "" ∧ f.id ≠ "CONFLICT"
  unique : (t.root :: t.folders.map (·.id)).Nodup
  /-- One folder of a name under a parent. -/
  names : ∀ f ∈ t.folders, ∀ g ∈ t.folders, f.parentId = g.parentId → f.name = g.name → f = g
  parents : ∀ f ∈ t.folders, t.has f.parentId = true

/-- The folder `id` is at this path. -/
inductive At (t : Tree) : String → List String → Prop
  | root : At t t.root []
  | child {f : Folder} {path : List String} : f ∈ t.folders → At t f.parentId path → At t f.id (path ++ [f.name])

def Grows (t t' : Tree) : Prop := t'.root = t.root ∧ ∃ more, t'.folders = t.folders ++ more

/-! ## Requests -/

/-- The id in a body. -/
def bodyId : Json → Option String
  | .obj fields =>
    match fields.lookup "data", fields.lookup "id" with
    | none, some (.str id) => some id
    | some (.obj inner), none =>
      match inner.lookup "id" with
      | some (.str id) => some id
      | _ => none
    | _, _ => none
  | _ => none

def responseId (resp : Response) : Option String := resp.json.toOption.bind bodyId

def text : Option Json → Option String
  | some (.str s) => some s
  | _ => none

/-- A create of `name` under `parentId`. -/
def creates (t : Tree) (name parentId : String) (resp : Response) : Option Tree :=
  if t.has parentId = false then if resp.statusCode = 404 then some t else none
  else if (t.child parentId name).isSome then if resp.statusCode = 409 then some t else none
  else
    match responseId resp with
    | some id =>
      if (resp.statusCode = 200 ∨ resp.statusCode = 201) ∧
        t.fresh id = true then some (t.make id name parentId) else none
    | none => none

def exec (t : Tree) : (o : HttpOp) → Except Exc o.Ret → Option Tree
  | _, .error _ => none
  | .sleep _, .ok _ => some t
  | .get _ _ path, .ok (resp : Response) =>
    match t.resolve path with
    | some id => if resp.statusCode = 200 ∧ responseId resp = some id then some t else none
    | none => if resp.statusCode = 404 then some t else none
  | .post _ _ payload, .ok (resp : Response) =>
    t.creates ((text (payload.lookup "name")).getD "") ((text (payload.lookup "parentId")).getD t.root) resp

end Tree

/-- A call of `ensure_structure`. -/
structure EnsureCall where
  client : Client
  fullKey : String
  deriving DecidableEq, Repr

/-- Any number of calls, each through a client that was configured. -/
abbrev callers : System httpSig Exc (Bool × String) where
  State := Tree
  Env := Empty
  Task := EnsureCall
  init t := t.Valid
  exec _ t := t.exec
  env _ e := nomatch e
  starts _ call := call.client.baseUrl != ""
  code _ call := ensureStructure call.client call.fullKey

namespace Tree

/-! ## A tree only grows -/

theorem Grows.refl (t : Tree) : Grows t t := ⟨rfl, [], (List.append_nil _).symm⟩

theorem Grows.trans {a b c : Tree} (h : Grows a b) (h' : Grows b c) : Grows a c := by
  obtain ⟨hr, more, hm⟩ := h
  obtain ⟨hr', more', hm'⟩ := h'
  exact ⟨hr'.trans hr, more ++ more', by rw [hm', hm, List.append_assoc]⟩

theorem grows_make (t : Tree) (id name parentId : String) : Grows t (t.make id name parentId) := ⟨rfl, _, rfl⟩

theorem child_grows {t t' : Tree} (h : Grows t t') {parentId name : String} {f : Folder}
    (hf : t.child parentId name = some f) :
    t'.child parentId name = some f := by
  obtain ⟨_, more, hm⟩ := h
  rw [child] at hf ⊢
  rw [hm, List.find?_append, hf]
  rfl

theorem walk_grows {t t' : Tree} (h : Grows t t') {id last : String} {names : List String}
    (hw : t.walk id names = some last) :
    t'.walk id names = some last := by
  induction names generalizing id with
  | nil => exact hw
  | cons name rest ih =>
    obtain ⟨f, hf, hrest⟩ := Option.bind_eq_some_iff.mp hw
    rw [walk, child_grows h hf]
    exact ih hrest

theorem resolve_grows {t t' : Tree} (h : Grows t t') {path id : String} (hr : t.resolve path = some id) :
    t'.resolve path = some id := by
  rw [resolve, h.1]
  exact walk_grows h hr

theorem has_grows {t t' : Tree} (h : Grows t t') {id : String} (hid : t.has id = true) : t'.has id = true := by
  obtain ⟨hr, more, hm⟩ := h
  simp only [has, Bool.or_eq_true, List.any_eq_true, beq_iff_eq, hr, hm] at hid ⊢
  rcases hid with hid | ⟨f, hf, hid⟩
  · exact Or.inl hid
  · exact Or.inr ⟨f, List.mem_append_left _ hf, hid⟩

/-! ## Paths -/

theorem walk_append (t : Tree) (id : String) (xs ys : List String) :
    t.walk id (xs ++ ys) = (t.walk id xs).bind fun last => t.walk last ys := by
  induction xs generalizing id with
  | nil => rfl
  | cons first rest ih =>
    cases h : t.child id first with
    | none => simp [walk, h]
    | some f => simp [walk, h, ih]

theorem walk_child (t : Tree) (id name : String) : t.walk id [name] = (t.child id name).map (·.id) := by
  cases h : t.child id name <;> simp [walk, h]

/-- On the way to a folder there are folders. -/
theorem walk_take {t : Tree} {id last : String} {names : List String} {i k : Nat} (hk : k ≤ i)
    (h : t.walk id (names.take i) = some last) : ∃ mid, t.walk id (names.take k) = some mid := by
  obtain ⟨d, rfl⟩ := Nat.exists_eq_add_of_le hk
  rw [List.take_add, walk_append] at h
  obtain ⟨mid, hmid, _⟩ := Option.bind_eq_some_iff.mp h
  exact ⟨mid, hmid⟩

theorem child_some {t : Tree} {parentId name : String} {f : Folder} (h : t.child parentId name = some f) :
    f ∈ t.folders ∧ f.parentId = parentId ∧ f.name = name := by
  have hp := List.find?_some h
  simp only [Bool.and_eq_true, beq_iff_eq] at hp
  exact ⟨List.mem_of_find?_eq_some h, hp⟩

theorem child_none {t : Tree} {parentId name : String} (h : t.child parentId name = none) {f : Folder}
    (hf : f ∈ t.folders) :
    f.parentId = parentId → f.name ≠ name := by
  intro hp hn
  have := List.find?_eq_none.mp h f hf
  simp [hp, hn] at this

theorem child_make {t : Tree} {id name parentId : String} (h : t.child parentId name = none) :
    (t.make id name parentId).child parentId name = some ⟨id, name, parentId⟩ := by
  rw [child] at h ⊢
  rw [make, List.find?_append, h]
  simp

/-- A walk ends at a folder of the tree. -/
theorem walk_has {t : Tree} {id last : String} {names : List String} (hid : t.has id = true)
    (h : t.walk id names = some last) :
    t.has last = true := by
  induction names generalizing id with
  | nil =>
    cases h
    exact hid
  | cons name rest ih =>
    obtain ⟨f, hf, hrest⟩ := Option.bind_eq_some_iff.mp h
    refine ih ?_ hrest
    simp only [has, Bool.or_eq_true, List.any_eq_true, beq_iff_eq]
    exact Or.inr ⟨f, (child_some hf).1, rfl⟩

theorem root_has (t : Tree) : t.has t.root = true := by simp [has]

theorem Valid.has_ne {t : Tree} (hv : t.Valid) {id : String} (h : t.has id = true) : id ≠ "" ∧ id ≠ "CONFLICT" := by
  simp only [has, Bool.or_eq_true, List.any_eq_true, beq_iff_eq] at h
  rcases h with rfl | ⟨f, hf, rfl⟩
  · exact hv.root
  · exact hv.ids f hf

theorem Valid.make {t : Tree} (hv : t.Valid) {id name parentId : String} (hf : t.fresh id = true)
    (hp : t.has parentId = true) (hc : t.child parentId name = none) : (t.make id name parentId).Valid := by
  simp only [fresh, Bool.and_eq_true, bne_iff_ne, ne_eq, Bool.not_eq_true', has, Bool.or_eq_false_iff,
    beq_eq_false_iff_ne, List.any_eq_false, beq_iff_eq] at hf
  obtain ⟨⟨hne, hnc⟩, hroot, hfresh⟩ := hf
  refine ⟨hv.root, fun f hf => ?_, ?_, ?_, fun f hf => ?_⟩
  · rcases List.mem_append.mp hf with hf | hf
    · exact hv.ids f hf
    · rcases List.mem_singleton.mp hf with rfl
      exact ⟨hne, hnc⟩
  · show (t.root :: (t.folders ++ [(⟨id, name, parentId⟩ : Folder)]).map Folder.id).Nodup
    rw [List.map_append, ← List.cons_append, List.nodup_append]
    refine ⟨hv.unique, by simp, fun a ha b hb => ?_⟩
    rcases List.mem_singleton.mp hb with rfl
    rcases List.mem_cons.mp ha with rfl | ha
    · exact fun he => hroot he.symm
    · obtain ⟨f, hf, rfl⟩ := List.mem_map.mp ha
      exact hfresh f hf
  · intro f hf g hg hpar hnam
    rcases List.mem_append.mp hf with hf | hf <;> rcases List.mem_append.mp hg with hg | hg
    · exact hv.names f hf g hg hpar hnam
    · rcases List.mem_singleton.mp hg with rfl
      exact absurd hnam (child_none hc hf hpar)
    · rcases List.mem_singleton.mp hf with rfl
      exact absurd hnam.symm (child_none hc hg hpar.symm)
    · rw [List.mem_singleton.mp hf, List.mem_singleton.mp hg]
  · refine has_grows (grows_make t id name parentId) ?_
    rcases List.mem_append.mp hf with hf | hf
    · exact hv.parents f hf
    · rcases List.mem_singleton.mp hf with rfl
      exact hp

theorem At.cases {t : Tree} {i : String} {path : List String} (h : t.At i path) :
    (path = [] ∧ i = t.root) ∨ ∃ f names, f ∈ t.folders ∧ t.At f.parentId names ∧ i = f.id ∧
    path = names ++ [f.name] := by
  cases h with
  | root => exact Or.inl ⟨rfl, rfl⟩
  | child hf h => exact Or.inr ⟨_, _, hf, h, rfl, rfl⟩

/-- Two folders of one path are one. -/
theorem At.unique {t : Tree} (hv : t.Valid) {i j : String} {path : List String} (hi : t.At i path)
    (hj : t.At j path) : i = j := by
  induction hi generalizing j with
  | root =>
    rcases hj.cases with ⟨_, rfl⟩ | ⟨f, names, _, _, _, he⟩
    · rfl
    · simp at he
  | @child f path hf _ ih =>
    rcases hj.cases with ⟨he, _⟩ | ⟨g, names, hg, hpar, rfl, he⟩
    · simp at he
    · obtain ⟨rfl, hname⟩ := List.append_inj' he rfl
      rw [hv.names f hf g hg (ih hpar) (List.cons.inj hname).1]

/-- A path of names resolves to where the names lead. -/
theorem resolve_prefix (t : Tree) {names : List String}
    (hnames : ∀ name ∈ names, name ≠ "" ∧ '/' ∉ name.toList) (k : Nat) :
    t.resolve (prefixPath names k) = t.walk t.root (names.take k) := by
  rw [resolve, prefixPath]
  split
  · next h0 =>
    have : Path.named (Path.split "/") = [] := by decide
    rw [this, h0]
    rfl
  · have hpre : ∀ name ∈ names.take k, name ≠ "" ∧ '/' ∉ name.toList :=
      fun name hn => hnames name (List.mem_of_mem_take hn)
    cases hp : names.take k with
    | nil => rfl
    | cons name rest =>
      rw [hp] at hpre
      rw [Path.split_absolute (fun n hn => (hpre n (List.mem_cons_of_mem _ hn)).2) name
        (hpre name List.mem_cons_self).2, Path.named_empty, Path.named_self.mpr fun n hn => (hpre n hn).1]

/-! ## What the client reads -/

theorem bodyId_get {body : Json} {id : String} (h : bodyId body = some id) :
    ∃ fields, body = .obj fields ∧ ((fields.lookup "data" = none ∧ fields.lookup "id" = some (.str id)) ∨
      ∃ inner, fields.lookup "data" = some (.obj inner) ∧ fields.lookup "id" = none ∧
      inner.lookup "id" = some (.str id)) := by
  unfold bodyId at h
  split at h
  · next fields =>
    refine ⟨fields, rfl, ?_⟩
    split at h
    · cases h
      exact Or.inl ⟨‹_›, ‹_›⟩
    · next inner _ _ =>
      split at h
      · cases h
        exact Or.inr ⟨inner, ‹_›, ‹_›, ‹_›⟩
      · cases h
    · cases h
  · cases h

theorem any_lookup {fields : List (String × Json)} (key : String) :
    fields.any (·.1 == key) = (fields.lookup key).isSome := by
  induction fields with
  | nil => rfl
  | cons f fields ih =>
    rw [List.any_cons, List.lookup_cons, ih, BEq.comm]
    cases key == f.1 <;> rfl

theorem entryId_body {body : Json} {id : String} (h : bodyId body = some id) : entryId body = .ok (.str id) := by
  obtain ⟨fields, rfl, ⟨hdata, hid⟩ | ⟨inner, hdata, _, hid⟩⟩ := bodyId_get h
  · simp [entryId, hasData, any_lookup, hdata, get, Json.getD, hid, Bind.bind, Except.bind]
  · simp [entryId, hasData, any_lookup, hdata, data, get, Json.getD, hid, Bind.bind, Except.bind]

theorem folderId_body {body : Json} {id : String} (hid : id ≠ "") (h : bodyId body = some id) :
    folderId body = .ok (.str id) := by
  obtain ⟨fields, rfl, ⟨hdata, hid'⟩ | ⟨inner, hdata, hnone, hid'⟩⟩ := bodyId_get h
  · simp [folderId, get, Json.getD, hid', Bind.bind, Except.bind, Json.truthy, hid, Pure.pure, Except.pure]
  · simp [folderId, get, Json.getD, hid', hnone, hdata, Bind.bind, Except.bind, Json.truthy]

theorem responseId_json {resp : Response} {id : String} (h : responseId resp = some id) :
    ∃ body, resp.json = .ok body ∧ bodyId body = some id := by
  obtain ⟨body, hj, hb⟩ := Option.bind_eq_some_iff.mp h
  cases hr : resp.json with
  | error e => simp [hr, Except.toOption] at hj
  | ok b =>
    simp only [hr, Except.toOption, Option.some.injEq] at hj
    exact ⟨b, rfl, hj ▸ hb⟩

/-- A resolve leaves the tree, and the client reads the id or None. -/
theorem exec_get {t t' : Tree} {url path : String} {headers : List (String × String)} {ans : Except Exc Response}
    (h : t.exec (.get url headers path) ans = some t') :
    t' = t ∧ outcome resolved (fun _ => .null) ans = .ok ((t.resolve path).elim .null .str) := by
  cases ans with
  | error e => cases h
  | ok resp =>
    simp only [exec] at h
    cases hr : t.resolve path with
    | some id =>
      rw [hr] at h
      simp only at h
      split at h
      · next hs =>
        cases h
        obtain ⟨body, hj, hb⟩ := responseId_json hs.2
        simp [outcome, resolved, hs.1, hj, Except.bind, entryId_body hb]
      · cases h
    | none =>
      rw [hr] at h
      simp only at h
      split at h
      · next hs =>
        cases h
        simp [outcome, resolved, hs]
      · cases h

theorem payload_lookup {name parentId : String} (hp : parentId ≠ "") :
    text ((folderPayload name (.str parentId)).lookup "name") = some name ∧
      text ((folderPayload name (.str parentId)).lookup "parentId") = some parentId := by
  have ht : (Json.str parentId).truthy = true := by simp [Json.truthy, hp]
  rw [folderPayload, if_pos ht]
  exact ⟨rfl, rfl⟩

/-- A create under a folder of the tree: the name is taken, or a new folder has it. -/
theorem exec_create {t t' : Tree} {url name parentId : String} {headers : List (String × String)}
    {ans : Except Exc Response}
    (hv : t.Valid) (hp : t.has parentId = true)
    (h : t.exec (.post url headers (folderPayload name (.str parentId))) ans = some t') :
    (∃ f, t.child parentId name = some f ∧ t' = t ∧
      outcome created (fun e => (.null, e.text)) ans = .ok (.str "CONFLICT", "")) ∨
      ∃ id, t.child parentId name = none ∧ t.fresh id = true ∧ t' = t.make id name parentId ∧
        outcome created (fun e => (.null, e.text)) ans = .ok (.str id, "") := by
  cases ans with
  | error e => cases h
  | ok resp =>
    obtain ⟨hn, hpar⟩ := @payload_lookup name _ (hv.has_ne hp).1
    simp only [exec, hn, hpar, Option.getD_some, creates, hp, Bool.true_eq_false, if_false] at h
    cases hc : t.child parentId name with
    | some f =>
      rw [hc] at h
      simp only [Option.isSome_some, if_true] at h
      split at h
      · next hs =>
        cases h
        exact Or.inl ⟨f, rfl, rfl, by simp [outcome, created, hs]⟩
      · cases h
    | none =>
      rw [hc] at h
      simp only [Option.isSome_none, Bool.false_eq_true, if_false] at h
      split at h
      · next id hid =>
        split at h
        · next hs =>
          cases h
          obtain ⟨body, hj, hb⟩ := responseId_json hid
          have hne : id ≠ "" := by
            have := hs.2
            simp only [fresh, Bool.and_eq_true, bne_iff_ne, ne_eq] at this
            exact this.1.1
          refine Or.inr ⟨id, rfl, hs.2, rfl, ?_⟩
          simp [outcome, created, hs.1, hj, Except.bind, Except.map, folderId_body hne hb]
        · cases h
      · cases h

/-! ## The server can always answer -/

def idLengths : List Folder → Nat
  | [] => 0
  | f :: folders => f.id.length + idLengths folders

/-- An id longer than all others. -/
def newId (t : Tree) : String := String.ofList (List.replicate (9 + t.root.length + idLengths t.folders) 'x')

theorem le_idLengths {f : Folder} {folders : List Folder} (h : f ∈ folders) : f.id.length ≤ idLengths folders := by
  induction folders with
  | nil => cases h
  | cons g folders ih =>
    rcases List.mem_cons.mp h with rfl | h
    · exact Nat.le_add_right _ _
    · exact Nat.le_trans (ih h) (Nat.le_add_left _ _)

theorem fresh_newId (t : Tree) : t.fresh t.newId = true := by
  have hlen : t.newId.length = 9 + t.root.length + idLengths t.folders := by simp [newId]
  have hne : ∀ id : String, id.length < t.newId.length → t.newId ≠ id :=
    fun id h he => by rw [he] at h; exact Nat.lt_irrefl _ h
  have hempty := hne "" (by rw [hlen]; exact Nat.lt_of_lt_of_le (by decide : 0 < 9) (by omega))
  have hconflict := hne "CONFLICT" (by rw [hlen]; exact Nat.lt_of_lt_of_le (by decide : 8 < 9) (by omega))
  have hroot := hne t.root (by omega)
  have hids : ∀ f ∈ t.folders, f.id ≠ t.newId := fun f hf he => hne f.id (by have := le_idLengths hf; omega) he.symm
  simp only [fresh, has, Bool.and_eq_true, bne_iff_ne, ne_eq, Bool.not_eq_true', Bool.or_eq_false_iff,
    beq_eq_false_iff_ne, List.any_eq_false, beq_iff_eq]
  exact ⟨⟨hempty, hconflict⟩, hroot, hids⟩

def idResponse (statusCode : Nat) (id : String) : Response := ⟨statusCode, "", .ok (.obj [("id", .str id)])⟩

def emptyResponse (statusCode : Nat) : Response := ⟨statusCode, "", .error ""⟩

theorem creates_answers (t : Tree) (name parentId : String) : ∃ resp t', t.creates name parentId resp = some t' := by
  by_cases hp : t.has parentId = false
  · exact ⟨emptyResponse 404, t, by simp [creates, hp, emptyResponse]⟩
  by_cases hc : (t.child parentId name).isSome = true
  · exact ⟨emptyResponse 409, t, by simp [creates, hp, hc, emptyResponse]⟩
  · refine ⟨idResponse 201 t.newId, t.make t.newId name parentId, ?_⟩
    simp [creates, hp, hc, idResponse, responseId, Except.toOption, bodyId, List.lookup_cons, fresh_newId]

theorem exec_answers (t : Tree) (o : HttpOp) : ∃ r t', t.exec o r = some t' := by
  cases o with
  | sleep ms => exact ⟨.ok (), t, rfl⟩
  | get url headers path =>
    cases h : t.resolve path with
    | some id =>
      exact ⟨.ok (idResponse 200 id), t,
        by simp [exec, h, idResponse, responseId, Except.toOption, bodyId, List.lookup_cons]⟩
    | none => exact ⟨.ok (emptyResponse 404), t, by simp [exec, h, emptyResponse]⟩
  | post url headers payload =>
    obtain ⟨resp, t', h⟩ :=
      creates_answers t ((text (payload.lookup "name")).getD "") ((text (payload.lookup "parentId")).getD t.root)
    exact ⟨.ok resp, t', h⟩

end Tree

end Connect.LucidLink
