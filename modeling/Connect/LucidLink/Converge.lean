/-
  Connect.LucidLink.Converge — concurrent `ensure_structure` calls on one tree of folders.

  Between two requests of a call the others only add folders. So a path that led to a
  folder keeps leading to it, the id a call carries stays the one of the path it has
  checked, and a create that meets a folder of its name makes the next resolve succeed:
  two attempts are enough for a segment.

  The key "" has no filename to pop: its call raises IndexError before it asks for
  anything. Every other call returns (True, ""), with its folders there for ever.
-/

import Connect.Await.Rely
import Connect.LucidLink.Tree

namespace Connect.LucidLink

open Await

abbrev CallWorld := World callers

/-- A request for the folder at `path`, the first of an attempt. -/
def asks (pid : Nat) (path : String) (e : Event httpSig Exc) : Bool :=
  e.pid == pid &&
    match e.op with
    | .get _ _ p => p == path
    | _ => false

/-- The attempts of a call at a path so far. -/
def attempts (pid : Nat) (path : String) (w : CallWorld) : Nat := w.hist.countP (asks pid path)

/-! ## The law of a call -/

/-- What the others may do: add folders. -/
def Others (pid : Nat) (a b : CallWorld) : Prop := a.st.Grows b.st ∧ ∀ path, attempts pid path b = attempts pid path a

def Promise (pid : Nat) (a b : CallWorld) : Prop :=
  a.st.Grows b.st ∧ b.st.Valid ∧ (∀ q, q ≠ pid → ∀ path, attempts q path b = attempts q path a) ∧
    ∀ path, attempts pid path b ≤ 2

/-- Every folder of the key is there. -/
def AllThere (t : Tree) (names : List String) : Prop :=
  ∀ k < names.length, ∃ id, t.resolve (prefixPath names (k + 1)) = some id

def Returned (call : EnsureCall) (x : Except Exc (Bool × String)) (w : CallWorld) : Prop :=
  call.fullKey ≠ "" → x = .ok (true, "") ∧ AllThere w.st (folders call.fullKey)

abbrev callLaw (pid : Nat) : Law CallWorld httpSig Exc :=
  callers.law (fun w => w.st.Valid) Others Promise (fun _ _ _ _ => True) pid

theorem Others.refl (pid : Nat) (w : CallWorld) : Others pid w w := ⟨.refl _, fun _ => rfl⟩

theorem Others.trans {pid : Nat} {a b c : CallWorld} (h : Others pid a b) (h' : Others pid b c) : Others pid a c :=
  ⟨h.1.trans h'.1, fun path => (h'.2 path).trans (h.2 path)⟩

theorem AllThere.grows {t t' : Tree} {names : List String} (h : AllThere t names) (hg : t.Grows t') :
    AllThere t' names := by
  intro k hk
  obtain ⟨id, hid⟩ := h k hk
  exact ⟨id, Tree.resolve_grows hg hid⟩

theorem attempts_after (q pid : Nat) (path : String) (w : CallWorld) (o : HttpOp) (r : Except Exc o.Ret) (t : Tree) :
    attempts q path (w.after pid o r t) = attempts q path w + if asks q path ⟨pid, o, r⟩ then 1 else 0 :=
  List.countP_cons

theorem attempts_other {q pid : Nat} (hne : q ≠ pid) (path : String) (w : CallWorld) (o : HttpOp)
    (r : Except Exc o.Ret) (t : Tree) :
    attempts q path (w.after pid o r t) = attempts q path w := by
  rw [attempts_after]
  simp [asks, Ne.symm hne]

/-! ## Requests -/

section Requests

variable {pid : Nat} {c : Client} {w : CallWorld}

/-- A request in a `try`, by what it does to the tree. -/
theorem wp_request {α : Type} {o : HttpOp} {read : httpSig.Ret o → Read α} {f : Exc → α}
    {Q : Except Exc α → CallWorld → Prop}
    (h : ∀ w₁, Others pid w w₁ → w₁.st.Valid → ∀ r t, w₁.st.exec o r = some t →
      Promise pid w₁ (w₁.after pid o r t) ∧ ∀ x, outcome read f r = x → Q x (w₁.after pid o r t)) :
    wp (callLaw pid) (((@Prog.await httpSig Exc o).bind fun resp => raising (read resp)).catching
      (onException f)) Q w := by
  intro w₁ hr hi r w₂ ⟨_, t, hx, hw⟩
  subst hw
  obtain ⟨hg, hq⟩ := h w₁ hr hi r t hx
  replace hq := hq _ rfl
  refine ⟨hg, ?_⟩
  cases r with
  | error e => cases hx
  | ok resp =>
    simp only [outcome] at hq
    cases hread : read resp with
    | ok a =>
      rw [hread] at hq
      simpa only [Prog.bind, raising, hread, Prog.pure_def, Prog.catching, onException, Exc.isException,
        if_true, wp_ret] using hq
    | error text =>
      rw [hread] at hq
      simpa only [Prog.bind, raising, hread, Prog.pure_def, Prog.catching, onException, Exc.isException,
        if_true, wp_ret] using hq

end Requests

/-! ## A call -/

/-- A call that has checked the first `i` folders, carries the id of the last, and has
    asked `n` times for the next. -/
structure Checked (pid : Nat) (names : List String) (i n : Nat) (currId : String) (w : CallWorld) : Prop where
  parent : w.st.walk w.st.root (names.take i) = some currId
  here : i < names.length → attempts pid (prefixPath names (i + 1)) w = n
  later : ∀ j, i < j → j < names.length → attempts pid (prefixPath names (j + 1)) w = 0
  few : ∀ path, attempts pid path w ≤ 2

section Calls

variable {pid : Nat} {c : Client} {names : List String} {i n : Nat} {currId : String} {w w' : CallWorld}

theorem Checked.others (h : Checked pid names i n currId w) (ho : Others pid w w') :
    Checked pid names i n currId w' where
  parent := by
    rw [ho.1.1]
    exact Tree.walk_grows ho.1 h.parent
  here hi := by rw [ho.2, h.here hi]
  later j hij hj := by rw [ho.2, h.later j hij hj]
  few path := by
    rw [ho.2]
    exact h.few path

/-- A create or a pause counts for no path. -/
theorem Checked.silent (h : Checked pid names i n currId w) {o : HttpOp} {r : Except Exc o.Ret} {t : Tree}
    (hg : w.st.Grows t)
    (ho : ∀ path, asks pid path ⟨pid, o, r⟩ = false) : Checked pid names i n currId (w.after pid o r t) := by
  have hcount : ∀ path, attempts pid path (w.after pid o r t) = attempts pid path w :=
    fun path => by simp [attempts_after, ho]
  refine ⟨?_, fun hi => by rw [hcount, h.here hi], fun j hij hj => by rw [hcount, h.later j hij hj], fun path => ?_⟩
  · show t.walk t.root _ = _
    rw [hg.1]
    exact Tree.walk_grows hg h.parent
  · rw [hcount]
    exact h.few path

theorem promise_silent (h : Checked pid names i n currId w) {o : HttpOp} {r : Except Exc o.Ret} {t : Tree}
    (hg : w.st.Grows t)
    (hv : t.Valid) (ho : ∀ path, asks pid path ⟨pid, o, r⟩ = false) : Promise pid w (w.after pid o r t) :=
  ⟨hg, hv, fun _ hq path => attempts_other hq path w o r t, fun path => (h.silent hg ho).few path⟩

theorem Checked.asked (h : Checked pid names i n currId w) (hi : i < names.length) (hn : n ≤ 1) {url : String}
    {headers : List (String × String)} {r : Except Exc (HttpOp.get url headers (prefixPath names (i + 1))).Ret} :
    Checked pid names i (n + 1) currId (w.after pid (.get url headers (prefixPath names (i + 1))) r w.st) := by
  have hcount : ∀ path, attempts pid path (w.after pid (.get url headers (prefixPath names (i + 1))) r w.st) =
      attempts pid path w + if prefixPath names (i + 1) = path then 1 else 0 := fun path => by
    rw [attempts_after]
    simp only [asks, BEq.rfl, Bool.true_and, beq_iff_eq]
  refine ⟨h.parent, fun _ => ?_, fun j hij hj => ?_, fun path => ?_⟩
  · rw [hcount, if_pos rfl, h.here hi]
  · rw [hcount, if_neg (prefixPath_ne hij hj), h.later j hij hj]
  · rw [hcount]
    have hfew := h.few path
    split
    · next he =>
      rw [← he, h.here hi]
      omega
    · exact hfew

/-- An attempt opens with a resolve. -/
theorem wp_resolve (hb : c.baseUrl ≠ "") (hnames : ∀ name ∈ names, name ≠ "" ∧ '/' ∉ name.toList)
    (hi : i < names.length)
    (hn : n ≤ 1) (h : Checked pid names i n currId w) {Q : Except Exc Json → CallWorld → Prop}
    (hQ : ∀ w₂, w.st.Grows w₂.st → w₂.st.Valid → Checked pid names i (n + 1) currId w₂ →
      Q (.ok ((w₂.st.walk w₂.st.root (names.take (i + 1))).elim .null .str)) w₂) :
    wp (callLaw pid) (getIdByPath c (prefixPath names (i + 1))) Q w := by
  rw [getIdByPath, if_neg hb]
  refine wp_request fun w₁ ho hv r t hx => ?_
  obtain ⟨rfl, hout⟩ := Tree.exec_get hx
  have hnext := @Checked.asked _ _ _ _ _ _ (h.others ho) hi hn (c.baseUrl ++ "/entries/resolve") c.getHeaders r
  refine ⟨⟨.refl _, hv, fun _ hq path => attempts_other hq path _ _ _ _, hnext.few⟩, fun x hx => ?_⟩
  obtain rfl := hx.symm.trans hout
  rw [Tree.resolve_prefix _ hnames]
  exact hQ (w₁.after pid (.get _ _ (prefixPath names (i + 1))) r w₁.st) ho.1 hv hnext

theorem walk_next {t : Tree} (hi : i < names.length) (h : t.walk t.root (names.take i) = some currId) :
    t.walk t.root (names.take (i + 1)) = (t.child currId names[i]).map (·.id) := by
  rw [List.take_succ_eq_append_getElem hi, Tree.walk_append, h]
  exact Tree.walk_child t currId _

/-- A create meets a folder of the name, or makes it. -/
theorem wp_create (hb : c.baseUrl ≠ "") (hi : i < names.length) (h : Checked pid names i n currId w)
    {Q : Except Exc (Json × String) → CallWorld → Prop}
    (hconflict : ∀ w₂ id, Checked pid names i n currId w₂ → w₂.st.walk w₂.st.root (names.take (i + 1)) = some id →
      Q (.ok (.str "CONFLICT", "")) w₂)
    (hmade : ∀ w₂ id, Checked pid names i n currId w₂ →
      w₂.st.walk w₂.st.root (names.take (i + 1)) = some id → id ≠ "" → id ≠ "CONFLICT" →
      Q (.ok (.str id, "")) w₂) :
    wp (callLaw pid) (createFolder c names[i] (.str currId)) Q w := by
  rw [createFolder, if_neg hb]
  refine wp_request fun w₁ ho hv r t hx => ?_
  have h₁ := h.others ho
  have hhas := Tree.walk_has (Tree.root_has _) h₁.parent
  rcases Tree.exec_create hv hhas hx with ⟨f, hf, rfl, hout⟩ | ⟨id, hnone, hfresh, rfl, hout⟩
  · refine ⟨promise_silent h₁ (.refl _) hv fun _ => Bool.and_false _, fun x hx => ?_⟩
    obtain rfl := hx.symm.trans hout
    refine hconflict _ f.id (h₁.silent (.refl _) fun _ => Bool.and_false _) ?_
    exact (walk_next hi h₁.parent).trans (by rw [hf]; rfl)
  · have hgrows := Tree.grows_make w₁.st id names[i] currId
    refine ⟨promise_silent h₁ hgrows (hv.make hfresh hhas hnone) fun _ => Bool.and_false _, fun x hx => ?_⟩
    obtain rfl := hx.symm.trans hout
    simp only [Tree.fresh, Bool.and_eq_true, bne_iff_ne, ne_eq] at hfresh
    refine hmade _ id (h₁.silent hgrows fun _ => Bool.and_false _) ?_ hfresh.1.1 hfresh.1.2
    have hparent := Tree.walk_grows hgrows h₁.parent
    exact (walk_next hi hparent).trans (by rw [Tree.child_make hnone]; rfl)

theorem wp_sleep {ms : Nat} (h : Checked pid names i n currId w) {Q : Except Exc Unit → CallWorld → Prop}
    (hQ : ∀ w₂, w.st.Grows w₂.st → Checked pid names i n currId w₂ → Q (.ok ()) w₂) :
    wp (callLaw pid) (sleep ms) Q w := by
  refine wp_await fun w₁ ho hv r w₂ ⟨_, t, hx, hw⟩ => ?_
  subst hw
  have h₁ := h.others ho
  cases r with
  | error e => cases hx
  | ok _ =>
    obtain rfl : w₁.st = t := Option.some.inj hx
    refine ⟨promise_silent h₁ (.refl _) hv fun _ => Bool.and_false _, ?_⟩
    exact hQ (w₁.after pid (.sleep ms) (.ok ()) w₁.st) ho.1 (h₁.silent (.refl _) fun _ => Bool.and_false _)

theorem str_truthy {s : String} (h : s ≠ "") : (Json.str s).truthy = true := by simp [Json.truthy, h]

theorem str_conflict {s : String} (h : s ≠ "CONFLICT") : isConflict (.str s) = false := by simp [isConflict, h]

/-- The next segment. -/
theorem Checked.next (h : Checked pid names i n currId w) {id : String}
    (hid : w.st.walk w.st.root (names.take (i + 1)) = some id) :
    Checked pid names (i + 1) 0 id w :=
  ⟨hid, fun hi => h.later (i + 1) (Nat.lt_succ_self i) hi, fun j hij hj => h.later j (by omega) hj, h.few⟩

theorem walk_truthy {t : Tree} (hv : t.Valid) {names : List String} {id : String}
    (h : t.walk t.root names = some id) :
    (Json.str id).truthy = true := str_truthy (hv.has_ne (Tree.walk_has (Tree.root_has t) h)).1

/-- Once the folder is there, the next attempt finds it. -/
theorem wp_found (hb : c.baseUrl ≠ "") (hnames : ∀ name ∈ names, name ≠ "" ∧ '/' ∉ name.toList)
    (hi : i < names.length)
    (hn : n ≤ 1) (h : Checked pid names i n currId w) {id : String}
    (hid : w.st.walk w.st.root (names.take (i + 1)) = some id)
    {attempts : Nat} {lastError : String} {Q : Except Exc Tried → CallWorld → Prop}
    (hQ : ∀ w₂ id, Checked pid names (i + 1) 0 id w₂ → Q (.ok ⟨some (.str id), lastError⟩) w₂) :
    wp (callLaw pid) (tryFolder c names[i] (prefixPath names (i + 1)) (.str currId)
      (attempts + 1) lastError) Q w := by
  refine wp_bind.mpr (wp_resolve hb hnames hi hn h fun w₂ hg hv h₂ => ?_)
  have hfound : w₂.st.walk w₂.st.root (names.take (i + 1)) = some id := by
    rw [hg.1]
    exact Tree.walk_grows hg hid
  rw [hfound, andThen_ok, Option.elim_some, if_pos (walk_truthy hv hfound)]
  exact hQ w₂ id (h₂.next hfound)

/-- Two attempts are enough. -/
theorem wp_tryFolder (hb : c.baseUrl ≠ "") (hnames : ∀ name ∈ names, name ≠ "" ∧ '/' ∉ name.toList)
    (hi : i < names.length)
    (h : Checked pid names i 0 currId w) {lastError : String} {Q : Except Exc Tried → CallWorld → Prop}
    (hQ : ∀ w₂ id, Checked pid names (i + 1) 0 id w₂ → Q (.ok ⟨some (.str id), lastError⟩) w₂) :
    wp (callLaw pid) (tryFolder c names[i] (prefixPath names (i + 1)) (.str currId) 3 lastError) Q w := by
  refine wp_bind.mpr (wp_resolve hb hnames hi (Nat.zero_le 1) h fun w₁ _ hv h₁ => ?_)
  cases hfound : w₁.st.walk w₁.st.root (names.take (i + 1)) with
  | some id =>
    rw [andThen_ok, Option.elim_some, if_pos (walk_truthy hv hfound)]
    exact hQ w₁ id (h₁.next hfound)
  | none =>
    rw [andThen_ok, Option.elim_none, if_neg (by simp [Json.truthy])]
    refine wp_bind.mpr (wp_create hb hi h₁ (fun w₂ id h₂ hid => ?_) fun w₂ id h₂ hid hne hnc => ?_)
    · -- the name was taken since the resolve
      rw [andThen_ok, if_pos (by rfl)]
      refine wp_bind.mpr (wp_sleep h₂ fun w₃ hg h₃ => ?_)
      have hthere : w₃.st.walk w₃.st.root (names.take (i + 1)) = some id := by
        rw [hg.1]
        exact Tree.walk_grows hg hid
      exact wp_found hb hnames hi (Nat.le_refl 1) h₃ hthere hQ
    · rw [andThen_ok, if_neg (by simp [str_conflict hnc]), if_pos (str_truthy hne)]
      exact hQ w₂ id (h₂.next hid)

theorem wp_ensureFolders (hb : c.baseUrl ≠ "") (hnames : ∀ name ∈ names, name ≠ "" ∧ '/' ∉ name.toList)
    {rest : List String}
    (hrest : names.drop i = rest) (h : Checked pid names i 0 currId w) {lastError : String} :
    wp (callLaw pid) (ensureFolders c rest (Path.absolute (names.take i)) (.str currId) lastError)
      (fun x w => x = .ok (true, "") ∧ AllThere w.st names) w := by
  induction rest generalizing i currId w lastError with
  | nil =>
    refine ⟨rfl, fun k hk => ?_⟩
    have hlen : names.length ≤ i := List.drop_eq_nil_iff.mp hrest
    rw [Tree.resolve_prefix _ hnames]
    exact Tree.walk_take (by omega) h.parent
  | cons folder rest ih =>
    obtain ⟨hi, rfl, hdrop⟩ := drop_eq_cons hrest
    rw [ensureFolders, prefixPath_succ hi]
    refine wp_bind.mpr (wp_tryFolder hb hnames hi h fun w₂ id h₂ => ?_)
    rw [andThen_ok, prefixPath_take]
    exact ih hdrop h₂

theorem wp_ensureParts (hb : c.baseUrl ≠ "") (hnames : ∀ name ∈ names, name ≠ "" ∧ '/' ∉ name.toList)
    (hnone : ∀ path, attempts pid path w = 0) :
    wp (callLaw pid) (ensureParts c names) (fun x w => x = .ok (true, "") ∧ AllThere w.st names) w := by
  unfold ensureParts
  split
  · next hn =>
    subst hn
    exact ⟨rfl, fun k hk => absurd hk (Nat.not_lt_zero k)⟩
  refine wp_bind.mpr ?_
  rw [getIdByPath, if_neg hb]
  refine wp_request fun w₁ ho hv r t hx => ?_
  obtain ⟨rfl, hout⟩ := Tree.exec_get hx
  have hroot : w₁.st.resolve "/" = some w₁.st.root := @Tree.resolve_prefix w₁.st [] (by simp) 0
  have hcount : ∀ path, attempts pid path
      (w₁.after pid (.get (c.baseUrl ++ "/entries/resolve") c.getHeaders "/") r w₁.st) =
        if "/" = path then 1 else 0 := by
    intro path
    rw [attempts_after, ho.2, hnone]
    simp only [asks, BEq.rfl, Bool.true_and, beq_iff_eq, Nat.zero_add]
  have hchecked : Checked pid names 0 0 w₁.st.root
      (w₁.after pid (.get (c.baseUrl ++ "/entries/resolve") c.getHeaders "/") r w₁.st) := by
    have hne : ∀ j, j < names.length → "/" ≠ prefixPath names (j + 1) := fun j hj =>
      (prefixPath_root (fun name hn => (hnames name hn).1) hj).symm
    refine ⟨rfl, fun hi => ?_, fun j _ hj => ?_, fun path => ?_⟩
    · rw [hcount, if_neg (hne 0 hi)]
    · rw [hcount, if_neg (hne j hj)]
    · rw [hcount]
      split <;> omega
  refine ⟨⟨.refl _, hv, fun _ hq path => attempts_other hq path _ _ _ _, hchecked.few⟩, fun x hx => ?_⟩
  obtain rfl := hx.symm.trans hout
  rw [hroot, andThen_ok, Option.elim_some, if_pos (str_truthy hv.root.1)]
  exact wp_ensureFolders hb hnames rfl hchecked

end Calls

def convergeLaw : Sound callers any where
  inv w := w.st.Valid
  rely := Others
  guar pid _ := Promise pid
  allow _ _ _ _ := True
  post _ call x w := Returned call x w
  refl := Others.refl
  trans _ _ _ _ := Others.trans
  init _ h := h
  keep _ _ _ _ _ h := h.2.1
  others pid _ q _ _ hne _ h := ⟨h.1, h.2.2.1 q hne.symm⟩
  outside _ e := nomatch e
  allowed _ _ _ := trivial
  stable _ call x w w' hr h hkey := ⟨(h hkey).1, (h hkey).2.grows hr.1⟩
  code pid call w hv hs hf := by
    have hb : call.client.baseUrl ≠ "" := by simpa using hs
    have hnone : ∀ path, attempts pid path w = 0 := by
      intro path
      refine List.countP_eq_zero.mpr fun e he ha => hf e he ?_
      simp only [asks, Bool.and_eq_true, beq_iff_eq] at ha
      exact ha.1
    show wp (callLaw pid) (ensureStructure call.client call.fullKey) _ w
    by_cases hkey : call.fullKey = ""
    · rw [hkey]
      exact fun h => absurd hkey h
    · have hparts := folderParts_eq hkey
      rw [← folders_eq] at hparts
      rw [ensureStructure, hparts]
      exact wp_mono (fun x w h _ => h) (wp_ensureParts hb (fun name h => folders_name h) hnone)

/-! ## Every run -/

/-- No call dies, and a call that has a request left makes it. -/
structure Served (s : Tree) (f : Sched callers) : Prop where
  alive : ∀ pid n, f n ≠ .crash pid
  again : ∀ pid n o k, (conf s f n).procs pid = some (.op o k) →
    ∃ m, n ≤ m ∧ ∃ e, event (conf s f m) (f m) = some e ∧ e.pid = pid

structure Converges (s : Tree) (f : Sched callers) : Prop where
  /-- Every call returns (True, ""), and from then on all its folders are there. -/
  returns : ∀ pid n call, (conf s f n).task pid = some call → ∃ m, n ≤ m ∧ ∀ m', m ≤ m' →
    (conf s f m').procs pid = some (.ret (true, "")) ∧ AllThere (conf s f m').w.st (folders call.fullKey)
  /-- No two folders have the same path. -/
  unique : ∀ n path i j, (conf s f n).w.st.At i path → (conf s f n).w.st.At j path → i = j
  two : ∀ pid n call, (conf s f n).task pid = some call → ∀ path, attempts pid path (conf s f n).w ≤ 2
  /-- The server can answer whatever a call asks for. -/
  answered : ∀ n pid o k, (conf s f n).procs pid = some (.op o k) → ∃ r t, (conf s f n).w.st.exec o r = some t

section Runs

variable {s : Tree} {f : Sched callers}

theorem call_reach (hs : s.Valid) (n : Nat) : Reach any (conf s f n) := conf_reach hs fun _ _ _ _ => trivial

theorem call_attempts (hs : s.Valid) {n pid : Nat} {call : EnsureCall}
    (ht : (conf s f n).task pid = some call) (path : String) :
    attempts pid path (conf s f n).w ≤ 2 := by
  refine convergeLaw.always (fun pid _ w => ∀ path, attempts pid path w ≤ 2) (fun pid t w h path => ?_)
    (fun pid t a b hr h path => ?_) (fun pid t a b _ hg _ => hg.2.2.2) (call_reach hs n) pid call ht path
  · rw [attempts, List.countP_eq_zero.mpr]
    · exact Nat.zero_le 2
    · intro e he ha
      simp only [asks, Bool.and_eq_true, beq_iff_eq] at ha
      exact h e he ha.1
  · rw [hr.2]
    exact h path

/-- What is left of a call, and what it was. -/
theorem call_form (hs : s.Valid) (F : EnsureCall → HttpProg (Bool × String) → Prop)
    (hcode : ∀ call : EnsureCall, F call (ensureStructure call.client call.fullKey))
    (hop : ∀ call o k r, F call (.op o k) → F call (k r))
    {n pid : Nat} {call : EnsureCall} (ht : (conf s f n).task pid = some call) {p : HttpProg (Bool × String)}
    (hp : (conf s f n).procs pid = some p) : F call p := by
  obtain ⟨call', ht', hF⟩ :=
    procs_form (fun _ call p => F call p) (fun _ => hcode) (fun _ => hop) (call_reach hs n) pid p hp
  rw [ht] at ht'
  cases ht'
  exact hF

/-- A call with the empty key raises, and that is all it does. -/
theorem call_empty (hs : s.Valid) {n pid : Nat} {call : EnsureCall} (ht : (conf s f n).task pid = some call)
    (hkey : call.fullKey = "")
    {p : HttpProg (Bool × String)} (hp : (conf s f n).procs pid = some p) :
    p = .raise (.exception "pop from empty list") := by
  refine call_form hs (fun call p => call.fullKey = "" → p = .raise (.exception "pop from empty list"))
    (fun call hkey => ?_) (fun call o k r h hkey => ?_) ht hp hkey
  · rw [hkey]
    rfl
  · cases h hkey

/-- A call with another key comes to its end, and returns. -/
theorem call_returns (hs : s.Valid) (hf : Served s f) {n pid : Nat} {call : EnsureCall}
    (ht : (conf s f n).task pid = some call) (hkey : call.fullKey ≠ "") : ∃ m, n ≤ m ∧ ∀ m', m ≤ m' →
      (conf s f m').procs pid = some (.ret (true, "")) ∧ AllThere (conf s f m').w.st (folders call.fullKey) := by
  obtain ⟨p, hp⟩ := started_alive hf.alive ht
  obtain ⟨b, hb⟩ :=
    call_form hs (fun _ p => ∃ b, p.Within b) (fun call => within_ensureStructure call.client call.fullKey)
    (fun _ o k r ⟨b, hb⟩ => by obtain ⟨b', _, hk⟩ := hb; exact ⟨b', hk r⟩) ht hp
  obtain ⟨m, hnm, q, hq, hend⟩ := served_ends hs (hf.alive pid) (hf.again pid) hp hb
  -- what it has come to is what the law says of its end
  have hpost : ∀ {m q}, n ≤ m → (conf s f m).procs pid = some q → (∀ o k, q ≠ .op o k) →
      q = .ret (true, "") ∧ AllThere (conf s f m).w.st (folders call.fullKey) := by
    intro m q hnm hq hend
    obtain ⟨call', ht', hw⟩ := (convergeLaw.keeps (call_reach hs m)).2 pid q hq
    rw [task_stays hs hnm ht] at ht'
    cases ht'
    cases q with
    | ret v =>
      obtain ⟨hv, hall⟩ := (show Returned call (.ok v) (conf s f m).w from hw) hkey
      cases hv
      exact ⟨rfl, hall⟩
    | raise e =>
      obtain ⟨hv, _⟩ := (show Returned call (.error e) (conf s f m).w from hw) hkey
      cases hv
    | op o k => exact absurd rfl (hend o k)
  obtain ⟨rfl, _⟩ := hpost hnm hq hend
  refine ⟨m, hnm, fun m' hm' => ?_⟩
  have hq' := ended_stays hs (hf.alive pid) hm' hq hend
  exact ⟨hq', (hpost (Nat.le_trans hnm hm') hq' hend).2⟩

/-- Any number of calls converge exactly when none of them has the empty key. -/
theorem converges_iff (hs : s.Valid) (hf : Served s f) :
    Converges s f ↔ ∀ pid n call, (conf s f n).task pid = some call → call.fullKey ≠ "" := by
  constructor
  · intro h pid n call ht hkey
    obtain ⟨m, hnm, hret⟩ := h.returns pid n call ht
    have he := call_empty hs (task_stays hs hnm ht) hkey (hret m (Nat.le_refl m)).1
    cases he
  · intro h
    exact
      { returns := fun pid n call ht => call_returns hs hf ht (h pid n call ht)
        unique := fun n _ _ _ hi hj => hi.unique (convergeLaw.keeps (call_reach hs n)).1 hj
        two := fun _ _ _ ht path => call_attempts hs ht path
        answered := fun n _ o _ _ => Tree.exec_answers (conf s f n).w.st o }

end Runs

/-! ## Two runs -/

def emptyTree : Tree := ⟨"r", []⟩

def theClient : Client := Client.configure "host" "token" "fs"

theorem emptyTree_valid : emptyTree.Valid where
  root := by decide
  ids := nofun
  unique := by decide
  names := nofun
  parents := nofun

/-- What a server answers. -/
def serve (t : Tree) : (o : HttpOp) → Except Exc o.Ret
  | .sleep _ => .ok ()
  | .get _ _ path =>
    match t.resolve path with
    | some id => .ok (Tree.idResponse 200 id)
    | none => .ok (Tree.emptyResponse 404)
  | .post _ _ _ => if t.folders = [] then .ok (Tree.idResponse 201 "1") else .ok (Tree.emptyResponse 409)

/-- Two calls for the folder `a`: both miss it, one makes it, and the other meets the
    conflict and finds it. -/
def twoCalls : Sched callers :=
  sched [.start ⟨theClient, "a/f"⟩, .start ⟨theClient, "a/g"⟩, .run 0 serve, .run 1 serve, .run 0 serve, .run 1 serve,
    .run 0 serve, .run 1 serve, .run 1 serve, .run 1 serve] (.run 0 serve)

def emptyKey : Sched callers := sched [.start ⟨theClient, ""⟩] (.run 0 serve)

theorem sched_alive {chs : List (Choice callers)} {rest : Choice callers}
    (h : ∀ ch ∈ rest :: chs, ∀ pid, ch ≠ .crash pid) (pid n : Nat) :
    sched chs rest n ≠ .crash pid := by
  refine h _ ?_ pid
  unfold sched
  cases hn : chs[n]? with
  | none => simp [List.getD, hn]
  | some ch => simp [List.getD, hn, List.mem_of_getElem? hn]

theorem twoCalls_alive : ∀ pid n, twoCalls n ≠ .crash pid := sched_alive (by simp)

theorem twoCalls_first : (conf emptyTree twoCalls 7).procs 0 = some (.ret (true, "")) := by rfl

theorem twoCalls_second : (conf emptyTree twoCalls 10).procs 1 = some (.ret (true, "")) := by rfl

/-- A run over after its choices: the rest finds process 0 ended. -/
theorem conf_rest {chs : List (Choice callers)} {p : HttpProg (Bool × String)}
    (hp : (conf emptyTree (sched chs (.run 0 serve)) chs.length).procs 0 = some p)
    (hend : ∀ o k, p ≠ .op o k) {n : Nat} (hn : chs.length ≤ n) :
    conf emptyTree (sched chs (.run 0 serve)) n = conf emptyTree (sched chs (.run 0 serve)) chs.length := by
  induction n with
  | zero => rw [Nat.le_zero.mp hn]
  | succ n ih =>
    rcases Nat.lt_or_ge n chs.length with hlt | hge
    · rw [show n + 1 = chs.length by omega]
    · have hrest : sched chs (.run 0 serve) n = .run 0 serve := by simp [sched, List.getD, List.getElem?_eq_none hge]
      show step (conf emptyTree _ n) (sched chs (.run 0 serve) n) = _
      rw [ih hge, hrest, run_idle]
      cases p with
      | ret v => simp [event, hp]
      | raise e => simp [event, hp]
      | op o k => exact absurd rfl (hend o k)

theorem twoCalls_rest {n : Nat} (hn : 10 ≤ n) : conf emptyTree twoCalls n = conf emptyTree twoCalls 10 :=
  conf_rest (p := .ret (true, "")) rfl nofun hn

theorem twoCalls_next : ∀ n ≤ 10, (conf emptyTree twoCalls n).next ≤ 2 := by decide

theorem twoCalls_few (n : Nat) : (conf emptyTree twoCalls n).next ≤ 2 := by
  rcases Nat.lt_or_ge n 10 with hlt | hge
  · exact twoCalls_next n (by omega)
  · rw [twoCalls_rest hge]
    exact twoCalls_next 10 (Nat.le_refl 10)

/-- Once its last request is answered a call has none left. -/
theorem served_until {f : Sched callers} (halive : ∀ pid n, f n ≠ .crash pid) {pid last : Nat} {v : Bool × String}
    (hlast : ∃ e, event (conf emptyTree f last) (f last) = some e ∧ e.pid = pid)
    (hret : (conf emptyTree f (last + 1)).procs pid = some (.ret v)) (n : Nat) {o : HttpOp}
    {k : Except Exc o.Ret → HttpProg (Bool × String)}
    (hp : (conf emptyTree f n).procs pid = some (.op o k)) :
    ∃ m, n ≤ m ∧ ∃ e, event (conf emptyTree f m) (f m) = some e ∧ e.pid = pid := by
  rcases Nat.lt_or_ge last n with hlt | hge
  · have hstill := ended_stays (n := last + 1) emptyTree_valid (halive pid) hlt hret nofun
    rw [hp] at hstill
    cases hstill
  · exact ⟨last, hge, hlast⟩

theorem twoCalls_served : Served emptyTree twoCalls := by
  refine ⟨twoCalls_alive, fun pid n o k hp => ?_⟩
  match pid with
  | 0 => exact @served_until _ twoCalls_alive _ 6 _ ⟨_, rfl, rfl⟩ twoCalls_first n _ _ hp
  | 1 => exact @served_until _ twoCalls_alive _ 9 _ ⟨_, rfl, rfl⟩ twoCalls_second n _ _ hp
  | pid + 2 =>
    have hnone :=
      (fresh (call_reach (f := twoCalls) emptyTree_valid n)).procs (pid + 2) (by have := twoCalls_few n; omega)
    rw [hp] at hnone
    cases hnone

theorem twoCalls_keys {pid n : Nat} {call : EnsureCall}
    (ht : (conf emptyTree twoCalls n).task pid = some call) : call.fullKey ≠ "" := by
  have hstarted : ∀ m c, (conf emptyTree twoCalls m).task pid = some c → m ≤ n ∨ n ≤ m → c = call := by
    intro m c hm hmn
    rcases hmn with hmn | hmn
    · have := task_stays emptyTree_valid hmn hm
      rw [ht] at this
      exact (Option.some.inj this).symm
    · have := task_stays emptyTree_valid hmn ht
      rw [hm] at this
      exact Option.some.inj this
  match pid with
  | 0 =>
    rw [← hstarted 1 ⟨theClient, "a/f"⟩ rfl (Nat.le_total 1 n)]
    exact by decide
  | 1 =>
    rw [← hstarted 2 ⟨theClient, "a/g"⟩ rfl (Nat.le_total 2 n)]
    exact by decide
  | pid + 2 =>
    have hnone :=
      (fresh (call_reach (f := twoCalls) emptyTree_valid n)).task (pid + 2) (by have := twoCalls_few n; omega)
    rw [ht] at hnone
    cases hnone

theorem converges_twoCalls : Served emptyTree twoCalls ∧ Converges emptyTree twoCalls :=
  ⟨twoCalls_served, (converges_iff emptyTree_valid twoCalls_served).mpr fun _ _ _ ht => twoCalls_keys ht⟩

theorem emptyKey_raised : (conf emptyTree emptyKey 1).procs 0 = some (.raise (.exception "pop from empty list")) := by
  rfl

theorem emptyKey_served : Served emptyTree emptyKey := by
  refine ⟨sched_alive (by simp), fun pid n o k hp => ?_⟩
  match n with
  | 0 => cases hp
  | n + 1 =>
    have hrest : conf emptyTree emptyKey (n + 1) = conf emptyTree emptyKey 1 :=
      conf_rest emptyKey_raised nofun (Nat.le_add_left 1 n)
    rw [hrest] at hp
    by_cases h : pid = 0
    · rw [h, emptyKey_raised] at hp
      cases hp
    · have hnone : (conf emptyTree emptyKey 1).procs pid = none := upd_ne _ _ h
      rw [hnone] at hp
      cases hp

/-- One call with the key "": no run of it returns. -/
theorem emptyKey_raises : Served emptyTree emptyKey ∧ ¬ Converges emptyTree emptyKey := by
  refine ⟨emptyKey_served, fun h => ?_⟩
  obtain ⟨m, hm, hret⟩ := h.returns 0 1 ⟨theClient, ""⟩ rfl
  have hraised := ended_stays (n := 1) emptyTree_valid (emptyKey_served.alive 0) hm emptyKey_raised nofun
  rw [(hret m (Nat.le_refl m)).1] at hraised
  cases hraised

end Connect.LucidLink
