/-
  Connect.Sqs.Delivery — a message is deleted with its events settled, unless a probe takes
  an unfinished row for done.

  The pending row is committed before the import, and `exists_for_message` asks for any
  row whatever its status. When a worker crashes, or is still importing, between its INSERT
  and its final write, a later delivery of the message finds the row, skips the event and
  deletes the message (`event_lost`). `ProbeOk` rules exactly this out: a probe that says
  yes has a row with a final status to speak for it.

  In the runs without it no create event is lost (`none_lost`): when `delete_message` was
  called, every create event of the body has a row that is completed, skipped or failed.
  A worker settles each event before it goes on (`wp_handleEvent`), rows are written by
  their own worker only, and a final status never gives way to another.
-/

import Connect.Sqs.Sweep

namespace Connect.Sqs

open Await

variable {room : Nat}

/-- The event has a row with a final status. -/
def Done (s : Store) (key : EventKey) : Prop := ∃ row ∈ s.events, row.key = key ∧ row.status.terminal = true

/-- Every create event of a delivered message is done. -/
def Settled (room : Nat) (s : Store) (d : Delivery) : Prop :=
  ∀ event ∈ createEvents room d.body, Done s ⟨d.messageId, d.queueId, event.key⟩

def deletes (queue : SqsQueue) (receiptHandle : String) (e : Event sqsSig Exc) : Prop :=
  e.op = .deleteMessage queue receiptHandle

/-- No message was deleted from its queue before its events were done. -/
def NoneLost (c : Config (pollers room)) : Prop :=
  ∀ e ∈ c.w.hist, ∀ queue receiptHandle, deletes queue receiptHandle e →
    ∀ d ∈ c.w.st.deliveries, d.queueId = queue.id → d.receiptHandle = receiptHandle → Settled room c.w.st d

/-- A probe that finds a row finds a final status. -/
def ProbeAllowed (s : Store) : (o : SqsOp) → Except Exc o.Ret → Prop
  | .existsForMessage key, .ok (true : Bool) => Done s key
  | _, _ => True

def ProbeOk (c : Config (pollers room)) (e : Event sqsSig Exc) : Prop := ProbeAllowed c.w.st e.op e.ans

/-! ## The store -/

/-- The rows process `pid` inserted. -/
def own (pid : Nat) (s : Store) : List SqsEvent := s.events.filter (·.id.worker == pid)

structure StoreInv (s : Store) : Prop where
  ids : s.events.Pairwise fun a b => a.id ≠ b.id
  handles : s.deliveries.Pairwise fun a b => a.receiptHandle ≠ b.receiptHandle

/-- Nothing that is done is undone, and no delivery is forgotten. -/
structure Kept (s s' : Store) : Prop where
  done : ∀ key, Done s key → Done s' key
  deliveries : ∀ d ∈ s.deliveries, d ∈ s'.deliveries

theorem Kept.refl (s : Store) : Kept s s := ⟨fun _ h => h, fun _ h => h⟩

theorem Kept.trans {a b c : Store} (h : Kept a b) (h' : Kept b c) : Kept a c :=
  ⟨fun key hk => h'.done key (h.done key hk), fun d hd => h'.deliveries d (h.deliveries d hd)⟩

theorem Kept.settled {s s' : Store} (h : Kept s s') {d : Delivery} (hd : Settled room s d) : Settled room s' d :=
  fun event he => h.done _ (hd event he)

theorem eq_of_pairwise {α β : Type} {f : α → β} {l : List α} (h : l.Pairwise fun a b => f a ≠ f b) {a b : α}
    (ha : a ∈ l) (hb : b ∈ l) (e : f a = f b) : a = b := by
  induction l with
  | nil => cases ha
  | cons x l ih =>
    obtain ⟨hx, hl⟩ := List.pairwise_cons.mp h
    rcases List.mem_cons.mp ha with rfl | ha' <;> rcases List.mem_cons.mp hb with rfl | hb'
    · rfl
    · exact absurd e (hx b hb')
    · exact absurd e.symm (hx a ha')
    · exact ih hl ha' hb'

theorem newHandles_pairwise {known ds : List Delivery} (h : newHandles known ds = true)
    (hk : known.Pairwise fun a b => a.receiptHandle ≠ b.receiptHandle) :
    (ds.reverse ++ known).Pairwise fun a b => a.receiptHandle ≠ b.receiptHandle := by
  induction ds generalizing known with
  | nil => exact hk
  | cons d ds ih =>
    simp only [newHandles, Bool.and_eq_true, List.all_eq_true, bne_iff_ne, ne_eq] at h
    have := ih h.2 (List.pairwise_cons.mpr ⟨fun x hx e => h.1 x hx e.symm, hk⟩)
    simpa using this

theorem did_storeInv {pid : Nat} {s s' : Store} {o : SqsOp} {r : Except Exc o.Ret} (h : Did pid s o r s')
    (hi : StoreInv s) :
    StoreInv s' := by
  cases h with
  | created hrow hf | recorded hrow hf =>
    refine ⟨List.pairwise_cons.mpr ⟨fun x hx e => ?_, hi.ids⟩, hi.handles⟩
    exact (fresh_iff.mp hf).2 x hx (by rw [← e, (newRow_some hrow).1])
  | updated => exact ⟨List.pairwise_map.mpr (by simpa using hi.ids), hi.handles⟩
  | received hn => exact ⟨hi.ids, newHandles_pairwise hn hi.handles⟩
  | _ => exact ⟨hi.ids, hi.handles⟩

theorem did_own {pid q : Nat} {s s' : Store} {o : SqsOp} {r : Except Exc o.Ret} (h : Did pid s o r s') (hne : q ≠ pid)
    (hu : ∀ id st msg, o = .updateStatus id st msg → id.worker = pid) : own q s' = own q s := by
  have hcons : ∀ row : SqsEvent, row.id.worker = pid → own q (s.insert row) = own q s := by
    intro row hw
    have : (row.id.worker == q) = false := by simp [hw, Ne.symm hne]
    simp [own, Store.insert, this]
  cases h with
  | created hrow hf | recorded hrow hf =>
    exact hcons _ (by rw [(newRow_some hrow).1]; exact (fresh_iff.mp hf).1)
  | @updated id st msg found =>
    have hw := hu id st msg rfl
    have hpatch : ∀ rows : List SqsEvent, (rows.map (patch id st msg)).filter (·.id.worker == q) =
        rows.filter (·.id.worker == q) := by
      intro rows
      induction rows with
      | nil => rfl
      | cons row rows ih =>
        by_cases e : row.id.worker = q
        · have hid : row.id ≠ id := fun h => hne (by rw [← e, h, hw])
          have hsame : patch id st msg row = row := by simp [patch, hid]
          simp [e, hsame, ih]
        · simp [e, ih]
    exact hpatch s.events
  | _ => rfl

theorem did_kept {pid : Nat} {s s' : Store} {o : SqsOp} {r : Except Exc o.Ret} (h : Did pid s o r s')
    (hu : ∀ id st msg, o = .updateStatus id st msg → st.terminal = true ∨ ∀ row ∈ s.events, row.id = id →
      row.status.terminal = false) :
    Kept s s' := by
  have hcons : ∀ row : SqsEvent, Kept s (s.insert row) := fun row =>
    ⟨fun key ⟨x, hx, hk⟩ => ⟨x, List.mem_cons_of_mem _ hx, hk⟩, fun _ hd => hd⟩
  cases h with
  | created | recorded => exact hcons _
  | @updated id st msg found =>
    refine ⟨fun key ⟨row, hrow, hk, ht⟩ => ⟨_, List.mem_map_of_mem hrow, by simp [hk], ?_⟩, fun _ hd => hd⟩
    rw [patch_status]
    split
    · rename_i hid
      rcases hu id st msg rfl with h | h
      · exact h
      · rw [h row hrow hid] at ht; cases ht
    · exact ht
  | received => exact ⟨fun _ h => h, fun _ hd => List.mem_append_right _ hd⟩
  | _ => exact ⟨fun _ h => h, fun _ hd => hd⟩

/-! ## The law of a worker -/

structure DeliveryInv (w : SqsWorld room) : Prop where
  store : StoreInv w.st
  deleted : ∀ e ∈ w.hist, ∀ queue receiptHandle, deletes queue receiptHandle e →
    ∃ d ∈ w.st.deliveries, d.queueId = queue.id ∧ d.receiptHandle = receiptHandle ∧ Settled room w.st d

structure DeliveryRely (pid : Nat) (w w' : SqsWorld room) : Prop where
  own : own pid w'.st = own pid w.st
  kept : Kept w.st w'.st

structure DeliveryPromise (pid : Nat) (w w' : SqsWorld room) : Prop where
  store : StoreInv w.st → StoreInv w'.st
  kept : Kept w.st w'.st
  others : ∀ q, q ≠ pid → own q w'.st = own q w.st
  hist : ∃ e, w'.hist = e :: w.hist ∧ ∀ queue receiptHandle, deletes queue receiptHandle e →
    ∃ d ∈ w.st.deliveries, d.queueId = queue.id ∧ d.receiptHandle = receiptHandle ∧ Settled room w.st d

abbrev deliveryLawOf (room pid : Nat) : Law (SqsWorld room) sqsSig Exc :=
  (pollers room).law DeliveryInv DeliveryRely DeliveryPromise (fun _ w o r => ProbeAllowed w.st o r) pid

section Worker

variable {pid : Nat} {w w' : SqsWorld room} {key : EventKey} {id : EventId}

/-- One operation, with what its process has to show for it. -/
theorem deliveryPromise_of {o : SqsOp} {r : Except Exc o.Ret} (ha : (deliveryLawOf room pid).act w o r w')
    (hu : ∀ id st msg, o = .updateStatus id st msg → id.worker = pid ∧
      (st.terminal = true ∨ ∀ row ∈ w.st.events, row.id = id → row.status.terminal = false))
    (hd : ∀ queue receiptHandle, o = .deleteMessage queue receiptHandle →
      ∃ d ∈ w.st.deliveries, d.queueId = queue.id ∧ d.receiptHandle = receiptHandle ∧ Settled room w.st d) :
    DeliveryPromise pid w w' := by
  obtain ⟨_, s, hx, rfl⟩ := ha
  have hdid := poller_did hx
  refine ⟨did_storeInv hdid, did_kept hdid fun id st msg h => (hu id st msg h).2, fun q hne => ?_, _, rfl, hd⟩
  exact did_own hdid hne fun id st msg h => (hu id st msg h).1

/-- The operations that neither update a row nor delete a message. -/
def TameOp : SqsOp → Prop
  | .updateStatus _ _ _ | .deleteMessage _ _ => False
  | _ => True

theorem quiet_tame (o : SqsOp) (h : QuietOp o) : TameOp o := by
  cases o <;> trivial

theorem outer_tame (o : SqsOp) (h : OuterOp o) : TameOp o := by
  cases o <;> trivial

theorem tame_promise {o : SqsOp} {r : Except Exc o.Ret} (ha : (deliveryLawOf room pid).act w o r w') (ho : TameOp o) :
    DeliveryPromise pid w w' :=
  deliveryPromise_of ha (fun id st msg h => by subst h; cases ho) fun queue handle h => by subst h; cases ho

/-- The process's row of an event, with a status of `P`. -/
def Row (pid : Nat) (id : EventId) (key : EventKey) (P : EventStatus → Prop) (w : SqsWorld room) : Prop :=
  id.worker = pid ∧ ∃ row ∈ w.st.events, row.id = id ∧ row.key = key ∧ P row.status

theorem Row.rely {P : EventStatus → Prop} (hr : DeliveryRely pid w w') (h : Row pid id key P w) :
    Row pid id key P w' := by
  obtain ⟨hw, row, hrow, hid, hk⟩ := h
  have hmem : row ∈ own pid w.st := List.mem_filter.mpr ⟨hrow, by simp [hid, hw]⟩
  rw [← hr.own] at hmem
  exact ⟨hw, row, (List.mem_filter.mp hmem).1, hid, hk⟩

theorem Row.any {P : EventStatus → Prop} (h : Row pid id key P w) : Row pid id key (fun _ => True) w :=
  ⟨h.1, h.2.imp fun _ h => ⟨h.1, h.2.1, h.2.2.1, trivial⟩⟩

/-- An operation that writes no status leaves every row. -/
theorem tame_events {s s' : Store} {o : SqsOp} {r : Except Exc o.Ret} (ho : TameOp o) (h : Did pid s o r s') :
    ∀ row ∈ s.events, row ∈ s'.events := by
  cases h with
  | created | recorded => exact fun _ hrow => List.mem_cons_of_mem _ hrow
  | updated => cases ho
  | _ => exact fun _ hrow => hrow

theorem rowKeeping (P : EventStatus → Prop) : Keeping (deliveryLawOf room pid) TameOp (Row pid id key P) := by
  refine ⟨fun a b hr => Row.rely hr, fun w o r w' ho h _ ha => ⟨tame_promise ha ho, ?_⟩⟩
  obtain ⟨_, s, hx, rfl⟩ := ha
  obtain ⟨hw, row, hrow, hk⟩ := h
  exact ⟨hw, row, tame_events ho (poller_did hx) row hrow, hk⟩

/-- Along with anything else a process keeps what stays done and delivered. -/
theorem wp_kept {α : Type} {p : SqsProg α} {Q : Except Exc α → SqsWorld room → Prop} {F : Store → Prop}
    (hF : ∀ s s', Kept s s' → F s → F s') (hp : wp (deliveryLawOf room pid) p Q w) (hw : F w.st) :
    wp (deliveryLawOf room pid) p (fun x w => Q x w ∧ F w.st) w :=
  wp_frame (F := fun w => F w.st) (fun _ _ (hr : DeliveryRely pid _ _) => hF _ _ hr.kept)
    (fun _ _ (hg : DeliveryPromise pid _ _) => hF _ _ hg.kept) hp hw

/-- A write of a final status settles the event, unless it raises. -/
theorem wp_finalStatus {st : EventStatus} {errorMessage : Option String} (hst : st.terminal = true)
    (hw : Row pid id key (fun _ => True) w) :
    wp (deliveryLawOf room pid) (updateStatus id st errorMessage) (fun x w =>
      Row pid id key (fun _ => True) w ∧ ∀ a, x = .ok a → Done w.st key) w := by
  refine wp_bind.mpr (wp_await fun w₁ hr hi r w₂ ha => ?_)
  obtain ⟨hown, row, hrow, hid, hk, _⟩ := hw.rely hr
  refine ⟨deliveryPromise_of ha (fun i s m h => by cases h; exact ⟨hown, Or.inl hst⟩) (fun _ _ h => by cases h), ?_⟩
  obtain ⟨_, s, hx, rfl⟩ := ha
  cases r with
  | error e =>
    have hd := poller_did hx
    cases hd with
    | raised => exact ⟨⟨hown, row, hrow, hid, hk, trivial⟩, fun a h => by cases h⟩
    | answered hout => cases hout
  | ok found =>
    have hd := poller_did hx
    cases hd with
    | updated =>
      refine ⟨⟨hown, _, List.mem_map_of_mem hrow, by simp [hid], by simp [hk], trivial⟩, fun _ _ => ?_⟩
      exact ⟨_, List.mem_map_of_mem hrow, by simp [hk], by rw [patch_status, if_pos hid]; exact hst⟩
    | answered hout => cases hout

/-- The 'processing' write meets the pending row only. -/
theorem wp_processing (hw : Row pid id key (· = .pending) w) :
    wp (deliveryLawOf room pid) (updateStatus id .processing none) (fun _ => Row pid id key (fun _ => True)) w := by
  refine wp_bind.mpr (wp_await fun w₁ hr hi r w₂ ha => ?_)
  obtain ⟨hown, row, hrow, hid, hk, hst⟩ := hw.rely hr
  have honly : ∀ x ∈ w₁.st.events, x.id = id → x.status.terminal = false := by
    intro x hx hxid
    rw [eq_of_pairwise hi.store.ids hx hrow (by rw [hxid, hid]), hst]
    rfl
  refine ⟨deliveryPromise_of ha (fun i s m h => by cases h; exact ⟨hown, Or.inr honly⟩) (fun _ _ h => by cases h), ?_⟩
  obtain ⟨_, s, hx, rfl⟩ := ha
  have hrow' : Row pid id key (fun _ => True) (w₁.after pid (SqsOp.updateStatus id .processing none) r s) := by
    have hd := poller_did hx
    cases hd with
    | updated => exact ⟨hown, _, List.mem_map_of_mem hrow, by simp [hid], by simp [hk], trivial⟩
    | raised => exact ⟨hown, row, hrow, hid, hk, trivial⟩
    | answered hout => cases hout
  cases r with
  | error e => exact hrow'
  | ok found => exact hrow'

theorem done_kept {key : EventKey} (s s' : Store) (h : Kept s s') : Done s key → Done s' key := h.done key

/-- From here on the claim of a coroutine is the event's: if it returns, the event is done. -/
def Settles (key : EventKey) {α : Type} (x : Except Exc α) (w : SqsWorld room) : Prop :=
  ∀ a, x = .ok a → Done w.st key

theorem wp_settles_failed (eventId : EventId) {key : EventKey} {errorMessage : Option String}
    (hw : Row pid eventId key (fun _ => True) w) :
    wp (deliveryLawOf room pid)
      (do updateStatus eventId .failed errorMessage; return (none : Option Ready) : SqsProg (Option Ready))
      (fun x w => (∀ r, x = .ok (some r) → Row pid eventId key (fun _ => True) w) ∧
        (x = .ok none → Done w.st key)) w := by
  refine wp_bind.mpr (wp_mono (fun x w hx => ?_) (wp_finalStatus rfl hw))
  cases x with
  | ok a => exact ⟨fun r h => (by cases h), fun _ => hx.2 a rfl⟩
  | error e => exact ⟨fun r h => (by cases h), fun h => by cases h⟩

/-- `prepare` returns with the row failed, or with the row there for the import. -/
theorem wp_prepare (eventId : EventId) (queue : SqsQueue) {key : EventKey}
    (hw : Row pid eventId key (· = .pending) w) :
    wp (deliveryLawOf room pid) (prepare eventId queue) (fun x w =>
      (∀ r, x = .ok (some r) → Row pid eventId key (fun _ => True) w) ∧ (x = .ok none → Done w.st key)) w := by
  have k : Keeping (deliveryLawOf room pid) QuietOp (Row pid eventId key (· = .pending)) :=
    (rowKeeping _).mono quiet_tame
  have herr : ∀ (e : Exc) (w : SqsWorld room), Row pid eventId key (· = .pending) w →
      (∀ r : Ready, (Except.error e : Except Exc (Option Ready)) = .ok (some r) →
        Row pid eventId key (fun _ => True) w) ∧
        ((Except.error e : Except Exc (Option Ready)) = .ok none → Done w.st key) :=
    fun e w _ => ⟨fun r h => (by cases h), fun h => by cases h⟩
  refine wp_seq (k.uses (.await rfl) hw) herr fun dsCred w hw => ?_
  cases dsCred with
  | false => exact wp_settles_failed eventId hw.any
  | true =>
    refine wp_seq (k.uses (uses_loadLlToken _) hw) herr fun token w hw => ?_
    refine wp_seq (k.uses (uses_orLegacyToken _ _) hw) herr fun token w hw => ?_
    cases truthy token with
    | none => exact wp_settles_failed eventId hw.any
    | some token =>
      refine wp_seq (k.uses (uses_getUserSetting _ _) hw) herr fun apiHost w hw => ?_
      refine wp_bind.mpr (wp_mono (fun x w hx => ?_) (wp_processing hw))
      cases x with
      | ok a => exact ⟨fun r _ => hx, fun h => by cases h⟩
      | error e => exact ⟨fun r h => (by cases h), fun h => by cases h⟩

/-- The body of the import leaves the row, and if it returns the event is done. -/
theorem wp_importBody (eventId : EventId) (event : S3Event) (queue : SqsQueue) (r : Ready) {key : EventKey}
    (hw : Row pid eventId key (fun _ => True) w) :
    wp (deliveryLawOf room pid) (importEvent eventId event queue r) (fun x w =>
      Row pid eventId key (fun _ => True) w ∧ Settles key x w) w := by
  have k : Keeping (deliveryLawOf room pid) TameOp (Row pid eventId key (fun _ => True)) := rowKeeping _
  have herr : ∀ {α : Type} (e : Exc) (w : SqsWorld room), Row pid eventId key (fun _ => True) w →
      Row pid eventId key (fun _ => True) w ∧ Settles key (Except.error e : Except Exc α) w :=
    fun e w h => ⟨h, fun a h => by cases h⟩
  refine wp_seq (k.uses (.await trivial) hw) herr fun _ w hw => ?_
  refine wp_seq (k.uses (.await trivial) hw) herr fun structure_ w hw => ?_
  have himport : wp (deliveryLawOf room pid) (importTo eventId event (eventPath queue event) structure_) (fun x w =>
      Row pid eventId key (fun _ => True) w ∧ Settles key x w) w := by
    obtain ⟨_ | _, err⟩ := structure_
    · exact wp_finalStatus rfl hw
    · exact wp_seq (k.uses (.await trivial) hw) herr fun answer w hw => wp_finalStatus (importOutcome_terminal _ _) hw
  refine wp_bind.mpr (wp_mono (fun x w hx => ?_) himport)
  cases x with
  | error e => exact ⟨hx.1, fun a h => by cases h⟩
  | ok a =>
    refine wp_mono (fun y w hy => ⟨hy.1, fun _ _ => hy.2⟩)
      (wp_kept (F := (Done · key)) done_kept (k.uses (.await trivial) hx.1) (hx.2 a rfl))

theorem wp_finishEvent (eventId : EventId) (event : S3Event) (queue : SqsQueue) {key : EventKey}
    (hw : Row pid eventId key (· = .pending) w) :
    wp (deliveryLawOf room pid) (finishEvent eventId event queue) (fun x w => Settles key x w) w := by
  refine wp_bind.mpr (wp_mono (fun x w hx => ?_) (wp_prepare eventId queue hw))
  rcases x with e | _ | r
  · exact fun a h => by cases h
  · exact fun _ _ => hx.2 rfl
  · refine wp_catching.mpr (wp_mono (fun x w hx => ?_) (wp_importBody eventId event queue r (hx.1 r rfl)))
    cases x with
    | ok a => exact hx.2
    | error e =>
      simp only [importFailed]
      split
      · exact wp_mono (fun x w h => h.2) (wp_finalStatus rfl hx.1)
      · exact fun a h => by cases h

/-- The probe finds the event done, or the INSERT leaves a pending row. -/
theorem wp_probeInsert (event : S3Event) (queue : SqsQueue) (messageId : String) :
    wp (deliveryLawOf room pid) (ensurePending event queue messageId) (fun x w =>
      (∀ id, x = .ok (some id) → Row pid id ⟨messageId, queue.id, event.key⟩ (· = .pending) w) ∧
        (x = .ok none → Done w.st ⟨messageId, queue.id, event.key⟩)) w := by
  refine wp_bind.mpr (wp_await fun w₁ _ _ r w₂ ha => ⟨tame_promise ha trivial, ?_⟩)
  obtain ⟨hallow, s, hx, rfl⟩ := ha
  rcases r with e | found
  · exact ⟨fun id h => (by cases h), fun h => by cases h⟩
  cases found with
  | true =>
    obtain ⟨_, rfl⟩ := exec_probe pid hx
    exact ⟨fun id h => (by cases h), fun _ => hallow⟩
  | false =>
    refine wp_bind.mpr (wp_await fun w₃ _ _ r w₄ ha => ⟨tame_promise ha trivial, ?_⟩)
    obtain ⟨_, s', hx', rfl⟩ := ha
    rcases r with e | id
    · exact ⟨fun id h => (by cases h), fun h => by cases h⟩
    · refine ⟨fun i h => ?_, fun h => by cases h⟩
      cases h
      have hd := poller_did hx'
      cases hd with
      | created hrow hf =>
        obtain ⟨hid, hk, hst⟩ := newRow_some hrow
        exact ⟨(fresh_iff.mp hf).1, _, List.mem_cons_self, hid, hk, hst⟩
      | answered hout => cases hout

theorem wp_processEvent (event : S3Event) (queue : SqsQueue) (messageId : String) :
    wp (deliveryLawOf room pid) (processS3Event event queue messageId)
      (Settles ⟨messageId, queue.id, event.key⟩) w := by
  refine wp_bind.mpr (wp_mono (fun x w hx => ?_) (wp_probeInsert event queue messageId))
  rcases x with e | _ | id
  · exact fun a h => by cases h
  · exact fun _ _ => hx.2 rfl
  · exact wp_finishEvent id event queue (hx.1 id rfl)

/-- One event, with the failure recorder. -/
theorem wp_handleEvent (event : S3Event) (queue : SqsQueue) (messageId : String) (n : Nat) :
    wp (deliveryLawOf room pid) (handleEvent event queue messageId n)
      (Settles ⟨messageId, queue.id, event.key⟩) w := by
  refine wp_catching.mpr ?_
  refine wp_bind.mpr (wp_mono (fun x w hx => ?_) (wp_processEvent event queue messageId))
  cases x with
  | ok a => exact fun _ _ => hx a rfl
  | error e =>
    simp only [andThen_error, eventFailed]
    split
    · refine wp_bind.mpr (wp_await fun w₁ _ _ r w₂ ha => ⟨tame_promise ha trivial, ?_⟩)
      obtain ⟨_, s, hx, rfl⟩ := ha
      rcases r with e | id
      · exact fun a h => by cases h
      · have hd := poller_did hx
        cases hd with
        | recorded hrow _ =>
          obtain ⟨_, hk, hst⟩ := newRow_some hrow
          exact fun _ _ => ⟨_, List.mem_cons_self, hk, by rw [hst]; rfl⟩
        | answered hout => cases hout
    · exact fun a h => by cases h

/-- All create events of a message. -/
theorem wp_handleEvents (queue : SqsQueue) (messageId : String) (events : List S3Event) (n : Nat) :
    wp (deliveryLawOf room pid) (handleEvents queue messageId events n) (fun x w =>
      ∀ a, x = .ok a → ∀ event ∈ events, isCreateEvent event.eventType = true →
      Done w.st ⟨messageId, queue.id, event.key⟩) w := by
  induction events generalizing n w with
  | nil => exact fun _ _ _ h => by cases h
  | cons event rest ih =>
    unfold handleEvents
    split
    · refine wp_bind.mpr (wp_mono (fun x w hx => ?_) (wp_handleEvent event queue messageId n))
      cases x with
      | error e => exact fun a h => by cases h
      | ok n =>
        refine wp_mono (fun y w hy a ha ev hev hc => ?_)
          (wp_kept (F := (Done · ⟨messageId, queue.id, event.key⟩)) done_kept (ih n) (hx n rfl))
        rcases List.mem_cons.mp hev with rfl | hev
        · exact hy.2
        · exact hy.1 a ha ev hev hc
    · rename_i hno
      refine wp_mono (fun y w hy a ha ev hev hc => ?_) (ih n)
      rcases List.mem_cons.mp hev with rfl | hev
      · exact absurd hc hno
      · exact hy a ha ev hev hc

/-- A delivered message. -/
theorem wp_handleMessage (queue : SqsQueue) (message : Message) (n : Nat)
    (hw : delivery queue message ∈ w.st.deliveries) :
    wp (deliveryLawOf room pid) (handleMessage room queue message n) (fun _ _ => True) w := by
  unfold handleMessage
  split
  · trivial
  · rename_i s3Events hparse
    have hmem : ∀ s s', Kept s s' → delivery queue message ∈ s.deliveries → delivery queue message ∈ s'.deliveries :=
      fun s s' h => h.deliveries _
    refine wp_bind.mpr (wp_mono (fun x w hx => ?_)
      (wp_kept (F := (delivery queue message ∈ ·.deliveries)) hmem (wp_handleEvents queue _ s3Events n) hw))
    cases x with
    | error e => trivial
    | ok n =>
      have hsettled : Settled room w.st (delivery queue message) := by
        intro event hev
        simp only [createEvents, delivery, hparse, List.mem_filter] at hev
        exact hx.1 n rfl event hev.1 hev.2
      refine wp_bind.mpr (wp_catching.mpr (wp_bind.mpr (wp_await fun w₁ hr _ r w₂ ha => ⟨?_, ?_⟩)))
      · refine deliveryPromise_of ha (fun _ _ _ h => by cases h) fun q h e => ?_
        cases e
        exact ⟨_, hr.kept.deliveries _ hx.2, rfl, rfl, hr.kept.settled hsettled⟩
      · rcases r with e | _
        · cases e <;> trivial
        · trivial

theorem wp_messages (queue : SqsQueue) (messages : List Message) (n : Nat)
    (hw : ∀ message ∈ messages, delivery queue message ∈ w.st.deliveries) :
    wp (deliveryLawOf room pid) (handleMessages room queue messages n) (fun _ _ => True) w := by
  induction messages generalizing n w with
  | nil => trivial
  | cons message rest ih =>
    have hmem : ∀ s s', Kept s s' → (∀ m ∈ rest, delivery queue m ∈ s.deliveries) →
        ∀ m ∈ rest, delivery queue m ∈ s'.deliveries :=
      fun s s' h hs m hm => h.deliveries _ (hs m hm)
    refine wp_bind.mpr (wp_mono (fun x w hx => ?_)
      (wp_kept hmem (wp_handleMessage queue message n (hw message List.mem_cons_self))
      fun m hm => hw m (List.mem_cons_of_mem _ hm)))
    cases x with
    | error e => trivial
    | ok n => exact ih n hx.2

theorem wp_pollSingleQueue (queue : SqsQueue) :
    wp (deliveryLawOf room pid) (pollSingleQueue room queue) (fun _ _ => True) w := by
  refine wp_bind.mpr (wp_await fun w₁ _ _ r w₂ ha => ⟨tame_promise ha trivial, ?_⟩)
  obtain ⟨_, s, hx, rfl⟩ := ha
  rcases r with e | messages
  · trivial
  · refine wp_messages queue messages 0 fun message hm => ?_
    have hd := poller_did hx
    cases hd with
    | received => exact List.mem_append_left _ (List.mem_reverse.mpr (List.mem_map_of_mem hm))
    | answered hout => cases hout

end Worker

/-- Every worker, in the runs in which no probe takes an unfinished row for done. -/
def deliveryLaw (room : Nat) : Sound (pollers room) ProbeOk where
  inv := DeliveryInv
  rely := DeliveryRely
  guar pid _ := DeliveryPromise pid
  allow _ w o r := ProbeAllowed w.st o r
  post _ _ _ _ := True
  refl pid w := ⟨rfl, Kept.refl _⟩
  trans pid a b c h h' := ⟨h'.own.trans h.own, h.kept.trans h'.kept⟩
  init s hs := by
    refine ⟨⟨?_, ?_⟩, fun _ h => by cases h⟩
    · rw [hs.2.1]; exact List.Pairwise.nil
    · rw [hs.2.2]; exact List.Pairwise.nil
  keep pid t w w' hi hp := by
    refine ⟨hp.store hi.store, ?_⟩
    obtain ⟨e, hh, hdel⟩ := hp.hist
    intro x hx queue handle hd
    rw [hh] at hx
    have hstill : ∀ d ∈ w.st.deliveries, d.queueId = queue.id ∧ d.receiptHandle = handle ∧ Settled room w.st d →
        ∃ d ∈ w'.st.deliveries, d.queueId = queue.id ∧ d.receiptHandle = handle ∧ Settled room w'.st d :=
      fun d hd h => ⟨d, hp.kept.deliveries d hd, h.1, h.2.1, hp.kept.settled h.2.2⟩
    rcases List.mem_cons.mp hx with rfl | hx
    · obtain ⟨d, hmem, h⟩ := hdel queue handle hd
      exact hstill d hmem h
    · obtain ⟨d, hmem, h⟩ := hi.deleted x hx queue handle hd
      exact hstill d hmem h
  others pid t q w w' hne _ hp := ⟨hp.others q hne.symm, hp.kept⟩
  outside w e s hi hx := by
    cases hx
    exact ⟨⟨⟨hi.store.ids, hi.store.handles⟩, hi.deleted⟩, fun q => ⟨rfl, ⟨fun _ h => h, fun _ h => h⟩⟩⟩
  allowed c e hg := hg
  stable _ _ _ _ _ _ _ := trivial
  code pid t w _ _ _ := by
    refine wp_pollSqsQueues (P := fun _ => True) ⟨fun _ _ _ _ => trivial, fun w o r w' ho _ _ ha => ?_⟩
      (fun queue w _ => wp_pollSingleQueue queue) pid trivial
    exact ⟨tame_promise ha (outer_tame o ho), trivial⟩

/-- In a run in which no probe takes an unfinished row for done, at every moment every
    create event of every message that `delete_message` was called for is done. -/
theorem none_lost {s : (pollers room).State} (hs : (pollers room).init s) (f : Sched (pollers room)) (n : Nat)
    (hok : ∀ m < n, ∀ e, event (conf s f m) (f m) = some e → ProbeOk (conf s f m) e) : NoneLost (conf s f n) := by
  have hi := ((deliveryLaw room).keeps (conf_reach hs hok)).1
  intro e he queue handle hd d hmem _ hhandle
  obtain ⟨d', hmem', _, hhandle', hsettled⟩ := hi.deleted e he queue handle hd
  rw [eq_of_pairwise hi.store.handles hmem hmem' (by rw [hhandle, hhandle'])]
  exact hsettled

/-- One worker, one message, from the acquire to the release. -/
def swept : Sched (pollers 9) := sched
  (.start () :: List.replicate 18 (.run 0 (Store.answer 0 [theQueue] [putMessage "h0"]))) (.env (0 : Nat))

/-- A probe that found a row. -/
def findsRow : Event sqsSig Exc → Bool
  | ⟨_, .existsForMessage _, .ok (found : Bool)⟩ => found
  | _ => false

theorem probeOk_of {c : Config (pollers room)} {e : Event sqsSig Exc} (h : findsRow e = false) : ProbeOk c e := by
  obtain ⟨pid, o, r⟩ := e
  cases o with
  | existsForMessage key =>
    rcases r with e | _ | _
    · trivial
    · trivial
    · cases h
  | _ => trivial

theorem none_lost_swept : NoneLost (conf idleStore swept 19) := by
  refine @none_lost 9 idleStore ⟨rfl, rfl, rfl⟩ swept 19 fun m hm e he => ?_
  have hprobes : (conf idleStore swept 19).w.hist.any findsRow = false := by decide +kernel
  exact probeOk_of (Bool.eq_false_iff.mpr (List.any_eq_false.mp hprobes e (conf_event hm he)))

/-- A worker crashes after its INSERT, and the message is delivered again. -/
def redelivered : Sched (pollers 9) := sched
  (.start () :: List.replicate 7 (.run 0 (Store.answer 0 [theQueue] [putMessage "h0"])) ++
    [.crash 0, .env (60000 : Nat), .start ()] ++
    List.replicate 7 (.run 1 (Store.answer 1 [theQueue] [putMessage "h1"])))
  (.env (0 : Nat))

def deletedBy : Event sqsSig Exc → Option (SqsQueue × String)
  | ⟨_, .deleteMessage queue receiptHandle, _⟩ => some (queue, receiptHandle)
  | _ => none

theorem deletes_of {queue : SqsQueue} {receiptHandle : String} {e : Event sqsSig Exc}
    (h : deletedBy e = some (queue, receiptHandle)) :
    deletes queue receiptHandle e := by
  obtain ⟨pid, o, r⟩ := e
  cases o with
  | deleteMessage q handle => cases h; rfl
  | _ => cases h

theorem event_lost : (pollers 9).init idleStore ∧ ¬ NoneLost (conf idleStore redelivered 18) := by
  refine ⟨⟨rfl, rfl, rfl⟩, fun h => ?_⟩
  have hevents : (createEvents 9 (delivery theQueue (putMessage "h1")).body).map (·.key) = ["k"] := by decide +kernel
  obtain ⟨hdeleted, hdelivered, hrows⟩ :
      some (theQueue, "h1") ∈ (conf idleStore redelivered 18).w.hist.map deletedBy ∧
      delivery theQueue (putMessage "h1") ∈ (conf idleStore redelivered 18).w.st.deliveries ∧
      ((conf idleStore redelivered 18).w.st.events.map fun row => (row.key, row.status)) = [(putKey, .pending)] := by
    decide +kernel
  obtain ⟨e, he, hd⟩ := List.mem_map.mp hdeleted
  obtain ⟨ev, hev, hkey⟩ :=
    List.mem_map.mp (show "k" ∈ (createEvents 9 (delivery theQueue (putMessage "h1")).body).map (·.key) by
    rw [hevents]; exact List.mem_cons_self)
  obtain ⟨row, hrow, hk, ht⟩ := h e he theQueue "h1" (deletes_of hd) _ hdelivered rfl rfl ev hev
  have := List.mem_map_of_mem (f := fun row : SqsEvent => (row.key, row.status)) hrow
  rw [hrows] at this
  simp only [List.mem_singleton, Prod.mk.injEq] at this
  rw [this.2] at ht
  cases ht

end Connect.Sqs
