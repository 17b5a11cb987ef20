/-
  Connect.Sqs.Notification — `S3NotificationService` (services/sqs_service.py): adding and
  removing the SQS entry of a bucket's notification configuration.

  S3 keeps one configuration per bucket, and a put replaces it whole; so both functions
  read it, change the queue entries and rebuild the rest by hand, section by section, as
  far as the section is true in Python. An `EventBridgeConfiguration` is on by being there:
  S3 returns it as `{}`, which is not true, so both functions drop it and turn EventBridge
  delivery off. Everything else is kept (`preserves_iff`): the other sections, the other
  queue entries in their order; adding twice is adding once, and removing undoes adding.

  The configuration is a function's whole effect (`add_writes`, `remove_writes`), and the
  sections of topics and functions are of any type.
-/

import Connect.Await.Prog
import Connect.Py

namespace Connect.Sqs

open Await

structure QueueConfig where
  id : Option String
  queueArn : Option String
  events : List String
  filterRules : Option (List (String × String))
  deriving DecidableEq, Repr

/-- A bucket's configuration; a section is `none` where the dictionary has no such key.
    EventBridge's is a dictionary itself. -/
structure NotificationConfig (T L : Type) where
  queues : Option (List QueueConfig) := none
  topics : Option (List T) := none
  lambdas : Option (List L) := none
  eventBridge : Option (List (String × String)) := none
  deriving DecidableEq, Repr

inductive S3Exc where
  /-- botocore's ClientError: `Error.Code`, `Error.Message` and `str(e)`. -/
  | client (code message : Option String) (text : String)
  | notification (text : String)
  | other (text : String)
  deriving DecidableEq, Repr

variable {T L : Type}

inductive S3Op (T L : Type) where
  | get (bucket : String)
  | put (bucket : String) (config : NotificationConfig T L)

def S3Op.Ret : S3Op T L → Type
  | .get _ => NotificationConfig T L
  | .put _ _ => Unit

abbrev s3Sig (T L : Type) : Sig := ⟨S3Op T L, S3Op.Ret⟩

abbrev S3Prog (T L : Type) := Prog (s3Sig T L) S3Exc

def getBucketNotificationConfiguration (bucket : String) : S3Prog T L (NotificationConfig T L) :=
  (@Prog.await (s3Sig T L) S3Exc (S3Op.get bucket)).catching fun
    | .client _ _ text => .raise (.notification s!"Failed to get bucket notifications: {text}")
    | e => .raise e

def putBucketNotificationConfiguration (bucket : String) (config : NotificationConfig T L) : S3Prog T L Unit :=
  @Prog.await (s3Sig T L) S3Exc (S3Op.put bucket config)

/-- `section` where the code asks `if section`: absent and empty are the same. -/
def filled {α : Type} (xs : Option (List α)) : Option (List α) := xs.filter (!·.isEmpty)

/-- The rebuilt configuration. -/
def fullConfig (queueConfigs : List QueueConfig) (current : NotificationConfig T L) : NotificationConfig T L :=
  { queues := filled (some queueConfigs)
    topics := filled current.topics
    lambdas := filled current.lambdas
    eventBridge := filled current.eventBridge }

structure AddArgs where
  queueArn : String
  notificationId : String := "LucidLinkAutoImport"
  events : Option (List String) := none
  keyPrefix : String := ""
  suffix : String := ""
  deriving DecidableEq, Repr

def AddArgs.filterRules (a : AddArgs) : List (String × String) :=
  (if a.keyPrefix = "" then [] else [("prefix", a.keyPrefix)]) ++ if a.suffix = "" then [] else [("suffix", a.suffix)]

def AddArgs.newConfig (a : AddArgs) : QueueConfig :=
  { id := some a.notificationId
    queueArn := some a.queueArn
    events := a.events.getD ["s3:ObjectCreated:*"]
    filterRules := filled (some a.filterRules) }

/-- Another queue's entry: neither its Id nor its QueueArn is the given one. -/
def AddArgs.others (a : AddArgs) (cfg : QueueConfig) : Bool :=
  cfg.id != some a.notificationId && cfg.queueArn != some a.queueArn

def addConfig (a : AddArgs) (current : NotificationConfig T L) : NotificationConfig T L :=
  fullConfig ((current.queues.getD []).filter a.others ++ [a.newConfig]) current

def removeConfig (queueArn : String) (current : NotificationConfig T L) : NotificationConfig T L :=
  fullConfig ((current.queues.getD []).filter fun cfg => cfg.queueArn != some queueArn) current

/-- `"InvalidArgument" in error_code or "unable to validate" in error_msg.lower()`. -/
def cannotSend (code message : String) : Bool :=
  containsChars "InvalidArgument".toList code.toList || inLower "unable to validate" message

def addSqsNotification (bucket : String) (a : AddArgs) : S3Prog T L Bool :=
  Prog.catching (do
      let current ← getBucketNotificationConfiguration bucket
      putBucketNotificationConfiguration bucket (addConfig a current)
      return true)
    fun
    | .client code message text =>
      let message := message.getD text
      .raise (.notification (if cannotSend (code.getD "") message then
        s!"S3 cannot send to SQS queue. Ensure the queue policy allows s3:SendMessage from this bucket. Error: {message}"
      else s!"Failed to configure bucket notifications: {message}"))
    | e => .raise e

def removeSqsNotification (bucket queueArn : String) : S3Prog T L Bool :=
  Prog.catching (do
      let current ← getBucketNotificationConfiguration bucket
      putBucketNotificationConfiguration bucket (removeConfig queueArn current)
      return true)
    fun
    | .client _ _ text => .raise (.notification s!"Failed to remove bucket notification: {text}")
    | e => .raise e

/-! ## What a call writes -/

/-- A call against a bucket of configuration `c` whose service accepts everything: its
    result, and the configuration it leaves. -/
def onBucket {α : Type} : S3Prog T L α → NotificationConfig T L → Except S3Exc α × NotificationConfig T L
  | .ret a, c => (.ok a, c)
  | .raise e, c => (.error e, c)
  | .op (S3Op.get _) k, c => onBucket (k (.ok c)) c
  | .op (S3Op.put _ new) k, _ => onBucket (k (.ok ())) new

theorem add_writes (bucket : String) (a : AddArgs) (c : NotificationConfig T L) :
    onBucket (addSqsNotification bucket a) c = (.ok true, addConfig a c) := rfl

theorem remove_writes (bucket queueArn : String) (c : NotificationConfig T L) :
    onBucket (removeSqsNotification bucket queueArn) c = (.ok true, removeConfig queueArn c) := rfl

/-- The configuration a call leaves. -/
def written {α : Type} (p : S3Prog T L α) (c : NotificationConfig T L) : NotificationConfig T L := (onBucket p c).2

/-! ## Frames -/

@[simp] theorem filled_filled {α : Type} (xs : Option (List α)) : filled (filled xs) = filled xs := by
  cases xs with
  | none => rfl
  | some xs => cases xs <;> rfl

theorem filled_getD {α : Type} (xs : Option (List α)) : (filled xs).getD [] = xs.getD [] := by
  cases xs with
  | none => rfl
  | some xs => cases xs <;> rfl

theorem filled_eq_iff {α : Type} (xs : Option (List α)) : filled xs = xs ↔ xs ≠ some [] := by
  cases xs with
  | none => simp [filled]
  | some xs => cases xs <;> simp [filled, Option.filter]

theorem newConfig_not_others (a : AddArgs) : a.others a.newConfig = false := by
  simp [AddArgs.others, AddArgs.newConfig]

theorem add_queues (a : AddArgs) (c : NotificationConfig T L) :
    (addConfig a c).queues = some ((c.queues.getD []).filter a.others ++ [a.newConfig]) := by
  unfold addConfig fullConfig filled
  simp [Option.filter]

theorem add_twice (a : AddArgs) (c : NotificationConfig T L) : addConfig a (addConfig a c) = addConfig a c := by
  have hq : ((addConfig a c).queues.getD []).filter a.others ++ [a.newConfig] =
      (c.queues.getD []).filter a.others ++ [a.newConfig] := by
    rw [add_queues]
    simp [List.filter_append, newConfig_not_others]
  have hset : addConfig a (addConfig a c) =
      fullConfig (((addConfig a c).queues.getD []).filter a.others ++ [a.newConfig]) (addConfig a c) := rfl
  rw [hset, hq]
  simp [addConfig, fullConfig]

theorem remove_add_queues (a : AddArgs) (c : NotificationConfig T L)
    (h : ∀ cfg ∈ c.queues.getD [], a.others cfg = true) :
    (removeConfig a.queueArn (addConfig a c)).queues = filled c.queues := by
  have hothers : (c.queues.getD []).filter a.others = c.queues.getD [] := List.filter_eq_self.mpr h
  have harn : (c.queues.getD []).filter (fun cfg => cfg.queueArn != some a.queueArn) = c.queues.getD [] := by
    refine List.filter_eq_self.mpr fun cfg hc => ?_
    have := h cfg hc
    unfold AddArgs.others at this
    simp only [Bool.and_eq_true] at this
    exact this.2
  have hnew : [a.newConfig].filter (fun cfg => cfg.queueArn != some a.queueArn) = [] := by simp [AddArgs.newConfig]
  unfold removeConfig fullConfig
  rw [add_queues, hothers]
  simp only [Option.getD_some, List.filter_append, harn, hnew, List.append_nil]
  cases c.queues with
  | none => rfl
  | some qs => rfl

/-- How two sections of a list are compared: an absent one is empty, or they are equal. -/
def sameList {α : Type} (x y : Option (List α)) : Prop := x.getD [] = y.getD []

/-- What adding and removing have to preserve of `c`, the list sections compared by `same`. -/
structure Preserves (same : ∀ {α : Type}, Option (List α) → Option (List α) → Prop) (bucket : String) (a : AddArgs)
    (c : NotificationConfig T L) : Prop where
  topics : same (written (addSqsNotification bucket a) c).topics c.topics ∧
    same (written (removeSqsNotification bucket a.queueArn) c).topics c.topics
  lambdas : same (written (addSqsNotification bucket a) c).lambdas c.lambdas ∧
    same (written (removeSqsNotification bucket a.queueArn) c).lambdas c.lambdas
  eventBridge : (written (addSqsNotification bucket a) c).eventBridge = c.eventBridge ∧
    (written (removeSqsNotification bucket a.queueArn) c).eventBridge = c.eventBridge
  /-- Every other queue's entry, in order. -/
  queues : ((written (addSqsNotification bucket a) c).queues.getD []).filter a.others =
    (c.queues.getD []).filter a.others ∧
    ((written (removeSqsNotification bucket a.queueArn) c).queues.getD []).filter a.others =
      (c.queues.getD []).filter a.others
  twice : written (addSqsNotification bucket a) (written (addSqsNotification bucket a) c) =
    written (addSqsNotification bucket a) c
  undone : (∀ cfg ∈ c.queues.getD [], a.others cfg = true) →
    same (written (removeSqsNotification bucket a.queueArn)
      (written (addSqsNotification bucket a) c)).queues c.queues ∧
    same (written (removeSqsNotification bucket a.queueArn)
      (written (addSqsNotification bucket a) c)).topics c.topics ∧
    same (written (removeSqsNotification bucket a.queueArn)
      (written (addSqsNotification bucket a) c)).lambdas c.lambdas ∧
    (written (removeSqsNotification bucket a.queueArn)
      (written (addSqsNotification bucket a) c)).eventBridge = c.eventBridge

theorem add_keeps_others (a : AddArgs) (c : NotificationConfig T L) :
    ((addConfig a c).queues.getD []).filter a.others = (c.queues.getD []).filter a.others := by
  rw [add_queues]
  simp [List.filter_append, newConfig_not_others]

theorem remove_keeps_others (a : AddArgs) (c : NotificationConfig T L) :
    ((removeConfig a.queueArn c).queues.getD []).filter a.others = (c.queues.getD []).filter a.others := by
  unfold removeConfig fullConfig
  simp only [filled_getD, Option.getD_some, List.filter_filter]
  refine List.filter_congr fun cfg _ => ?_
  unfold AddArgs.others
  cases cfg.queueArn != some a.queueArn <;> simp

/-- The rest is a matter of what `filled` does to the four sections. -/
theorem preserves_of {same : ∀ {α : Type}, Option (List α) → Option (List α) → Prop} {bucket : String} {a : AddArgs}
    {c : NotificationConfig T L} (ht : same (filled c.topics) c.topics) (hl : same (filled c.lambdas) c.lambdas)
    (hq : (∀ cfg ∈ c.queues.getD [], a.others cfg = true) → same (filled c.queues) c.queues)
    (he : filled c.eventBridge = c.eventBridge) : Preserves same bucket a c where
  topics := ⟨ht, ht⟩
  lambdas := ⟨hl, hl⟩
  eventBridge := ⟨he, he⟩
  queues := ⟨add_keeps_others a c, remove_keeps_others a c⟩
  twice := add_twice a c
  undone h := by
    have hqs : (written (removeSqsNotification bucket a.queueArn)
        (written (addSqsNotification bucket a) c)).queues = filled c.queues :=
      remove_add_queues a c h
    have hts : (written (removeSqsNotification bucket a.queueArn)
        (written (addSqsNotification bucket a) c)).topics = filled c.topics :=
      filled_filled _
    have hls : (written (removeSqsNotification bucket a.queueArn)
        (written (addSqsNotification bucket a) c)).lambdas = filled c.lambdas :=
      filled_filled _
    have hes : (written (removeSqsNotification bucket a.queueArn)
        (written (addSqsNotification bucket a) c)).eventBridge =
          filled c.eventBridge := filled_filled _
    rw [hqs, hts, hls, hes]
    exact ⟨hq h, ht, hl, he⟩

/-- Adding and removing preserve everything else of a configuration exactly when its
    EventBridge section is not there and empty; and with absent and empty list sections
    told apart, exactly when none of its sections is. -/
theorem preserves_iff (bucket : String) (a : AddArgs) (c : NotificationConfig T L) :
    (Preserves sameList bucket a c ↔ c.eventBridge ≠ some []) ∧
      (Preserves (· = ·) bucket a c ↔ c.eventBridge ≠ some [] ∧ c.topics ≠ some [] ∧ c.lambdas ≠ some [] ∧
        c.queues ≠ some []) := by
  refine ⟨⟨fun h => ?_, fun h => ?_⟩, fun h => ?_, fun ⟨he, ht, hl, hq⟩ => ?_⟩
  · exact (filled_eq_iff _).mp h.eventBridge.1
  · exact preserves_of (filled_getD _) (filled_getD _) (fun _ => filled_getD _) ((filled_eq_iff _).mpr h)
  · refine ⟨(filled_eq_iff _).mp h.eventBridge.1, (filled_eq_iff _).mp h.topics.1,
      (filled_eq_iff _).mp h.lambdas.1, fun hq => ?_⟩
    have hnone : ∀ cfg ∈ c.queues.getD [], a.others cfg = true := by simp [hq]
    have hqs : (written (removeSqsNotification bucket a.queueArn)
        (written (addSqsNotification bucket a) c)).queues = filled c.queues :=
      remove_add_queues a c hnone
    have := (h.undone hnone).1
    rw [hqs, filled_eq_iff] at this
    exact this hq
  · exact preserves_of ((filled_eq_iff _).mpr ht) ((filled_eq_iff _).mpr hl) (fun _ => (filled_eq_iff _).mpr hq)
      ((filled_eq_iff _).mpr he)

/-- EventBridge delivery of a bucket is on, and adding a queue turns it off. -/
theorem eventBridge_dropped :
    (written (addSqsNotification "bucket" { queueArn := "arn:aws:sqs:us-east-1:1:q" })
        { eventBridge := some [] : NotificationConfig Unit Unit }).eventBridge = none ∧
      ¬ Preserves sameList "bucket" { queueArn := "arn:aws:sqs:us-east-1:1:q" }
      { eventBridge := some [] : NotificationConfig Unit Unit } := by
  refine ⟨rfl, fun h => ?_⟩
  have := h.eventBridge.1
  cases this

end Connect.Sqs
