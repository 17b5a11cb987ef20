/-
  Connect.Sqs.QueueUrl — queue ARNs and queue URLs (services/sqs_service.py, `add_sqs_queue`).

  An ARN is taken apart by a regular expression when it is typed, and by `split(":")` when
  AWS returns it; a URL by a regular expression for the region, and by `split("/")`. Every
  separator is a character that no part holds, so all of them find the same region, account
  and name (`conversions_agree`).

  The calls of boto3 are parameters; what goes over the wire is left out.
-/

import Mathlib.Data.List.TakeWhile
import Connect.Json.Dumps
import Connect.Path
import Connect.Regex
import Connect.Tfvars.Format

namespace Connect.Sqs

open Regex
open Tfvars (isSpace strip)

/-! ## `queue_url_from_arn`, `normalize_queue_input` -/

/-- `arn:aws:sqs:([^:]+):([^:]+):(.+)`. -/
def arnRe : Pattern :=
  seqs (lit "arn:aws:sqs:".toList ++
    [.group (.many true 1 (· != ':')), .char (· == ':'), .group (.many true 1 (· != ':')),
    .char (· == ':'), .group (.many true 1 dot)])

def queueUrlFromArn (arn : String) : Option String :=
  match (reMatch arnRe arn).map Found.groups with
  | some [region, accountId, queueName] =>
    some ("https://sqs." ++ String.ofList region ++ ".amazonaws.com/" ++ String.ofList accountId ++ "/" ++
      String.ofList queueName)
  | _ => none

def startsWith (s start : String) : Bool := start.toList.isPrefixOf s.toList

def normalizeQueueInput (inputStr : String) : Option String :=
  let inputStr := String.ofList (strip inputStr.toList)
  if startsWith inputStr "https://" then some inputStr
  else if startsWith inputStr "arn:aws:sqs:" then queueUrlFromArn inputStr
  else none

/-! ## `SQSService` -/

inductive SqsExc where
  /-- botocore's ClientError. -/
  | client (text : String)
  | sqsError (text : String)
  | valueError (text : String)
  | other (text : String)
  deriving DecidableEq, Repr

abbrev Attributes := List (String × String)

/-- `boto3.client("sqs")`: `Attributes` of a response, and the policy that is set. -/
structure SqsClient where
  getQueueAttributes : String → Except SqsExc (Option Attributes)
  setQueueAttributes : String → String → Except SqsExc Unit

/-- `except ClientError as e: raise SQSError(f"{failed}: {e}")`. -/
def orSqsError {α : Type} (failed : String) : Except SqsExc α → Except SqsExc α
  | .error (.client text) => .error (.sqsError (failed ++ ": " ++ text))
  | r => r

def getQueueAttributes (client : SqsClient) (queueUrl : String) : Except SqsExc Attributes :=
  orSqsError "Failed to get queue attributes" ((client.getQueueAttributes queueUrl).map (·.getD []))

/-- `s.split(c)`. -/
def splitAt (c : Char) (s : String) : List String := (s.toList.splitOn c).map String.ofList

structure QueueInfo where
  url : String
  arn : String
  name : String
  region : String
  approximateMessages : String
  deriving DecidableEq, Repr

def validateQueueUrl (selfRegion : String) (client : SqsClient) (queueUrl : String) : Except SqsExc QueueInfo :=
  orSqsError "Failed to validate queue" do
    let attrs ← getQueueAttributes client queueUrl
    let arn := (attrs.lookup "QueueArn").getD ""
    let name := (if arn = "" then splitAt '/' queueUrl else splitAt ':' arn).getLastD ""
    let region := ((splitAt ':' arn)[3]?).getD selfRegion
    return ⟨queueUrl, arn, name, region, (attrs.lookup "ApproximateNumberOfMessages").getD "0"⟩

def getQueuePolicyForS3 (queueArn bucketName accountId : String) : String :=
  Json.dumps (.obj [("Version", .str "2012-10-17"), ("Id", .str "S3NotificationPolicy"),
    ("Statement", .arr [.obj [("Sid", .str "AllowS3ToSendMessage"), ("Effect", .str "Allow"),
      ("Principal", .obj [("Service", .str "s3.amazonaws.com")]), ("Action", .str "sqs:SendMessage"),
      ("Resource", .str queueArn),
      ("Condition", .obj [("ArnLike", .obj [("aws:SourceArn", .str ("arn:aws:s3:::" ++ bucketName))]),
        ("StringEquals", .obj [("aws:SourceAccount", .str accountId)])])]])])

def setQueuePolicy (client : SqsClient) (queueUrl policy : String) : Except SqsExc Bool :=
  orSqsError "Failed to set queue policy" ((client.setQueueAttributes queueUrl policy).map fun _ => true)

def configureQueueForS3 (client : SqsClient) (queueUrl bucketName : String) : Except SqsExc Bool :=
  orSqsError "Failed to configure queue for S3" do
    let attrs ← getQueueAttributes client queueUrl
    let queueArn := (attrs.lookup "QueueArn").getD ""
    if queueArn = "" then throw (.sqsError "Could not get queue ARN")
    let accountId := ((splitAt ':' queueArn)[4]?).getD ""
    if accountId = "" then throw (.sqsError "Could not determine AWS account ID")
    setQueuePolicy client queueUrl (getQueuePolicyForS3 queueArn bucketName accountId)

/-! ## `add_sqs_queue` -/

/-- `[a-z0-9-]`. -/
def inRegion (c : Char) : Bool := c.isLower || c.isDigit || c == '-'

/-- `sqs\.([a-z0-9-]+)\.amazonaws\.com`. -/
def regionRe : Pattern :=
  seqs (lit "sqs.".toList ++ [.group (.many true 1 inRegion)] ++ lit ".amazonaws.com".toList)

def regionOf (normalizedUrl : String) : Option String :=
  match (reSearch regionRe normalizedUrl).map Found.groups with
  | some [region] => some (String.ofList region)
  | _ => none

/-- The branch for a queue that exists; `client` is the one of a region. -/
def existingQueue (client : String → SqsClient) (queueUrl : Option String) (queueRegion : String) :
    Except SqsExc QueueInfo :=
  match truthy queueUrl with
  | none => .error (.valueError "Queue URL or ARN is required")
  | some queueUrl =>
    match truthy (normalizeQueueInput queueUrl) with
    | none => .error (.valueError "Invalid queue URL or ARN format")
    | some normalizedUrl =>
      let region := (regionOf normalizedUrl).getD queueRegion
      validateQueueUrl region (client region) normalizedUrl

/-! ## Names of a queue -/

/-- `[A-Za-z0-9_-]`. -/
def inQueueName (c : Char) : Bool := c.isAlphanum || c == '_' || c == '-'

/-- A queue of an account in a region. -/
structure QueueId where
  region : String
  account : String
  base : String
  fifo : Bool
  region_ne : region ≠ ""
  region_chars : ∀ c ∈ region.toList, inRegion c = true
  account_ne : account ≠ ""
  account_chars : ∀ c ∈ account.toList, c.isDigit = true
  base_ne : base ≠ ""
  base_chars : ∀ c ∈ base.toList, inQueueName c = true

namespace QueueId

variable (q : QueueId)

def name : String := q.base ++ if q.fifo then ".fifo" else ""

def arn : String := "arn:aws:sqs:" ++ q.region ++ ":" ++ q.account ++ ":" ++ q.name

def url : String := "https://sqs." ++ q.region ++ ".amazonaws.com/" ++ q.account ++ "/" ++ q.name

end QueueId

/-! ## The patterns -/

/-- What is matched up to a `:`. -/
theorem span_colon {cs rest : List Char} (h : ':' ∉ cs) :
    (cs ++ ':' :: rest).takeWhile (· != ':') = cs ∧ (cs ++ ':' :: rest).dropWhile (· != ':') = ':' :: rest := by
  refine span_stop (fun d hd => ?_) (by decide)
  simp only [bne_iff_ne, ne_eq]
  rintro rfl
  exact h hd

/-- The groups of an ARN. -/
theorem match_arn {r a n : List Char} (hr : 1 ≤ r.length) (hrc : ':' ∉ r) (ha : 1 ≤ a.length)
    (hac : ':' ∉ a) (hn : 1 ≤ n.length)
    (hnl : '\n' ∉ n) : ((ways arnRe true
      ("arn:aws:sqs:".toList ++ (r ++ ':' :: (a ++ ':' :: n)))).head?).map Found.groups = some [r, a, n] := by
  have hk : ∀ (k : Pattern) (b : Bool) (d : Char) (rest : List Char), (d != ':') = true →
      ways (.seq (.char (· == ':')) k) b (d :: rest) = [] := by
    intro k b d rest hd
    rw [ways_char_seq, if_neg]
    simpa using hd
  have hall : n.takeWhile dot = n := by
    rw [List.takeWhile_eq_self_iff]
    intro c hc
    simp only [dot, bne_iff_ne, ne_eq]
    rintro rfl
    exact hnl hc
  unfold arnRe
  rw [ways_lit]
  simp only [seqs, List.foldr_cons, List.foldr_nil]
  rw [ways_group_many_seq (hk _), (span_colon hrc).1, (span_colon hrc).2, if_pos hr, ways_char_seq,
    if_pos (by decide),
    ways_group_many_seq (hk _), (span_colon hac).1, (span_colon hac).2, if_pos ha, ways_char_seq,
    if_pos (by decide), ways_seq_empty]
  simp only [List.head?_map]
  rw [head?_ways_group_many (by rw [hall]; exact hn), hall]
  rfl

/-- The region of a URL. -/
theorem search_region {r rest : List Char} (hr : 1 ≤ r.length) (hrc : ∀ c ∈ r, inRegion c = true) :
    (searchFrom regionRe true ("https://sqs.".toList ++ (r ++ (".amazonaws.com".toList ++ rest)))).map
    Found.groups = some [r] := by
  have hskip : ∀ (b : Bool) (c : Char) (cs : List Char), c ≠ 's' → ways regionRe b (c :: cs) = [] := by
    intro b c cs hc
    show ways (.seq (.char (· == 's')) _) b (c :: cs) = []
    rw [ways_char_seq, if_neg (by simpa using hc)]
  have hs : ∀ (b : Bool) (c : Char) (cs : List Char), c ≠ 'q' → ways regionRe b ('s' :: c :: cs) = [] := by
    intro b c cs hc
    show ways (.seq (.char (· == 's')) (.seq (.char (· == 'q')) _)) b ('s' :: c :: cs) = []
    rw [ways_char_seq, if_pos (by decide), ways_char_seq, if_neg (by simpa using hc)]
    rfl
  show (searchFrom regionRe true ('h' :: 't' :: 't' :: 'p' :: 's' :: ':' :: '/' :: '/' ::
      ("sqs.".toList ++ _))).map _ = _
  rw [searchFrom_skip (hskip _ _ _ (by decide)), searchFrom_skip (hskip _ _ _ (by decide)),
    searchFrom_skip (hskip _ _ _ (by decide)),
    searchFrom_skip (hskip _ _ _ (by decide)), searchFrom_skip (hs _ _ _ (by decide)),
    searchFrom_skip (hskip _ _ _ (by decide)),
    searchFrom_skip (hskip _ _ _ (by decide)), searchFrom_skip (hskip _ _ _ (by decide))]
  have hk : ∀ (k : Pattern) (b : Bool) (d : Char) (rest : List Char), inRegion d = true →
      ways (.seq (.char (· == '.')) k) b (d :: rest) = [] := by
    intro k b d rest hd
    rw [ways_char_seq, if_neg]
    simp only [beq_iff_eq]
    rintro rfl
    exact absurd hd (by decide)
  obtain ⟨htake, hdrop⟩ := @span_stop _ _ ("amazonaws.com".toList ++ rest) _ hrc (show inRegion '.' = false by decide)
  have hways : ways regionRe false ("sqs.".toList ++ (r ++ '.' :: ("amazonaws.com".toList ++ rest))) =
      [⟨"sqs.".toList ++ (r ++ ".amazonaws.com".toList), rest, [r]⟩] := by
    unfold regionRe
    rw [List.append_assoc, ways_lit]
    show ((ways (.seq (.group (.many true 1 inRegion))
        (.seq (.char (· == '.')) (seqs (lit "amazonaws.com".toList ++ [])))) _ _).map _) = _
    rw [ways_group_many_seq (hk _), htake, hdrop, if_pos hr, ways_char_seq, if_pos (by decide), ways_lit]
    simp [seqs, ways_empty, Found.andThen]
  rw [searchFrom_found (f := ⟨"sqs.".toList ++ (r ++ ".amazonaws.com".toList), rest, [r]⟩)]
  · rfl
  · show (ways regionRe false ("sqs.".toList ++ (r ++ '.' :: ("amazonaws.com".toList ++ rest)))).head? = _
    rw [hways]
    rfl

/-! ## The two forms of a queue's name -/

theorem strip_surrounded {lead core trail : List Char} (hl : ∀ c ∈ lead, isSpace c = true)
    (ht : ∀ c ∈ trail, isSpace c = true)
    (hne : core ≠ []) (hfirst : ∀ c ∈ core.head?, isSpace c = false)
    (hlast : ∀ c ∈ core.getLast?, isSpace c = false) :
    strip (lead ++ core ++ trail) = core := by
  have hfront : (lead ++ core ++ trail).dropWhile isSpace = core ++ trail := by
    rw [List.append_assoc, List.dropWhile_append_of_pos hl]
    refine Tfvars.dropWhile_head fun c hc => hfirst c ?_
    rwa [List.head?_append, List.head?_eq_some_head hne, Option.some_or, ← List.head?_eq_some_head hne] at hc
  have hback : (core ++ trail).reverse.dropWhile isSpace = core.reverse := by
    rw [List.reverse_append, List.dropWhile_append_of_pos fun c hc => ht c (List.mem_reverse.mp hc)]
    exact Tfvars.dropWhile_head fun c hc => hlast c (by rwa [List.head?_reverse] at hc)
  rw [strip, stripWith, hfront, hback, List.reverse_reverse]

theorem splitAt_single {c : Char} {s : String} (h : c ∉ s.toList) : splitAt c s = [s] := by
  rw [splitAt, List.splitOn_eq_singleton h, List.map_singleton, String.ofList_toList]

theorem splitAt_sep {c : Char} {sep s t : String} (hsep : sep.toList = [c]) (h : c ∉ s.toList) :
    splitAt c (s ++ sep ++ t) = s :: splitAt c t := by
  have hl : (s ++ sep ++ t).toList = s.toList ++ c :: t.toList := by
    rw [String.toList_append, String.toList_append, hsep, List.append_assoc]
    rfl
  rw [splitAt, hl, List.splitOn_append_cons_self_of_not_mem h, List.map_cons, String.ofList_toList]
  rfl

/-! The parts are variables here: a literal is slow to compare with `s ++ t`. -/

theorem toList_six (a b c d e f : String) : (a ++ b ++ c ++ d ++ e ++ f).toList =
    a.toList ++ (b.toList ++ (c.toList ++ (d.toList ++ (e.toList ++ f.toList)))) := by
  simp only [String.toList_append, List.append_assoc]

theorem regroup_arn (a b c s region account name : String) :
    a ++ s ++ (b ++ s ++ (c ++ s)) ++ region ++ s ++ account ++ s ++ name =
      a ++ s ++ (b ++ s ++ (c ++ s ++ (region ++ s ++ (account ++ s ++ name)))) := by
  simp only [String.append_assoc]

theorem regroup_url (a b c d s region account name : String) :
    a ++ s ++ (b ++ s ++ c) ++ region ++ (d ++ s) ++ account ++ s ++ name =
      a ++ s ++ (b ++ s ++ (c ++ region ++ d ++ s ++ (account ++ s ++ name))) := by
  simp only [String.append_assoc]

namespace QueueId

variable (q : QueueId)

theorem mem_name {c : Char} (h : c ∈ q.name.toList) : inQueueName c = true ∨ c = '.' := by
  unfold name at h
  rw [String.toList_append] at h
  rcases List.mem_append.mp h with h | h
  · exact Or.inl (q.base_chars c h)
  · cases hf : q.fifo with
    | false =>
      rw [hf] at h
      cases h
    | true =>
      rw [hf] at h
      revert h
      have hall : ".fifo".toList.all (fun c => inQueueName c || c == '.') = true := by decide
      simpa using List.all_eq_true.mp hall c

/-- No separator is in a name. -/
theorem notMem_name {c : Char} (h : inQueueName c = false) (hdot : c ≠ '.') : c ∉ q.name.toList := by
  intro hc
  rcases q.mem_name hc with hn | hn
  · rw [h] at hn
    cases hn
  · exact hdot hn

theorem isSpace_name {c : Char} (h : c ∈ q.name.toList) : isSpace c = false := by
  refine Tfvars.isSpace_visible ?_
  rcases q.mem_name h with hn | rfl
  · simp only [inQueueName, Bool.or_eq_true, beq_iff_eq] at hn
    rcases hn with (hn | rfl) | rfl
    · exact Tfvars.nameChar_visible (by simp [Tfvars.isNameChar, hn])
    · decide
    · decide
  · decide

theorem notMem_region {c : Char} (h : inRegion c = false) : c ∉ q.region.toList := by
  intro hc
  rw [q.region_chars c hc] at h
  cases h

theorem notMem_account {c : Char} (h : c.isDigit = false) : c ∉ q.account.toList := by
  intro hc
  rw [q.account_chars c hc] at h
  cases h

theorem name_ne : q.name ≠ "" := by
  intro h
  unfold name at h
  rw [← String.toList_inj, String.toList_append] at h
  exact q.base_ne (String.toList_inj.mp (List.append_eq_nil_iff.mp h).1)

theorem toList_arn : q.arn.toList =
    "arn:aws:sqs:".toList ++ (q.region.toList ++ ':' :: (q.account.toList ++ ':' :: q.name.toList)) := by
  exact (toList_six ..).trans rfl

theorem toList_url : q.url.toList =
    "https://sqs.".toList ++ (q.region.toList ++
      (".amazonaws.com".toList ++ '/' :: (q.account.toList ++ '/' :: q.name.toList))) := by
  exact (toList_six ..).trans rfl

/-- A text that ends in the name is not stripped there. -/
theorem name_last {s front : String} (h : s = front ++ q.name) : ∀ c ∈ s.toList.getLast?, isSpace c = false := by
  have hne : q.name.toList ≠ [] := fun h => q.name_ne (String.toList_inj.mp h)
  intro c hc
  rw [h, String.toList_append, List.getLast?_append, List.getLast?_eq_some_getLast hne, Option.some_or,
    Option.mem_some_iff] at hc
  exact q.isSpace_name (hc ▸ List.getLast_mem hne)

theorem one_le_length {s : String} (h : s ≠ "") : 1 ≤ s.toList.length :=
  List.length_pos_iff.mpr fun hnil => h (String.toList_inj.mp hnil)

theorem queueUrlFromArn_arn : queueUrlFromArn q.arn = some q.url := by
  have hgroups : (reMatch arnRe q.arn).map Found.groups =
      some [q.region.toList, q.account.toList, q.name.toList] := by
    rw [reMatch, toList_arn]
    exact match_arn (one_le_length q.region_ne) (q.notMem_region (by decide)) (one_le_length q.account_ne)
      (q.notMem_account (by decide)) (one_le_length q.name_ne) (q.notMem_name (by decide) (by decide))
  rw [queueUrlFromArn, hgroups]
  simp only [String.ofList_toList]
  rfl

theorem normalize_arn {lead trail : String} (hl : ∀ c ∈ lead.toList, isSpace c = true)
    (ht : ∀ c ∈ trail.toList, isSpace c = true) :
    normalizeQueueInput (lead ++ q.arn ++ trail) = some q.url := by
  have hstrip : strip (lead ++ q.arn ++ trail).toList = q.arn.toList := by
    rw [String.toList_append, String.toList_append]
    refine strip_surrounded hl ht (by simp [toList_arn]) (fun c hc => ?_) (q.name_last rfl)
    rw [toList_arn] at hc
    obtain rfl : 'a' = c := Option.some.inj hc
    decide
  have hurl : startsWith q.arn "https://" = false := by
    rw [startsWith, toList_arn]
    rfl
  have harn : startsWith q.arn "arn:aws:sqs:" = true := by
    rw [startsWith, toList_arn]
    rfl
  rw [normalizeQueueInput, hstrip, String.ofList_toList, hurl, if_neg (by decide), harn, if_pos rfl,
    queueUrlFromArn_arn]

theorem normalize_url : normalizeQueueInput q.url = some q.url := by
  have hstrip : strip q.url.toList = q.url.toList := by
    refine Tfvars.strip_eq (fun c hc => ?_) (q.name_last rfl)
    rw [toList_url] at hc
    obtain rfl : 'h' = c := Option.some.inj hc
    decide
  have hurl : startsWith q.url "https://" = true := by
    rw [startsWith, toList_url]
    rfl
  rw [normalizeQueueInput, hstrip, String.ofList_toList, hurl, if_pos rfl]

theorem regionOf_url : regionOf q.url = some q.region := by
  have hgroups : (reSearch regionRe q.url).map Found.groups = some [q.region.toList] := by
    rw [reSearch, toList_url]
    exact search_region (one_le_length q.region_ne) q.region_chars
  rw [regionOf, hgroups]
  simp only [String.ofList_toList]

theorem split_url : splitAt '/' q.url =
    ["https:", "", "sqs." ++ q.region ++ ".amazonaws.com", q.account, q.name] := by
  have hurl : q.url = "https:" ++ "/" ++
      ("" ++ "/" ++ ("sqs." ++ q.region ++ ".amazonaws.com" ++ "/" ++ (q.account ++ "/" ++ q.name))) := by
    have hscheme : "https://sqs." = "https:" ++ "/" ++ ("" ++ "/" ++ "sqs.") := by decide
    have hdomain : ".amazonaws.com/" = ".amazonaws.com" ++ "/" := by decide
    show "https://sqs." ++ q.region ++ ".amazonaws.com/" ++ q.account ++ "/" ++ q.name = _
    rw [hscheme, hdomain]
    exact regroup_url ..
  have hhost : '/' ∉ ("sqs." ++ q.region ++ ".amazonaws.com").toList := by
    simp [String.toList_append, q.notMem_region (show inRegion '/' = false by decide)]
  rw [hurl, splitAt_sep rfl (by decide), splitAt_sep rfl (by decide), splitAt_sep rfl hhost,
    splitAt_sep rfl (q.notMem_account (by decide)), splitAt_single (q.notMem_name (by decide) (by decide))]

theorem split_arn : splitAt ':' q.arn = ["arn", "aws", "sqs", q.region, q.account, q.name] := by
  have harn : q.arn = "arn" ++ ":" ++
      ("aws" ++ ":" ++ ("sqs" ++ ":" ++ (q.region ++ ":" ++ (q.account ++ ":" ++ q.name)))) := by
    have hfront : "arn:aws:sqs:" = "arn" ++ ":" ++ ("aws" ++ ":" ++ ("sqs" ++ ":")) := by decide
    show "arn:aws:sqs:" ++ q.region ++ ":" ++ q.account ++ ":" ++ q.name = _
    rw [hfront]
    exact regroup_arn ..
  rw [harn, splitAt_sep rfl (by decide), splitAt_sep rfl (by decide), splitAt_sep rfl (by decide),
    splitAt_sep rfl (q.notMem_region (by decide)), splitAt_sep rfl (q.notMem_account (by decide)),
    splitAt_single (q.notMem_name (by decide) (by decide))]

/-- AWS answers with the queue's own ARN. -/
def Answers (client : SqsClient) : Prop :=
  ∃ attrs, client.getQueueAttributes q.url = .ok (some attrs) ∧ attrs.lookup "QueueArn" = some q.arn

variable {q} {client : SqsClient}

@[simp] theorem orSqsError_ok {α : Type} (failed : String) (a : α) : orSqsError failed (.ok a) = .ok a := rfl

/-- An SQSError is raised on as it is. -/
theorem orSqsError_twice {α : Type} (failed failed' : String) (r : Except SqsExc α) :
    orSqsError failed (orSqsError failed' r) = orSqsError failed' r := by
  cases r with
  | ok a => rfl
  | error e => cases e <;> rfl

theorem arn_ne : q.arn ≠ "" := by
  rw [ne_eq, ← String.toList_inj, toList_arn]
  simp

theorem validate_url (h : q.Answers client) (selfRegion : String) :
    ∃ info, validateQueueUrl selfRegion client q.url = .ok info ∧
    info.url = q.url ∧ info.arn = q.arn ∧ info.name = q.name ∧ info.region = q.region := by
  obtain ⟨attrs, hattrs, harn⟩ := h
  refine ⟨⟨q.url, q.arn, q.name, q.region, (attrs.lookup "ApproximateNumberOfMessages").getD "0"⟩, ?_, rfl,
    rfl, rfl, rfl⟩
  unfold validateQueueUrl getQueueAttributes
  rw [hattrs]
  simp only [Except.map, orSqsError, bind, Except.bind, Option.getD_some, harn, if_neg arn_ne, split_arn]
  rfl

/-- The policy names the account of the ARN. -/
theorem configure_url (h : q.Answers client) (bucketName : String) :
    configureQueueForS3 client q.url bucketName =
      setQueuePolicy client q.url (getQueuePolicyForS3 q.arn bucketName q.account) := by
  obtain ⟨attrs, hattrs, harn⟩ := h
  have haccount : ((splitAt ':' q.arn)[4]?).getD "" = q.account := by
    rw [split_arn]
    rfl
  unfold configureQueueForS3 getQueueAttributes
  rw [hattrs]
  simp only [Except.map, orSqsError_ok, bind, Except.bind, Option.getD_some, harn, if_neg arn_ne, haccount,
    if_neg q.account_ne]
  exact orSqsError_twice _ _ _

/-- The queue that is typed as its ARN is looked up in its own region. -/
theorem existing_arn {clients : String → SqsClient} {lead trail : String} (hl : ∀ c ∈ lead.toList, isSpace c = true)
    (ht : ∀ c ∈ trail.toList, isSpace c = true) (queueRegion : String) :
    existingQueue clients (some (lead ++ q.arn ++ trail)) queueRegion =
      validateQueueUrl q.region (clients q.region) q.url := by
  have hinput : truthy (some (lead ++ q.arn ++ trail)) = some (lead ++ q.arn ++ trail) := by
    have hne : lead ++ q.arn ++ trail ≠ "" := by
      rw [ne_eq, ← String.toList_inj, String.toList_append, String.toList_append, toList_arn]
      simp
    simp [truthy, hne]
  have hnormal : truthy (some q.url) = some q.url := by
    have hne : q.url ≠ "" := by
      rw [ne_eq, ← String.toList_inj, toList_url]
      simp
    simp [truthy, hne]
  simp only [existingQueue, hinput, q.normalize_arn hl ht, hnormal, regionOf_url, Option.getD_some]

end QueueId

/-- Whatever white space is around an ARN, it becomes the queue's URL, which is its own
    normal form; and the region, the account and the name are the same wherever one of the
    two is taken apart. -/
theorem conversions_agree (q : QueueId) {lead trail : String} (hl : ∀ c ∈ lead.toList, isSpace c = true)
    (ht : ∀ c ∈ trail.toList, isSpace c = true) :
    normalizeQueueInput (lead ++ q.arn ++ trail) = some q.url ∧ regionOf q.url = some q.region ∧
      (∃ front, splitAt '/' q.url = front ++ [q.account, q.name]) ∧ normalizeQueueInput q.url = some q.url ∧
      (splitAt ':' q.arn)[3]? = some q.region ∧ (splitAt ':' q.arn)[4]? = some q.account ∧
      (splitAt ':' q.arn).getLast? = some q.name ∧
      ∀ clients queueRegion bucketName, q.Answers (clients q.region) →
        (∃ info, existingQueue clients (some (lead ++ q.arn ++ trail)) queueRegion = .ok info ∧
          info.url = q.url ∧ info.arn = q.arn ∧
          info.name = q.name ∧ info.region = q.region) ∧
        configureQueueForS3 (clients q.region) q.url bucketName =
          setQueuePolicy (clients q.region) q.url (getQueuePolicyForS3 q.arn bucketName q.account) := by
  refine ⟨q.normalize_arn hl ht, q.regionOf_url,
    ⟨["https:", "", "sqs." ++ q.region ++ ".amazonaws.com"], q.split_url⟩, q.normalize_url, ?_, ?_,
    ?_, fun clients queueRegion bucketName h => ⟨?_, ?_⟩⟩
  · rw [q.split_arn]
    rfl
  · rw [q.split_arn]
    rfl
  · rw [q.split_arn]
    rfl
  · rw [QueueId.existing_arn hl ht]
    exact QueueId.validate_url h _
  · exact QueueId.configure_url h bucketName

/-- A region and a name that look like parts of the pattern. -/
def lookalike : QueueId where
  region := "sqs"
  account := "123456789012"
  base := "sqs-amazonaws-com"
  fifo := true
  region_ne := by decide
  region_chars := List.all_eq_true.mp (by decide)
  account_ne := by decide
  account_chars := List.all_eq_true.mp (by decide)
  base_ne := by decide
  base_chars := List.all_eq_true.mp (by decide)

def lookalikeClient : SqsClient := ⟨fun _ => .ok (some [("QueueArn", lookalike.arn)]), fun _ _ => .ok ()⟩

theorem conversions_agree_lookalike : normalizeQueueInput (" \n" ++ lookalike.arn ++ "\t") = some lookalike.url ∧
    configureQueueForS3 lookalikeClient lookalike.url "media" =
      setQueuePolicy lookalikeClient lookalike.url (getQueuePolicyForS3 lookalike.arn "media" "123456789012") := by
  obtain ⟨hurl, -, -, -, -, -, -, hqueue⟩ :=
    @conversions_agree lookalike " \n" "\t" (List.all_eq_true.mp (by decide)) (List.all_eq_true.mp (by decide))
  exact ⟨hurl, (hqueue (fun _ => lookalikeClient) "us-east-1" "media" ⟨_, rfl, rfl⟩).2⟩

end Connect.Sqs
