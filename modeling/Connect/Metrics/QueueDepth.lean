/-
  Connect.Metrics.QueueDepth — the two readers of the work queue's depth: the autoscaling
  Lambda (queue-metric/lambda/index.py) and the metrics sampler (services/metrics.py).

  The jobs that wait are the members of the sorted set `arq:queue`, and both readers ask
  for its `LLEN`, the length of a list. While a job waits the server answers with
  WRONGTYPE: the Lambda raises and publishes nothing, the sampler logs a warning and leaves
  its gauge as it was. Without one the key does not exist and both report 0. So a reading
  is exact if and only if the queue is empty when it is taken (`exact_iff_empty`).

  The server, redis-py and ARQ are parameters with what is documented of them
  (`Deployment.Documented`). `float(depth)` is kept as the integer.
-/

import Connect.Py
import Connect.Redis

namespace Connect.Metrics

open Redis Chars

/-! ## The Lambda -/

structure Secret where
  host : String
  port : Int
  authToken : String
  deriving DecidableEq, Repr

/-- The environment of the Lambda. -/
structure LambdaEnv where
  namespaceName : String
  metricName : String
  queueKey : String
  env : String
  deriving DecidableEq, Repr

structure MetricData where
  namespaceName : String
  metricName : String
  dimensions : List (String × String)
  value : Int
  unit : String
  deriving DecidableEq, Repr

/-- What a server writes back after the last of the requests a connection has sent. -/
abbrev Server := Keyspace → List Octets → Octets

/-- How the network hands each reply to `recv(64)`. -/
abbrev Network := (reply : Octets) → Pieces 64 reply

def respBulk (parts : List String) : Octets :=
  octets (String.join (s!"*{parts.length}\r\n" :: parts.map fun p => s!"${p.length}\r\n{p}\r\n"))

def closed (buf : Octets) : Exc := .exception s!"connection closed (partial: {bytesRepr buf})"

/-- `_read_line`, on the pieces that `recv` returns; behind the last the connection is closed. -/
def readLine (buf : Octets) : List Octets → Except Exc (Octets × List Octets)
  | [] => if endsCrlf buf then .ok (buf, []) else .error (closed buf)
  | chunk :: rest =>
    if endsCrlf buf then .ok (buf, chunk :: rest)
    else if chunk = [] then .error (closed buf)
    else readLine (buf ++ chunk) rest

/-- `line.rstrip(b"\r\n")`. -/
def rstripCrlf (line : Octets) : Octets := (line.reverse.dropWhile fun b => b = 13 || b = 10).reverse

/-- `int(b)`. -/
def intOfBytes (bs : Octets) : Except Exc Int :=
  let cs := bs.map fun b => Char.ofNat b.toNat
  match asciiInt cs with
  | some n => .ok n
  | none => .error (.exception (intError cs (bytesRepr bs)))

/-- `_llen`, on a connection to `server` with the keyspace as it is when `LLEN` runs. -/
def llen (server : Server) (net : Network) (ks : Keyspace) (authToken key : String) : Except Exc Int := do
  let auth := respBulk ["AUTH", "default", authToken]
  let (line, rest) ← readLine [] (net (server ks [auth])).pieces
  if !(octets "+OK").isPrefixOf line then throw (.exception s!"AUTH failed: {bytesRepr line}")
  let ask := respBulk ["LLEN", key]
  let (line, _) ← readLine [] (rest ++ (net (server ks [auth, ask])).pieces)
  if !(octets ":").isPrefixOf line then throw (.exception s!"LLEN failed: {bytesRepr line}")
  intOfBytes (rstripCrlf (line.drop 1))

/-- `_load_secret`; `fetched` is the secret that Secrets Manager holds. -/
def loadSecret (fetched : Secret) (cache : Option Secret) : Secret := cache.getD fetched

/-- `handler`: its answer, and what it published. -/
def handler (cfg : LambdaEnv) (server : Server) (net : Network) (ks : Keyspace) (secret : Secret) :
    Except Exc (Int × MetricData) := do
  let depth ← llen server net ks secret.authToken cfg.queueKey
  pure (depth,
    { namespaceName := cfg.namespaceName
      metricName := cfg.metricName
      dimensions := [("Env", cfg.env), ("Service", "worker")]
      value := depth
      unit := "Count" })

/-! ## The sampler -/

structure Gauges where
  queueDepth : String → Option Int
  dbPoolInUse : Option Int

inductive Warning where
  | queueDepth (error : String)
  | dbPool (error : String)
  deriving DecidableEq, Repr

/-- `except Exception`: the exception's text in a warning; a cancellation goes on. -/
def guarded {α : Type} (r : Except Exc α) : Except Exc (α ⊕ String) :=
  match r with
  | .ok a => .ok (.inl a)
  | .error e => if e.isException then .ok (.inr e.text) else .error e

/-- `_sample_once`, with what `redis_client.llen` and `pool.checkedout` answer, or none
    for a client or an engine that is None. The pool is asked without an await, so what it
    raises is an Exception: its text. -/
def sampleOnce (redisLlen : Option (String → Except Exc Int)) (checkedout : Option (Except String Int))
    (queueName : String) (g : Gauges) : Except Exc (Gauges × List Warning) := do
  let (g, warnings) ← match redisLlen with
    | none => pure (g, [])
    | some ask => do
      match ← guarded (ask queueName) with
      | .inl depth =>
        pure ({ g with queueDepth := fun q => if q = queueName then some depth else g.queueDepth q }, [])
      | .inr text => pure (g, [Warning.queueDepth text])
  match checkedout with
  | none => pure (g, warnings)
  | some (.ok n) => pure ({ g with dbPoolInUse := some n }, warnings)
  | some (.error text) => pure (g, warnings ++ [Warning.dbPool text])

/-! ## The queue -/

/-- The default of `QUEUE_KEY` and of `ARQ_QUEUE_NAME`. -/
def queueKey : String := "arq:queue"

/-- The code outside the repository. -/
structure Deployment where
  server : Server
  /-- `llen` of redis-py, on the same server. -/
  clientLlen : Keyspace → String → Except Exc Int
  /-- `enqueue_job` and the end of a job, as ARQ writes them. -/
  enqueueJob : String → Keyspace → Keyspace
  finishJob : String → Keyspace → Keyspace

/-- What is documented of it. -/
structure Deployment.Documented (D : Deployment) (authToken : String) : Prop where
  auth (ks : Keyspace) : D.server ks [command ["AUTH", "default", authToken]] = octets "+OK" ++ crlf
  serverLlen (ks : Keyspace) :
    D.server ks [command ["AUTH", "default", authToken], command ["LLEN", queueKey]] = (llenReply (ks queueKey)).line
  clientInt (ks : Keyspace) (n : Nat) : llenReply (ks queueKey) = .int n → D.clientLlen ks queueKey = .ok n
  clientError (ks : Keyspace) (text : String) :
    llenReply (ks queueKey) = .error text → D.clientLlen ks queueKey = .error (.exception text)
  enqueued (job : String) (ks : Keyspace) : D.enqueueJob job ks queueKey = zadd job (ks queueKey)
  finished (job : String) (ks : Keyspace) : D.finishJob job ks queueKey = zrem job (ks queueKey)

/-- `jobs` are the jobs on the queue, whatever the keyspace holds. -/
structure World where
  ks : Keyspace
  jobs : List String
  gauges : Gauges
  cache : Option Secret

/-- `sample` is a pass with what the connection pool answers in it. -/
inductive Event where
  | enqueueJob (job : String)
  | finishJob (job : String)
  | handler (net : Network)
  | sample (checkedout : Option (Except String Int))

/-- A reading, with the number of jobs on the queue when it is taken. -/
inductive Reading where
  | handler (waiting : Nat) (answer : Except Exc (Int × MetricData))
  | sample (waiting : Nat) (outcome : Except Exc (Gauges × List Warning))

def Reading.waiting : Reading → Nat
  | .handler n _ | .sample n _ => n

def isQueueWarning : Warning → Bool
  | .queueDepth _ => true
  | .dbPool _ => false

/-- It ended without an error, and reports the number of jobs. -/
def Reading.Exact : Reading → Prop
  | .handler n answer => ∃ data : MetricData, answer = .ok (n, data) ∧ data.value = n
  | .sample n outcome => ∃ (g : Gauges) (warnings : List Warning), outcome = .ok (g, warnings) ∧
      warnings.any isQueueWarning = false ∧ g.queueDepth queueKey = some n

variable (D : Deployment) (cfg : LambdaEnv) (secret : Secret)

def step (w : World) : Event → World × Option Reading
  | .enqueueJob job =>
    ({ w with ks := D.enqueueJob job w.ks, jobs := if job ∈ w.jobs then w.jobs else w.jobs ++ [job] }, none)
  | .finishJob job => ({ w with ks := D.finishJob job w.ks, jobs := w.jobs.filter (· != job) }, none)
  | .handler net =>
    let s := loadSecret secret w.cache
    ({ w with cache := some s }, some (.handler w.jobs.length (handler cfg D.server net w.ks s)))
  | .sample checkedout =>
    let outcome := sampleOnce (some (D.clientLlen w.ks)) checkedout queueKey w.gauges
    ({ w with gauges := match outcome with | .ok (g, _) => g | .error _ => w.gauges },
      some (.sample w.jobs.length outcome))

/-- The readings of a run. -/
def readings (w : World) : List Event → List Reading
  | [] => []
  | e :: es => (step D cfg secret w e).2.toList ++ readings (step D cfg secret w e).1 es

/-! ## One conversation -/

/-- A bulk string under its length in characters. -/
def counted (part : String) : Octets :=
  octets "$" ++ octets (toString part.length) ++ crlf ++ octets part ++ crlf

theorem respBulk_eq (parts : List String) :
    respBulk parts = octets "*" ++ octets (toString parts.length) ++ crlf ++ parts.flatMap counted := by
  have hparts : octets (String.join (parts.map fun p => s!"${p.length}\r\n{p}\r\n")) = parts.flatMap counted := by
    induction parts with
    | nil => rfl
    | cons p ps ih =>
      have hp : octets s!"${p.length}\r\n{p}\r\n" = counted p := by
        simp only [counted, octets_append, List.append_assoc]
        rfl
      rw [List.map_cons, String.join_cons, octets_append, hp, ih, List.flatMap_cons]
  rw [respBulk, String.join_cons, octets_append, hparts]
  simp only [octets_append, List.append_assoc]
  rfl

/-- The length of a string is the one of its bytes as long as it is ASCII. -/
theorem respBulk_eq_command {parts : List String} (h : ∀ p ∈ parts, ∀ c ∈ p.toList, c.toNat < 128) :
    respBulk parts = command parts := by
  have hparts : parts.flatMap counted = parts.flatMap bulk := by
    induction parts with
    | nil => rw [List.flatMap_nil, List.flatMap_nil]
    | cons p ps ih =>
      have hp : counted p = bulk p := by rw [counted, bulk, length_octets (h p (by simp))]
      rw [List.flatMap_cons, List.flatMap_cons, hp, ih fun q hq => h q (by simp [hq])]
  rw [respBulk_eq, hparts, command]

/-- However a reply is cut, `_read_line` returns it whole, and reads no further. -/
theorem readLine_pieces {buf : Octets} {chunks : List Octets} (hline : OneCrlf (buf ++ chunks.flatten))
    (hne : ∀ c ∈ chunks, c ≠ []) (later : List Octets) :
    readLine buf (chunks ++ later) = .ok (buf ++ chunks.flatten, later) := by
  induction chunks generalizing buf with
  | nil =>
    have he : endsCrlf buf = true := by simpa using hline.ends
    cases later <;> simp [readLine, he]
  | cons chunk rest ih =>
    have hc : chunk ≠ [] := hne chunk (by simp)
    have he : endsCrlf buf = false := hline.not_ends (by simp [hc])
    rw [List.flatten_cons, ← List.append_assoc] at hline ⊢
    rw [List.cons_append, readLine, he, if_neg (by simp), if_neg hc]
    exact ih hline (fun c hm => hne c (by simp [hm]))

theorem readLine_reply {reply : Octets} (h : OneCrlf reply) (net : Pieces 64 reply) (later : List Octets) :
    readLine [] (net.pieces ++ later) = .ok (reply, later) := by
  have hj := net.joined
  have := @readLine_pieces [] _ (by simpa [hj] using h) (fun c hc => (net.small c hc).1) later
  simpa [hj] using this

theorem readLine_network (net : Network) {reply : Octets} (h : IsLine reply) :
    readLine [] (net reply).pieces = .ok (reply, []) := by
  have := readLine_reply h.oneCrlf (net reply) []
  rwa [List.append_nil] at this

theorem intOfBytes_toString (n : Nat) (hn : (Nat.toDigits 10 n).length ≤ 4300) :
    intOfBytes (octets (toString n)) = .ok n := by
  have hc : (octets (toString n)).map (fun b => Char.ofNat b.toNat) = Nat.toDigits 10 n := by
    rw [chars_octets (fun c hc => (ascii_toString n c hc).1), toList_toString]
  rw [intOfBytes, hc, asciiInt_toDigits n hn]

theorem rstripCrlf_append {bs : Octets} (h : ∀ b ∈ bs, b ≠ 13 ∧ b ≠ 10) : rstripCrlf (bs ++ crlf) = bs := by
  have hd : bs.reverse.dropWhile (fun b => b = 13 || b = 10) = bs.reverse :=
    dropWhile_none fun b hb => by simpa using h b (List.mem_reverse.mp hb)
  rw [rstripCrlf, crlf, List.reverse_append]
  simpa using congrArg List.reverse hd

/-- The secret is one that the server accepts and an AUTH token can be. -/
structure Valid (authToken : String) : Prop where
  documented : D.Documented authToken
  ascii : ∀ c ∈ authToken.toList, c.toNat < 128

variable {D} {cfg} {secret}

/-- `_llen` is what the server counts, or the error it answers with. -/
theorem llen_eq (hD : Valid D secret.authToken) (net : Network) (ks : Keyspace) :
    llen D.server net ks secret.authToken queueKey =
      if (octets ":").isPrefixOf (llenReply (ks queueKey)).line then
        intOfBytes (rstripCrlf ((llenReply (ks queueKey)).line.drop 1))
      else .error (.exception s!"LLEN failed: {bytesRepr (llenReply (ks queueKey)).line}") := by
  have hauth : respBulk ["AUTH", "default", secret.authToken] = command ["AUTH", "default", secret.authToken] := by
    refine respBulk_eq_command fun p hp => ?_
    simp only [List.mem_cons, List.not_mem_nil, or_false] at hp
    rcases hp with rfl | rfl | rfl
    · decide
    · decide
    · exact hD.ascii
  have hask : respBulk ["LLEN", queueKey] = command ["LLEN", queueKey] := rfl
  have hok : readLine [] (net (octets "+OK" ++ crlf)).pieces = .ok (octets "+OK" ++ crlf, []) :=
    readLine_network net ⟨octets "+OK", rfl, by decide⟩
  have hline := readLine_network net (isLine_llenReply (ks queueKey))
  unfold llen
  dsimp only
  rw [hauth, hask, hD.documented.auth, hD.documented.serverLlen, hok]
  simp only [bind, Except.bind, List.nil_append, hline]
  rw [show (octets "+OK").isPrefixOf (octets "+OK" ++ crlf) = true from by decide]
  cases (octets ":").isPrefixOf (llenReply (ks queueKey)).line <;> rfl

/-- A list of a length that `int` reads is counted: what the function was written for. -/
theorem llen_int (hD : Valid D secret.authToken) (net : Network) {ks : Keyspace} {n : Nat}
    (h : llenReply (ks queueKey) = .int n) (hn : (Nat.toDigits 10 n).length ≤ 4300) :
    llen D.server net ks secret.authToken queueKey = .ok n := by
  have hcolon : octets ":" = [58] := rfl
  have hdigits : ∀ b ∈ octets (toString n), b ≠ 13 ∧ b ≠ 10 := by
    have hlow (b : UInt8) (hb : b.toNat < '0'.toNat) : b ∉ octets (toString n) :=
      not_mem_octets fun c hc => ⟨(ascii_toString n c hc).1,
        Nat.ne_of_gt (Nat.lt_of_lt_of_le hb (ascii_toString n c hc).2)⟩
    intro b hb
    exact ⟨fun h => hlow 13 (by decide) (h ▸ hb), fun h => hlow 10 (by decide) (h ▸ hb)⟩
  have hline : (Reply.int n).line = 58 :: (octets (toString n) ++ crlf) := by simp [Reply.line, hcolon]
  rw [llen_eq hD net ks, h, hline, if_pos (by simp [hcolon]), List.drop_one, List.tail_cons,
    rstripCrlf_append hdigits, intOfBytes_toString n hn]

theorem llen_error (hD : Valid D secret.authToken) (net : Network) {ks : Keyspace} {text : String}
    (h : llenReply (ks queueKey) = .error text) :
    llen D.server net ks secret.authToken queueKey =
      .error (.exception s!"LLEN failed: {bytesRepr (Reply.error text).line}") := by
  have hminus : (octets ":").isPrefixOf (Reply.error text).line = false := by
    show (octets ":").isPrefixOf (octets "-" ++ octets text ++ crlf) = false
    rw [List.append_assoc]
    rfl
  rw [llen_eq hD net ks, h, hminus]
  rfl

/-! ## Runs -/

/-- What ties the keyspace to the queue, and the Lambda's cache to the secret. -/
structure World.Inv (secret : Secret) (w : World) : Prop where
  waiting : w.ks queueKey = sortedSet w.jobs
  cached : loadSecret secret w.cache = secret

theorem inv_step (hD : Valid D secret.authToken) {w : World} (h : w.Inv secret) (e : Event) :
    (step D cfg secret w e).1.Inv secret := by
  cases e with
  | enqueueJob job =>
    refine ⟨?_, h.cached⟩
    show D.enqueueJob job w.ks queueKey = _
    rw [hD.documented.enqueued, h.waiting, zadd_sortedSet]
    rfl
  | finishJob job =>
    refine ⟨?_, h.cached⟩
    show D.finishJob job w.ks queueKey = _
    rw [hD.documented.finished, h.waiting, zrem_sortedSet]
    rfl
  | handler net => exact ⟨h.waiting, h.cached⟩
  | sample checkedout => exact ⟨h.waiting, h.cached⟩

theorem handler_exact_iff (hD : Valid D secret.authToken) (hq : cfg.queueKey = queueKey) (net : Network) {w : World}
    (h : w.Inv secret) :
    (Reading.handler w.jobs.length (handler cfg D.server net w.ks secret)).Exact ↔ w.jobs.length = 0 := by
  have hlen : llenReply (w.ks queueKey) = if w.jobs = [] then .int 0 else .error wrongType := by
    rw [h.waiting, llenReply_sortedSet]
  cases hjobs : w.jobs with
  | nil =>
    rw [hjobs, if_pos rfl] at hlen
    have hzero := llen_int hD net hlen (by decide)
    refine ⟨fun _ => rfl, fun _ => ?_⟩
    simp [Reading.Exact, handler, hq, hzero, bind, Except.bind, pure, Except.pure]
  | cons job jobs =>
    rw [hjobs, if_neg (List.cons_ne_nil job jobs)] at hlen
    have herr := llen_error hD net hlen
    constructor
    · intro hex
      simp [Reading.Exact, handler, hq, herr, bind, Except.bind] at hex
    · intro hlen0
      simp at hlen0

theorem sampleOnce_ok {ask : String → Except Exc Int} {q : String} {n : Int} (h : ask q = .ok n)
    (checkedout : Option (Except String Int)) (g : Gauges) :
    ∃ (g' : Gauges) (ws : List Warning), sampleOnce (some ask) checkedout q g = .ok (g', ws) ∧
      ws.any isQueueWarning = false ∧ g'.queueDepth q = some n := by
  rcases checkedout with _ | text | m <;>
    (simp only [sampleOnce, guarded, h, bind, Except.bind, pure, Except.pure]
     exact ⟨_, _, rfl, rfl, if_pos rfl⟩)

/-- The warning is in the list whatever the pool answers, and the gauge keeps its value. -/
theorem sampleOnce_error {ask : String → Except Exc Int} {q text : String} (h : ask q = .error (.exception text))
    (checkedout : Option (Except String Int)) (g : Gauges) :
    ∃ (g' : Gauges) (ws : List Warning), sampleOnce (some ask) checkedout q g = .ok (g', ws) ∧
      ws.any isQueueWarning = true ∧ g'.queueDepth = g.queueDepth := by
  rcases checkedout with _ | text' | m <;>
    (simp only [sampleOnce, guarded, h, Exc.isException, if_true, bind, Except.bind, pure, Except.pure]
     exact ⟨_, _, rfl, rfl, rfl⟩)

theorem sample_exact_iff (hD : Valid D secret.authToken) (checkedout : Option (Except String Int)) {w : World}
    (h : w.Inv secret) :
    (Reading.sample w.jobs.length (sampleOnce (some (D.clientLlen w.ks)) checkedout queueKey w.gauges)).Exact ↔
      w.jobs.length = 0 := by
  have hlen : llenReply (w.ks queueKey) = if w.jobs = [] then .int 0 else .error wrongType := by
    rw [h.waiting, llenReply_sortedSet]
  cases hjobs : w.jobs with
  | nil =>
    rw [hjobs, if_pos rfl] at hlen
    exact ⟨fun _ => rfl, fun _ => sampleOnce_ok (hD.documented.clientInt w.ks 0 hlen) checkedout w.gauges⟩
  | cons job jobs =>
    rw [hjobs, if_neg (List.cons_ne_nil job jobs)] at hlen
    obtain ⟨g, ws, hout, hwarn, -⟩ :=
      sampleOnce_error (hD.documented.clientError w.ks _ hlen) checkedout w.gauges
    constructor
    · intro h
      obtain ⟨g', ws', hout', hnone, -⟩ := h
      rw [hout] at hout'
      cases hout'
      exact absurd (hnone.symm.trans hwarn) (by decide)
    · intro hlen0
      simp at hlen0

theorem exact_step (hD : Valid D secret.authToken) (hq : cfg.queueKey = queueKey) {w : World} (h : w.Inv secret)
    (e : Event) {r : Reading} (hr : (step D cfg secret w e).2 = some r) : r.Exact ↔ r.waiting = 0 := by
  cases e with
  | enqueueJob job => simp [step] at hr
  | finishJob job => simp [step] at hr
  | handler net =>
    obtain rfl : Reading.handler w.jobs.length (handler cfg D.server net w.ks (loadSecret secret w.cache)) = r := by
      simpa [step] using hr
    rw [h.cached]
    exact handler_exact_iff hD hq net h
  | sample checkedout =>
    obtain rfl : Reading.sample w.jobs.length
      (sampleOnce (some (D.clientLlen w.ks)) checkedout queueKey w.gauges) = r := by
      simpa [step] using hr
    exact sample_exact_iff hD checkedout h

theorem inv_readings (hD : Valid D secret.authToken) (hq : cfg.queueKey = queueKey) {w : World} (h : w.Inv secret)
    (es : List Event) : ∀ r ∈ readings D cfg secret w es, r.Exact ↔ r.waiting = 0 := by
  induction es generalizing w with
  | nil => simp [readings]
  | cons e es ih =>
    intro r hr
    rcases List.mem_append.mp hr with hr | hr
    · exact exact_step hD hq h e (by simpa using hr)
    · exact ih (inv_step hD h e) r hr

def run (D : Deployment) (cfg : LambdaEnv) (secret : Secret) (w : World) (es : List Event) : World :=
  es.foldl (fun w e => (step D cfg secret w e).1) w

/-- No pass sets the gauge to anything but 0. -/
theorem gauge_step (hD : Valid D secret.authToken) {w : World} (h : w.Inv secret)
    (hg : ∀ n, w.gauges.queueDepth queueKey = some n → n = 0) (e : Event) :
    ∀ n, (step D cfg secret w e).1.gauges.queueDepth queueKey = some n → n = 0 := by
  cases e with
  | enqueueJob job => exact hg
  | finishJob job => exact hg
  | handler net => exact hg
  | sample checkedout =>
    have hlen := h.waiting ▸ llenReply_sortedSet w.jobs
    by_cases hjobs : w.jobs = []
    · rw [if_pos hjobs] at hlen
      obtain ⟨g, ws, hout, -, hset⟩ := sampleOnce_ok (hD.documented.clientInt w.ks 0 hlen) checkedout w.gauges
      intro n hn
      simp only [step, hout] at hn
      exact Option.some.inj (hn.symm.trans hset)
    · rw [if_neg hjobs] at hlen
      obtain ⟨g, ws, hout, -, hkept⟩ := sampleOnce_error (hD.documented.clientError w.ks _ hlen) checkedout w.gauges
      intro n hn
      simp only [step, hout, hkept] at hn
      exact hg n hn

/-- The sampler's gauge shows 0 for ever, whatever waits. -/
theorem gauge_run (hD : Valid D secret.authToken) {w : World} (h : w.Inv secret)
    (hg : ∀ n, w.gauges.queueDepth queueKey = some n → n = 0) (es : List Event) :
    ∀ n, (run D cfg secret w es).gauges.queueDepth queueKey = some n → n = 0 := by
  induction es generalizing w with
  | nil => exact hg
  | cons e es ih => exact ih (inv_step hD h e) (gauge_step hD h hg e)

/-- Before the first job: nothing is at the queue's key, whatever else there is. -/
structure World.Fresh (w : World) : Prop where
  empty : w.ks queueKey = none
  noJobs : w.jobs = []
  noCache : w.cache = none

theorem World.Fresh.inv {w : World} (h : w.Fresh) : w.Inv secret where
  waiting := by rw [h.empty, h.noJobs]; rfl
  cached := by rw [h.noCache]; rfl

/-- In every run of jobs and readings, a reading is exact if and only if no job waits when
    it is taken. -/
theorem exact_iff_empty (hD : Valid D secret.authToken) (hq : cfg.queueKey = queueKey) {w : World} (h : w.Fresh)
    (es : List Event) : ∀ r ∈ readings D cfg secret w es, r.Exact ↔ r.waiting = 0 :=
  inv_readings hD hq h.inv es

/-! ### A server, and the run that fails -/

def testSecret : Secret := ⟨"valkey", 6379, "token"⟩

def testEnv : LambdaEnv := ⟨"Connect/ARQ", "connect_arq_queue_depth", queueKey, "dev"⟩

def valkey : Deployment where
  server ks history :=
    if history = [command ["AUTH", "default", "token"]] then octets "+OK" ++ crlf
    else if history = [command ["AUTH", "default", "token"], command ["LLEN", queueKey]] then
      (llenReply (ks queueKey)).line
    else octets "-NOAUTH Authentication required." ++ crlf
  clientLlen ks key :=
    match llenReply (ks key) with
    | .int n => .ok n
    | .error text => .error (.exception text)
  enqueueJob job ks key := if key = queueKey then zadd job (ks key) else ks key
  finishJob job ks key := if key = queueKey then zrem job (ks key) else ks key

theorem valkey_valid : Valid valkey testSecret.authToken where
  documented :=
    { auth := fun ks => by simp [valkey, testSecret]
      serverLlen := fun ks => by simp [valkey, testSecret]
      clientInt := fun ks n h => by simp [valkey, h]
      clientError := fun ks text h => by simp [valkey, h]
      enqueued := fun job ks => by simp [valkey]
      finished := fun job ks => by simp [valkey] }
  ascii := by decide

/-- Every reply comes byte by byte. -/
def byteByByte : Network := fun reply =>
  { pieces := reply.map fun b => [b]
    joined := by induction reply with | nil => rfl | cons b bs ih => simp [ih]
    small := by simp }

def firstWorld : World := ⟨fun _ => none, [], ⟨fun _ => none, none⟩, none⟩

theorem firstWorld_fresh : firstWorld.Fresh := ⟨rfl, rfl, rfl⟩

/-- A job is enqueued, waits while the Lambda looks, and is done when both look again. -/
def oneDone : List Event :=
  [.enqueueJob "a1", .handler byteByByte, .finishJob "a1", .handler byteByByte, .sample none]

theorem exact_iff_empty_done :
    (readings valkey testEnv testSecret firstWorld oneDone).map Reading.waiting = [1, 0, 0] ∧
      ∀ r ∈ (readings valkey testEnv testSecret firstWorld oneDone).tail, r.Exact := by
  refine ⟨rfl, fun r hr => (exact_iff_empty valkey_valid rfl firstWorld_fresh oneDone r
    (List.mem_of_mem_tail hr)).mpr ?_⟩
  rcases List.mem_cons.mp hr with rfl | hr
  · rfl
  · cases List.mem_singleton.mp hr
    rfl

def AllExact (D : Deployment) (cfg : LambdaEnv) (secret : Secret) (w : World) (es : List Event) : Prop :=
  ∀ r ∈ readings D cfg secret w es, r.Exact

theorem not_allExact (hD : Valid D secret.authToken) (hq : cfg.queueKey = queueKey) {w : World} (h : w.Fresh)
    {es : List Event} {r : Reading} (hr : r ∈ readings D cfg secret w es) (hw : r.waiting ≠ 0) :
    ¬ AllExact D cfg secret w es :=
  fun hall => hw ((inv_readings hD hq h.inv es r hr).mp (hall r hr))

/-- One job waits: the Lambda raises, and the sampler's gauge is not set. -/
theorem waiting_job_unseen :
    ¬ AllExact valkey testEnv testSecret firstWorld [.enqueueJob "a1", .handler byteByByte] ∧
    ¬ AllExact valkey testEnv testSecret firstWorld [.enqueueJob "a1", .sample none] := by
  constructor
  · exact not_allExact valkey_valid rfl firstWorld_fresh (List.mem_singleton.mpr rfl) (by decide)
  · exact not_allExact valkey_valid rfl firstWorld_fresh (List.mem_singleton.mpr rfl) (by decide)

end Connect.Metrics
