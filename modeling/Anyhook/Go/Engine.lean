import Anyhook.Core.Engine

/-! The Go engine, go/core/engine.go with deliver.go, retry.go, jitter.go and id.go,
over the same ports. An error returned by a port is returned at once, so it ends
the call as a throw does. Parts whose text is the same in both languages
(circuit.go, outcome.go, ratelimit.go, fanout matching) are the ones of `Core`. -/
namespace Anyhook.Go
open Anyhook.Core Anyhook.Lib.Program Anyhook.Lib.CodeUnits

/-! ## Numbers -/

/-- unicode.IsSpace, what strings.TrimSpace strips. -/
def isSpace (c : Char) : Bool :=
  c.val ∈ [0x9, 0xA, 0xB, 0xC, 0xD, 0x20, 0x85, 0xA0, 0x1680, 0x2028, 0x2029, 0x202F, 0x205F,
    0x3000] || (0x2000 ≤ c.val && c.val ≤ 0x200A)

def trimSpace (cs : List Char) : List Char :=
  ((cs.dropWhile isSpace).reverse.dropWhile isSpace).reverse

/-- strconv.underscoreOK on a number without its sign: an underscore stands only
between digits, or between a base marker and a digit. -/
def underscoreOK (hex : Bool) : Char → List Char → Bool
  | saw, [] => saw != '_'
  | saw, c :: rest =>
    if c.isDigit || (hex && (digitVal 16 c).isSome) then underscoreOK hex '0' rest
    else if c = '_' then saw == '0' && underscoreOK hex '_' rest
    else saw != '_' && underscoreOK hex '!' rest

/-- A hexadecimal mantissa with its mandatory binary exponent, after `0x`. -/
def hexFloatOf (cs : List Char) : Option ℚ :=
  let isHex := fun c => (digitVal 16 c).isSome
  let ip := cs.takeWhile isHex
  let afterInt := cs.dropWhile isHex
  let fracText := match afterInt with
    | '.' :: r => r
    | _ => []
  let fp := fracText.takeWhile isHex
  let tail := match afterInt with
    | '.' :: _ => fracText.dropWhile isHex
    | r => r
  match natOf 16 (ip ++ fp), tail with
  | some n, p :: ds =>
    if p = 'p' ∨ p = 'P' then
      (exponentOf ('e' :: ds)).map fun e : Int => (n : ℚ) * (2 : ℚ) ^ (e - 4 * fp.length)
    else none
  | _, _ => none

/-- strconv.ParseFloat(s, 64): the value when the call returns no error and the
value is finite. -/
def parseFloat (cs : List Char) : Option ℚ :=
  let sign : ℚ := if cs.head? = some '-' then -1 else 1
  let body := match cs with
    | '-' :: r => r
    | '+' :: r => r
    | r => r
  let hex := body.take 2 = ['0', 'x'] ∨ body.take 2 = ['0', 'X']
  let value := if hex then hexFloatOf ((body.drop 2).filter (· ≠ '_'))
    else decimalOf (body.filter (· ≠ '_'))
  if body.contains '_' ∧
      ¬ underscoreOK (decide hex) (if hex then '0' else '^')
        (if hex then body.drop 2 else body) then
    none
  else value.bind fun q => finite (sign * q)

/-- Conversion of a float to int64: toward zero, and the minimum int64 when it does not
fit (amd64). -/
def toInt64 (q : ℚ) : Int :=
  if -(2 ^ 63) ≤ roundToZero q ∧ roundToZero q < 2 ^ 63 then roundToZero q else -(2 ^ 63)

theorem toInt64_eq {q : ℚ} (h : |q| < 2 ^ 63) : toInt64 q = roundToZero q := by
  have hround : |roundToZero q| < 2 ^ 63 := by
    have hcast : ((|roundToZero q| : Int) : ℚ) < 2 ^ 63 := by
      rw [Int.cast_abs]
      exact (abs_roundToZero_le q).trans_lt h
    exact_mod_cast hcast
  rw [abs_lt] at hround
  exact if_pos ⟨hround.1.le, hround.2⟩

/-! ## Retry schedule (jitter.go, retry.go) -/

def fullJitter (baseMs : Time) : Eng Time := do
  let draw ← port .next
  return toInt64 (baseMs * draw)

def nextDelayMs (cfg : RetryConfig) (attemptNo : Int) (retryAfterMs : Option Time) :
    Eng (Option Time) :=
  if attemptNo < 0 ∨ attemptNo ≥ cfg.scheduleMs.length then return none
  else match retryAfterMs with
    | some v =>
      if v ≥ 0 then return some (if v > retryAfterCapMs then retryAfterCapMs else v)
      else some <$> fullJitter (cfg.scheduleMs.getD attemptNo.toNat 0)
    | none => some <$> fullJitter (cfg.scheduleMs.getD attemptNo.toNat 0)

/-! ## Accepting an event -/

/-- The character a draw selects; an index out of range is brought back into it. -/
def idChar (draw : ℚ) : Char :=
  let idx := toInt64 (draw * idAlphabet.length)
  let idx := if idx < 0 then 0 else idx
  let idx := if idx ≥ idAlphabet.length then idx % idAlphabet.length else idx
  idAlphabet.getD idx.toNat 'a'

def idChars : Nat → Eng (List Char)
  | 0 => return []
  | n + 1 => do
    let draw ← port .next
    let rest ← idChars n
    return idChar draw :: rest

def newId (pre : String) : Eng String := do
  let cs ← idChars 20
  return pre ++ "_" ++ String.ofList cs

/-- The fields are joined by spaces before hashing. -/
def deriveIdempotencyKey (en : Engine) (e : SendEvent) : String :=
  "idem_" ++ String.ofList
    ((en.sha256Hex (e.tenant ++ " " ++ e.type ++ " " ++ e.payload)).toList.take 32)

def fanout : SendEvent → String → Time → List Endpoint → Eng (List Message) :=
  fanoutWith (newId "msg")

/-- An empty idempotency key counts as none. -/
def keyOf (en : Engine) (event : SendEvent) : String :=
  if event.idempotencyKey.getD "" = "" then deriveIdempotencyKey en event
  else event.idempotencyKey.getD ""

def send (en : Engine) (event : SendEvent) : Eng Receipt :=
  match sendError en event with
  | some e => .throw e
  | none => acceptWith (newId "evt") fanout event (keyOf en event)

/-! ## One delivery POST (deliver.go) -/

def parseRetryAfterMs (headers : Option (List (String × String))) : Option Time :=
  match headers.bind fun hs => hs.lookup "retry-after" with
  | none => none
  | some raw =>
    if raw = "" then none
    else match parseFloat (trimSpace raw.toList) with
      | none => none
      | some secs => if secs < 0 then none else some (toInt64 (secs * 1000))

/-- The status of a result: -1 and -2 are the sentinels for timeout and network. -/
def statusOf : HttpResult → AttemptStatus
  | .timeout => .timeout
  | .network => .network
  | .response n _ _ => if n = -1 then .timeout else if n = -2 then .network else .code n

def deliveryResultOf (res : HttpResult) (latencyMs : Time) : DeliveryResult :=
  match statusOf res, res with
  | .code n, .response _ body headers => {
      status := .code n, outcome := classifyOutcome (.code n), latencyMs
      respSnippet := slice utf8 snippetLimit body
      retryAfterMs := if n = 429 ∨ n = 503 then parseRetryAfterMs headers else none
      blockedBySsrf := false }
  | .timeout, _ => {
      status := .timeout, outcome := .retryable, latencyMs, respSnippet := "timeout"
      retryAfterMs := none, blockedBySsrf := false }
  | _, _ => {
      status := .network, outcome := .retryable, latencyMs, respSnippet := "network"
      retryAfterMs := none, blockedBySsrf := false }

theorem deliveryResultOf_outcome (res : HttpResult) (latencyMs : Time) :
    (deliveryResultOf res latencyMs).outcome = outcomeOf res := by
  cases res with
  | timeout => rfl
  | network => rfl
  | response n body headers =>
    unfold deliveryResultOf statusOf outcomeOf
    by_cases h1 : n = -1
    · subst h1; rfl
    · by_cases h2 : n = -2
      · subst h2; rfl
      · simp [h1, h2]

/-- `snippet[:limit]`, of a body that got a status. -/
theorem deliveryResultOf_snippet {status : Int} (hstatus : status ≠ -1 ∧ status ≠ -2) (body : String)
    (headers : Option (List (String × String))) (latencyMs : Time) :
    (deliveryResultOf (.response status body headers) latencyMs).respSnippet.inUnits utf8 =
      (body.toList.flatMap utf8).take 512 := by
  unfold deliveryResultOf statusOf
  dsimp only
  rw [if_neg hstatus.1, if_neg hstatus.2]
  exact slice_units 512 body

/-- An empty reason counts as none. -/
def refused (ssrf : Verdict) : DeliveryResult where
  status := .network
  outcome := .permanent
  latencyMs := 0
  respSnippet := ("ssrf_blocked:" ++
    (if ssrf.reason.getD "" = "" then "denied" else ssrf.reason.getD "") : String)
  retryAfterMs := none
  blockedBySsrf := true

/-! ## Processing a message -/

/-- Go reads the clock for the wake-up base even when the opening time is known. -/
def wakeAt (circuit : CircuitRecord) : Eng Time := do
  let now ← port .now
  let jitter ← fullJitter circuit.cooldownMs
  return circuit.openedAt.getD now + circuit.cooldownMs + jitter

theorem fullJitter_reads (baseMs : Time) : Reads (fullJitter baseMs) :=
  reads_next.bind fun _ => reads_pure _

theorem nextDelayMs_reads (cfg : RetryConfig) (attemptNo : Int) (retryAfterMs : Option Time) :
    Reads (nextDelayMs cfg attemptNo retryAfterMs) := by
  unfold nextDelayMs
  split
  · exact reads_pure _
  · cases retryAfterMs with
    | none => exact (fullJitter_reads _).bind fun _ => reads_pure _
    | some v =>
      dsimp only
      split
      · exact reads_pure _
      · exact (fullJitter_reads _).bind fun _ => reads_pure _

/-- Its times are exact, the wait of a throttled message too. -/
def dialect : Dialect where
  throttleWait := id
  wakeAt := wakeAt
  refused := refused
  resultOf := deliveryResultOf
  nextDelayMs := nextDelayMs
  wakeAt_reads := fun _ => reads_now.bind fun _ => (fullJitter_reads _).bind fun _ => reads_pure _
  refused_outcome := fun _ => rfl
  resultOf_outcome := deliveryResultOf_outcome
  nextDelayMs_reads := nextDelayMs_reads
  nextDelayMs_exhausted := fun _ _ _ h => if_pos h

def deliverOnce : Engine → Message → Endpoint → Eng DeliveryResult := deliverWith dialect

def processMessage : Engine → Message → Eng Unit := processWith dialect

/-- The wait that `ConsumeToken` returns is an int64. -/
def int64Dialect : Dialect := { dialect with throttleWait := fun wait => toInt64 wait }

end Anyhook.Go
