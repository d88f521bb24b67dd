import Anyhook.Go.Mirrors

/-! The delay before the next attempt. A receiver may name it in `Retry-After`, in whole
seconds and of any size; else it is jittered. The TypeScript engine caps the number it has
read. The Go engine first converts it to an `int64`, and a number that does not fit comes
out negative, for which it takes the header as absent. -/
namespace Anyhook.Delivery
open Anyhook.Core Anyhook.Testing Anyhook.Lib.Program
open Anyhook.Go (Inputs toInt64 toInt64_eq toInt64_jitter nextAttempt reschedule onRetryable_eq)

/-! ## The retry of a pass -/

def retry? : Op → Option (Message × Time)
  | .scheduleRetry m due => some (m, due)
  | _ => none

/-- The retries a pass hands to the scheduler. -/
def retriesOf (i : Inputs) (p : Eng Unit) : List (Message × Time) := (i.effects p).filterMap retry?

/-- The next attempt of `m`, `delay` after `now`. -/
def retryIn (m : Message) (now delay : Time) : Message × Time :=
  (nextAttempt m (now + delay), now + delay)

/-- A delivery to an allowed target: three readings of the clock and a POST. -/
theorem run_deliverWith {i : Inputs} (hallowed : i.verdict.allowed = true) (d : Dialect)
    (en : Engine) (m : Message) (endpoint : Endpoint) (s : Go.Pass) :
    ∃ (latencyMs : Time) (post : Op), retry? post = none ∧
      (deliverWith d en m endpoint).run i.exec s =
        (.ok (d.resultOf i.result latencyMs), ⟨s.readings + 3, s.effects ++ [post]⟩) := by
  refine ⟨max 0 (i.clock (s.readings + 2) - i.clock (s.readings + 1)),
    .post endpoint.url m.payload (("content-type", "application/json") ::
      en.sign endpoint.secrets m.messageId m.payload (i.clock s.readings)) en.timeoutMs, rfl, ?_⟩
  unfold deliverWith
  rw [Prog.perform_bind, Prog.run_call_ok (r := i.verdict) rfl, if_pos hallowed]
  rfl

/-- An attempt at an allowed target reads the clock five times before it sets the retry. -/
theorem retriesOf_attemptDelivery {i : Inputs} (hallowed : i.verdict.allowed = true)
    (hretryable : outcomeOf i.result = .retryable) {d : Dialect} {en : Engine} {m : Message}
    {delay : Time}
    (hdelay : ∀ latencyMs s,
      (d.nextDelayMs en.retry m.attemptNo (d.resultOf i.result latencyMs).retryAfterMs).run i.exec s =
        (.ok (some delay), s))
    (endpoint : Endpoint) (circuit : CircuitRecord) :
    retriesOf i (attemptDelivery d en m endpoint circuit) = [retryIn m (i.clock 5) delay] := by
  unfold retriesOf Inputs.effects attemptDelivery
  rw [Prog.perform_bind, Prog.run_call_ok (r := ()) rfl, Prog.run_bind]
  obtain ⟨latencyMs, post, hpost, hdeliver⟩ := run_deliverWith hallowed d en m endpoint
    (Go.Pass.start.after (.putMessage { m with status := .delivering }))
  rw [hdeliver]
  dsimp only
  rw [Prog.perform_bind, Prog.run_call_ok (r := i.clock 3) rfl, d.resultOf_outcome, hretryable]
  dsimp only
  rw [onRetryable_eq, Prog.perform_bind, Prog.run_call_ok (r := i.clock 4) rfl, Prog.perform_bind,
    Prog.run_call_ok (r := ()) rfl, Prog.run_bind, hdelay]
  show [_, post, _, _, _, _, _].filterMap retry? = _
  rw [List.filterMap_cons_none rfl, List.filterMap_cons_none hpost]
  rfl

/-! ## The header -/

/-- The `Retry-After` text of a response that may carry one. -/
def retryAfterText? : HttpResult → Option String
  | .response status _ headers =>
    if status = 429 ∨ status = 503 then headers.bind fun hs => hs.lookup "retry-after" else none
  | _ => none

theorem ofDigitChars_lt {ds : List Char} (h : ∀ c ∈ ds, c.isDigit = true) :
    Nat.ofDigitChars 10 ds 0 < 10 ^ ds.length := by
  induction ds with
  | nil => decide
  | cons c cs ih =>
    have hcs := ih fun d hd => h d (List.mem_cons_of_mem _ hd)
    have hc : c.toNat ≤ 57 := by
      have hdigit := h c List.mem_cons_self
      simp only [Char.isDigit, Bool.and_eq_true, decide_eq_true_eq] at hdigit
      exact hdigit.2
    have hdigit : c.toNat - '0'.toNat ≤ 9 := by
      show c.toNat - 48 ≤ 9
      omega
    rw [Nat.ofDigitChars_cons, Nat.ofDigitChars_eq_ofDigitChars_zero, Nat.mul_zero, Nat.zero_add,
      List.length_cons, pow_succ]
    have hmul := Nat.mul_le_mul_left (10 ^ cs.length) hdigit
    omega

/-- Three hundred digits fit a double. -/
theorem finite_digits {ds : List Char} (h : ∀ c ∈ ds, c.isDigit = true) (hlen : ds.length ≤ 300) :
    finite (Nat.ofDigitChars 10 ds 0 : ℚ) = some (Nat.ofDigitChars 10 ds 0 : ℚ) := by
  have hlt : (Nat.ofDigitChars 10 ds 0 : ℚ) < 10 ^ ds.length := by
    exact_mod_cast ofDigitChars_lt h
  have hlen : (10 : ℚ) ^ ds.length ≤ 10 ^ 300 := pow_le_pow_right₀ (by norm_num) hlen
  have hmax : (10 : ℚ) ^ 300 ≤ 2 ^ 1024 - 2 ^ 970 := by decide +kernel
  refine if_pos ?_
  rw [abs_of_nonneg (Nat.cast_nonneg _)]
  exact hlt.trans_le (hlen.trans hmax)

/-- A number of seconds in milliseconds, as the engine holds it. -/
def hintMs : Lang → Nat → Time
  | .ts, n => n * 1000
  | .go, n => toInt64 (n * 1000)

theorem hintMs_fits {lang : Lang} {n : Nat} (h : lang = .go → 1000 * n < 2 ^ 63) :
    hintMs lang n = 1000 * n := by
  cases lang with
  | ts => exact mul_comm _ _
  | go =>
    have hfits := h rfl
    have hcast : ((n : ℚ) * 1000) = ((1000 * n : Nat) : Int) := by
      push_cast
      exact mul_comm _ _
    show ((toInt64 ((n : ℚ) * 1000) : Int) : ℚ) = 1000 * n
    rw [hcast, toInt64_eq, roundToZero_intCast]
    · push_cast
      rfl
    · rw [Int.cast_natCast, abs_of_nonneg (Nat.cast_nonneg _)]
      exact_mod_cast hfits

theorem hintMs_overflow {n : Nat} (h : 2 ^ 63 ≤ 1000 * n) : hintMs .go n < 0 := by
  have hcast : ((n : ℚ) * 1000) = ((1000 * n : Nat) : Int) := by
    push_cast
    exact mul_comm _ _
  show ((toInt64 ((n : ℚ) * 1000) : Int) : ℚ) < 0
  rw [hcast]
  unfold toInt64
  rw [roundToZero_intCast, if_neg (by omega)]
  norm_num

def parseHint : Lang → Option (List (String × String)) → Option Time
  | .ts => Core.parseRetryAfterMs
  | .go => Go.parseRetryAfterMs

/-- Go's marks for timeout and network are no busy statuses. -/
theorem retryAfterMs_response (lang : Lang) (status : Int) (body : String)
    (headers : Option (List (String × String))) (latencyMs : Time) :
    (lang.dialect.resultOf (.response status body headers) latencyMs).retryAfterMs =
      if status = 429 ∨ status = 503 then parseHint lang headers else none := by
  cases lang with
  | ts => rfl
  | go =>
    show (Go.deliveryResultOf (.response status body headers) latencyMs).retryAfterMs = _
    unfold Go.deliveryResultOf Go.statusOf
    by_cases htimeout : status = -1
    · subst htimeout
      rfl
    · by_cases hnetwork : status = -2
      · subst hnetwork
        rfl
      · simp only [if_neg htimeout, if_neg hnetwork, parseHint]

theorem parseHint_digits {headers : Option (List (String × String))} {ds : List Char}
    (htext : (headers.bind fun hs => hs.lookup "retry-after") = some (String.ofList ds))
    (hne : ds ≠ []) (hdigits : ∀ c ∈ ds, c.isDigit = true) (hlen : ds.length ≤ 300) (lang : Lang) :
    parseHint lang headers = some (hintMs lang (Nat.ofDigitChars 10 ds 0)) := by
  have htrim : Go.trimSpace ds = ds := by
    have hspace : ∀ c ∈ Go.decimalChars, Go.isSpace c = false :=
      List.all_iff_forall_prop.mp (by decide +kernel)
    exact trim_eq_self fun c hc => hspace c (Go.mem_decimalChars_of_isDigit (hdigits c hc))
  have hpos : ¬ (Nat.ofDigitChars 10 ds 0 : ℚ) < 0 := not_lt.mpr (Nat.cast_nonneg _)
  have hempty : String.ofList ds ≠ "" := fun he => hne (String.ofList_eq_empty_iff.mp he)
  cases lang with
  | ts =>
    show Core.parseRetryAfterMs headers = _
    unfold Core.parseRetryAfterMs
    simp only [htext, if_neg hempty, jsNumber_digits hne hdigits, finite_digits hdigits hlen,
      if_neg hpos, hintMs]
  | go =>
    show Go.parseRetryAfterMs headers = _
    unfold Go.parseRetryAfterMs
    simp only [htext, if_neg hempty, String.toList_ofList, htrim, Go.parseFloat_digits hne hdigits,
      finite_digits hdigits hlen, if_neg hpos, hintMs]

/-- What an engine reads of a `Retry-After` in digits. -/
theorem retryAfterMs_digits {res : HttpResult} {ds : List Char}
    (htext : retryAfterText? res = some (String.ofList ds)) (hne : ds ≠ [])
    (hdigits : ∀ c ∈ ds, c.isDigit = true) (hlen : ds.length ≤ 300) (lang : Lang)
    (latencyMs : Time) :
    (lang.dialect.resultOf res latencyMs).retryAfterMs =
      some (hintMs lang (Nat.ofDigitChars 10 ds 0)) := by
  cases res with
  | timeout => cases htext
  | network => cases htext
  | response status body headers =>
    rw [retryAfterMs_response]
    unfold retryAfterText? at htext
    dsimp only at htext
    split at htext
    · rw [if_pos ‹_›]
      exact parseHint_digits htext hne hdigits hlen lang
    · cases htext

theorem retryAfterMs_absent {res : HttpResult} (htext : retryAfterText? res = none) (lang : Lang)
    (latencyMs : Time) : (lang.dialect.resultOf res latencyMs).retryAfterMs = none := by
  cases res with
  | timeout => cases lang <;> rfl
  | network => cases lang <;> rfl
  | response status body headers =>
    rw [retryAfterMs_response]
    unfold retryAfterText? at htext
    dsimp only at htext
    split at htext
    · rw [if_pos ‹_›]
      cases lang with
      | ts =>
        show Core.parseRetryAfterMs headers = none
        unfold Core.parseRetryAfterMs
        rw [htext]
      | go =>
        show Go.parseRetryAfterMs headers = none
        unfold Go.parseRetryAfterMs
        rw [htext]
    · rw [if_neg ‹_›]

/-! ## The delay -/

/-- A jittered delay, as the engine cuts it. -/
def jittered : Lang → Time → ℚ → Time
  | .ts, base, draw => base * draw
  | .go, base, draw => toInt64 (base * draw)

theorem jittered_mem {lang : Lang} {base : Time} (hbase : 0 ≤ base)
    (hfits : lang = .go → base < 2 ^ 63) {draw : ℚ} (hdraw : 0 ≤ draw ∧ draw < 1) :
    0 ≤ jittered lang base draw ∧ jittered lang base draw ≤ base := by
  have hpos : 0 ≤ base * draw := mul_nonneg hbase hdraw.1
  have hle : base * draw ≤ base := mul_le_of_le_one_right hbase hdraw.2.le
  cases lang with
  | ts => exact ⟨hpos, hle⟩
  | go =>
    have hround : toInt64 (base * draw) = ⌊base * draw⌋ := by
      rw [toInt64_jitter hdraw (by rw [abs_of_nonneg hbase]; exact hfits rfl)]
      exact if_pos hpos
    show (0 : ℚ) ≤ (toInt64 (base * draw) : Int) ∧ ((toInt64 (base * draw) : Int) : ℚ) ≤ base
    rw [hround]
    exact ⟨by exact_mod_cast Int.floor_nonneg.mpr hpos, (Int.floor_le _).trans hle⟩

section Delays
variable {cfg : RetryConfig} {attemptNo : Int} (hno : 0 ≤ attemptNo)
  (hlen : attemptNo < cfg.scheduleMs.length)

include hno hlen in
theorem run_nextDelayMs_hint (lang : Lang) {v : Time} (hv : 0 ≤ v) (i : Inputs) (s : Go.Pass) :
    (lang.dialect.nextDelayMs cfg attemptNo (some v)).run i.exec s =
      (.ok (some (min v retryAfterCapMs)), s) := by
  have hin : ¬ (attemptNo < 0 ∨ attemptNo ≥ cfg.scheduleMs.length) := by omega
  cases lang with
  | ts =>
    show (Core.nextDelayMs cfg attemptNo (some v)).run i.exec s = _
    unfold Core.nextDelayMs
    rw [if_neg hin]
    dsimp only
    rw [if_pos hv]
    rfl
  | go =>
    show (Go.nextDelayMs cfg attemptNo (some v)).run i.exec s = _
    unfold Go.nextDelayMs
    rw [if_neg hin]
    dsimp only
    rw [if_pos hv, ← Go.min_cap]
    rfl

include hno hlen in
theorem run_nextDelayMs_jittered (lang : Lang) {hint : Option Time} (hhint : ∀ v ∈ hint, v < 0)
    (i : Inputs) (s : Go.Pass) :
    (lang.dialect.nextDelayMs cfg attemptNo hint).run i.exec s =
      (.ok (some (jittered lang (cfg.scheduleMs.getD attemptNo.toNat 0) i.draw)), s) := by
  have hin : ¬ (attemptNo < 0 ∨ attemptNo ≥ cfg.scheduleMs.length) := by omega
  have hjitter : lang.dialect.nextDelayMs cfg attemptNo hint = (do
      let draw ← port .next
      return some (jittered lang (cfg.scheduleMs.getD attemptNo.toNat 0) draw)) := by
    cases lang with
    | ts =>
      show Core.nextDelayMs cfg attemptNo hint = _
      unfold Core.nextDelayMs
      rw [if_neg hin]
      cases hint with
      | none => rfl
      | some v =>
        dsimp only
        rw [if_neg (not_le.mpr (hhint v rfl))]
        rfl
    | go =>
      show Go.nextDelayMs cfg attemptNo hint = _
      unfold Go.nextDelayMs
      rw [if_neg hin]
      cases hint with
      | none => rfl
      | some v =>
        dsimp only
        rw [if_neg (not_le.mpr (hhint v rfl))]
        rfl
  rw [hjitter]
  rfl

end Delays

/-! ## Every size -/

/-- An attempt at an allowed target, answered by `res`, sets one retry, and its delay is among
`delays`, whatever the draw and the clock. -/
def Delays (lang : Lang) (en : Engine) (m : Message) (res : HttpResult) (delays : Set Time) : Prop :=
  ∀ (i : Inputs) (endpoint : Endpoint) (circuit : CircuitRecord), i.result = res →
    i.verdict.allowed = true → 0 ≤ i.draw ∧ i.draw < 1 →
    ∃ delay ∈ delays, retriesOf i (attemptDelivery lang.dialect en m endpoint circuit) =
      [retryIn m (i.clock 5) delay]

/-- An allowed target that answers `res`, and a draw of zero. -/
def lowestDraw (res : HttpResult) : Inputs where
  endpoint := none
  circuit := initialCircuit 0
  bucket := none
  verdict := { allowed := true, reason := none }
  result := res
  draw := 0
  clock := fun _ => 0

theorem retryIn_inj {m : Message} {now delay delay' : Time}
    (h : retryIn m now delay = retryIn m now delay') : delay = delay' :=
  add_left_cancel (congrArg Prod.snd h)

/-- With the lowest draw the delay is the one the engine computes from it. -/
theorem Delays.of_lowestDraw {lang : Lang} {en : Engine} {m : Message} {res : HttpResult}
    {delays : Set Time} (h : Delays lang en m res delays)
    (hretryable : outcomeOf res = .retryable) {delay : Time}
    (hdelay : ∀ latencyMs s, (lang.dialect.nextDelayMs en.retry m.attemptNo
      (lang.dialect.resultOf res latencyMs).retryAfterMs).run (lowestDraw res).exec s =
        (.ok (some delay), s)) : delay ∈ delays := by
  have hscheduled := retriesOf_attemptDelivery (i := lowestDraw res) rfl hretryable hdelay
    (anyEvent.endpoint "ep_1" "whsec_1" 0) (initialCircuit 0)
  obtain ⟨delay', hmem, hdelay'⟩ := h (lowestDraw res) (anyEvent.endpoint "ep_1" "whsec_1" 0)
    (initialCircuit 0) rfl rfl ⟨le_refl 0, zero_lt_one⟩
  rw [hdelay', List.cons.injEq] at hscheduled
  exact retryIn_inj hscheduled.1 ▸ hmem

section Sizes
variable {lang : Lang} {en : Engine} {m : Message} (hno : 0 ≤ m.attemptNo)
  (hlen : m.attemptNo < en.retry.scheduleMs.length)

/-- A header in digits comes with a status that is retried. -/
theorem outcomeOf_busy {res : HttpResult} {raw : String} (h : retryAfterText? res = some raw) :
    outcomeOf res = .retryable := by
  cases res with
  | timeout => rfl
  | network => rfl
  | response status body headers =>
    unfold retryAfterText? at h
    dsimp only at h
    split at h
    · rename_i hstatus
      rcases hstatus with rfl | rfl <;> rfl
    · cases h

include hno hlen in
theorem delays_hint_iff {res : HttpResult} {ds : List Char}
    (htext : retryAfterText? res = some (String.ofList ds)) (hne : ds ≠ [])
    (hdigits : ∀ c ∈ ds, c.isDigit = true) (hsize : ds.length ≤ 300) :
    Delays lang en m res {min (1000 * (Nat.ofDigitChars 10 ds 0 : Time)) retryAfterCapMs} ↔
      (lang = .go → 1000 * Nat.ofDigitChars 10 ds 0 < 2 ^ 63) := by
  have hread := retryAfterMs_digits htext hne hdigits hsize lang
  constructor
  · intro h hgo
    by_contra hover
    subst hgo
    have hneg := hintMs_overflow (not_lt.mp hover)
    -- the lowest draw makes a delay of zero
    have hzero := h.of_lowestDraw (outcomeOf_busy htext) fun latencyMs s => by
      rw [hread latencyMs]
      exact run_nextDelayMs_jittered hno hlen .go (fun v hv => Option.some.inj hv ▸ hneg) _ s
    have hpos : 0 < min (1000 * (Nat.ofDigitChars 10 ds 0 : Time)) retryAfterCapMs := by
      refine lt_min ?_ (by decide +kernel)
      exact_mod_cast (by omega : 0 < 1000 * Nat.ofDigitChars 10 ds 0)
    have hjitter : jittered .go (en.retry.scheduleMs.getD m.attemptNo.toNat 0) 0 = 0 := by
      show ((toInt64 (_ * 0) : Int) : ℚ) = 0
      rw [mul_zero]
      decide +kernel
    rw [show (lowestDraw res).draw = 0 from rfl, hjitter, Set.mem_singleton_iff] at hzero
    exact absurd hzero hpos.ne
  · intro hfits i endpoint circuit hres hallowed _
    refine ⟨_, rfl, ?_⟩
    refine retriesOf_attemptDelivery hallowed (by rw [hres, outcomeOf_busy htext]) ?_ endpoint circuit
    intro latencyMs s
    rw [hres, hread latencyMs, hintMs_fits hfits]
    exact run_nextDelayMs_hint hno hlen lang (by positivity) i s

include hno hlen in
theorem delays_jitter_iff (hint64 : lang = .go → ∀ base ∈ en.retry.scheduleMs, base < 2 ^ 63)
    {res : HttpResult} (hretryable : outcomeOf res = .retryable)
    (htext : retryAfterText? res = none) :
    Delays lang en m res (Set.Icc 0 (en.retry.scheduleMs.getD m.attemptNo.toNat 0)) ↔
      0 ≤ en.retry.scheduleMs.getD m.attemptNo.toNat 0 := by
  have hread := retryAfterMs_absent htext lang
  have hdelay : ∀ (i : Inputs) latencyMs s, (lang.dialect.nextDelayMs en.retry m.attemptNo
      (lang.dialect.resultOf res latencyMs).retryAfterMs).run i.exec s =
        (.ok (some (jittered lang (en.retry.scheduleMs.getD m.attemptNo.toNat 0) i.draw)), s) := by
    intro i latencyMs s
    rw [hread latencyMs]
    exact run_nextDelayMs_jittered hno hlen lang (fun v hv => by cases hv) i s
  have hbase : lang = .go → en.retry.scheduleMs.getD m.attemptNo.toNat 0 < 2 ^ 63 := by
    intro hgo
    have hlt : m.attemptNo.toNat < en.retry.scheduleMs.length := by omega
    rw [List.getD_eq_getElem?_getD, List.getElem?_eq_getElem hlt, Option.getD_some]
    exact hint64 hgo _ (List.getElem_mem hlt)
  constructor
  · intro h
    have hmem := h.of_lowestDraw hretryable (hdelay _)
    exact hmem.1.trans hmem.2
  · intro hnonneg i endpoint circuit hres hallowed hdraw
    refine ⟨_, jittered_mem hnonneg hbase hdraw, ?_⟩
    exact retriesOf_attemptDelivery hallowed (hres ▸ hretryable) (hres ▸ hdelay i) endpoint circuit

end Sizes

/-- **A `Retry-After` of any size is honoured and capped** by the TypeScript engine, and by the
Go engine where the milliseconds fit an `int64`; without one the delay is within the step of
the schedule, where that step is one. -/
theorem retryAfter_honoured_iff (lang : Lang) (en : Engine) (m : Message) (hno : 0 ≤ m.attemptNo)
    (hlen : m.attemptNo < en.retry.scheduleMs.length)
    (hint64 : lang = .go → ∀ base ∈ en.retry.scheduleMs, base < 2 ^ 63) :
    (∀ (res : HttpResult) (ds : List Char), retryAfterText? res = some (String.ofList ds) →
      ds ≠ [] → (∀ c ∈ ds, c.isDigit = true) → ds.length ≤ 300 →
      (Delays lang en m res {min (1000 * (Nat.ofDigitChars 10 ds 0 : Time)) 21600000} ↔
        (lang = .go → 1000 * Nat.ofDigitChars 10 ds 0 < 2 ^ 63))) ∧
    (∀ res : HttpResult, outcomeOf res = .retryable → retryAfterText? res = none →
      (Delays lang en m res (Set.Icc 0 (en.retry.scheduleMs.getD m.attemptNo.toNat 0)) ↔
        0 ≤ en.retry.scheduleMs.getD m.attemptNo.toNat 0)) := by
  refine ⟨?_, ?_⟩
  · intro res ds htext hne hdigits hsize
    exact delays_hint_iff hno hlen htext hne hdigits hsize
  · intro res hretryable htext
    exact delays_jitter_iff hno hlen hint64 hretryable htext

/-- A busy receiver that names a number of seconds. -/
def busyFor (seconds : String) : HttpResult := .response 503 "busy" (some [("retry-after", seconds)])

/-- Two minutes, in Go. -/
theorem two_minutes_honoured :
    Delays .go (plainEngine 5) (messageFor "msg_1") (busyFor "120") {120000} ∧
      Delays .go (plainEngine 5) (messageFor "msg_1") .timeout (Set.Icc 0 1000) := by
  obtain ⟨hhint, hjitter⟩ := retryAfter_honoured_iff .go (plainEngine 5) (messageFor "msg_1")
    (by decide) (by decide) (fun _ base hbase => by
      rw [List.mem_singleton.mp hbase]
      norm_num)
  have htwo := (hhint (busyFor "120") ['1', '2', '0'] rfl (by decide)
    (List.all_eq_true.mp (by decide)) (by decide)).mpr (fun _ => by decide)
  have hmin : min (1000 * ((Nat.ofDigitChars 10 ['1', '2', '0'] 0 : Nat) : Time)) 21600000 =
      120000 := by decide +kernel
  rw [hmin] at htwo
  exact ⟨htwo, (hjitter .timeout rfl rfl).mpr (by decide +kernel)⟩

/-- A number of seconds whose milliseconds do not fit: the Go engine retries at once when the
draw is low. -/
theorem overlong_not_honoured :
    ¬ Delays .go (plainEngine 5) (messageFor "msg_1") (busyFor "9223372036854776")
      {min (1000 * (9223372036854776 : Time)) 21600000} := by
  intro h
  obtain ⟨delay, hmem, hscheduled⟩ := h (lowestDraw (busyFor "9223372036854776"))
    (anyEvent.endpoint "ep_1" "whsec_1" 0) (initialCircuit 0) rfl rfl ⟨by decide +kernel,
      by decide +kernel⟩
  have hdue : (retriesOf (lowestDraw (busyFor "9223372036854776")) (attemptDelivery Lang.go.dialect
      (plainEngine 5) (messageFor "msg_1") (anyEvent.endpoint "ep_1" "whsec_1" 0)
      (initialCircuit 0))).map Prod.snd = [0] := by decide +kernel
  rw [hscheduled, Set.mem_singleton_iff.mp hmem] at hdue
  exact absurd hdue (by decide +kernel)

end Anyhook.Delivery
