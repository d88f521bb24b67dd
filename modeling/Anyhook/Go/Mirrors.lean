import Anyhook.Go.Numbers
import Anyhook.Testing.Pool

/-! The Go engine mirrors the TypeScript one. One pass over a message, with the same records,
answers, draw and clock readings, has the same effects in both: the same store writes,
scheduler calls and POSTs in the same order with the same arguments, but for a jittered
delay, which Go cuts to whole milliseconds. -/
namespace Anyhook.Go
open Anyhook.Core Anyhook.Lib.Program Anyhook.Lib.CodeUnits

/-! ## A pass -/

/-- What a pass over a message finds: the records, the verdict of the policy, the answer of the
receiver, the draw, and the readings of the clock, one after the other. -/
structure Inputs where
  endpoint : Option Endpoint
  circuit : CircuitRecord
  bucket : Option RateBucket
  verdict : Verdict
  result : HttpResult
  draw : ℚ
  clock : Nat → Time

/-- How far a pass has come: how often it read the clock, and what it did. -/
structure Pass where
  readings : Nat
  effects : List Op

def Pass.start : Pass where
  readings := 0
  effects := []

/-- The store's reads, the policy, the clock and the draw leave no trace. -/
def isEffect : Op → Bool
  | .getEndpoint .. | .matchEndpoints .. | .getCircuit .. | .getRateBucket .. | .check _ | .now
  | .next => false
  | _ => true

/-- A pass accepts no event and matches no endpoints. -/
def Inputs.answer (i : Inputs) (readings : Nat) : (op : Op) → Res op
  | .getEndpoint .. => i.endpoint
  | .getCircuit .. => i.circuit
  | .getRateBucket .. => i.bucket
  | .check _ => i.verdict
  | .post .. => i.result
  | .now => i.clock readings
  | .next => i.draw
  | .recordEvent _ eventId _ => { isNew := true, eventId, messageCount := 0 }
  | .matchEndpoints .. => []
  | .finalizeEvent .. | .putMessage _ | .appendAttempt _ | .putCircuit .. | .putRateBucket ..
  | .addToDlq .. | .transportSend _ | .scheduleRetry .. | .recordAttempt _ => ()

def Pass.after (s : Pass) (op : Op) : Pass where
  readings := match op with
    | .now => s.readings + 1
    | _ => s.readings
  effects := if isEffect op then s.effects ++ [op] else s.effects

def Inputs.exec (i : Inputs) (op : Op) (s : Pass) : Except String (Res op) × Pass :=
  (.ok (i.answer s.readings op), s.after op)

/-- The effects of a pass, in order. -/
def Inputs.effects (i : Inputs) (p : Eng Unit) : List Op := (p.run i.exec .start).2.effects

/-! ## Effects up to a jittered delay -/

/-- A time, or one after a jittered delay and the same after the delay cut toward zero. -/
inductive Cut (delays : List Time) : Time → Time → Prop
  | same (t : Time) : Cut delays t t
  | jittered (base : Time) {d : Time} (h : d ∈ delays) : Cut delays (base + d) (base + roundToZero d)

/-- An effect of the TypeScript engine and that of the Go engine. -/
inductive OpAlike (delays : List Time) : Op → Op → Prop
  | same (op : Op) : OpAlike delays op op
  | park (m : Message) {t t' : Time} (h : Cut delays t t') :
    OpAlike delays (.scheduleRetry m t) (.scheduleRetry m t')
  | put (m : Message) {t t' : Time} (h : Cut delays t t') :
    OpAlike delays (.putMessage { m with nextAttemptAt := some t })
      (.putMessage { m with nextAttemptAt := some t' })
  | retry (m : Message) {t t' : Time} (h : Cut delays t t') :
    OpAlike delays (.scheduleRetry { m with nextAttemptAt := some t } t)
      (.scheduleRetry { m with nextAttemptAt := some t' } t')

/-- The delays a pass may jitter: the cooldown of a parked message and the scheduled step. -/
def delaysOf (en : Engine) (m : Message) (i : Inputs) : List Time :=
  [en.circuitCfg.cooldownMs * i.draw, en.retry.scheduleMs.getD m.attemptNo.toNat 0 * i.draw]

/-- Two passes with alike effects. -/
def Pass.Alike (delays : List Time) (s t : Pass) : Prop :=
  List.Forall₂ (OpAlike delays) s.effects t.effects

/-- Two passes with alike effects that have read the clock as often. -/
def Pass.InStep (delays : List Time) (s t : Pass) : Prop :=
  s.readings = t.readings ∧ s.Alike delays t

theorem Pass.InStep.alike {delays : List Time} {s t : Pass} (h : s.InStep delays t) :
    s.Alike delays t := h.2

theorem Pass.Alike.after {delays : List Time} {s t : Pass} (h : s.Alike delays t) {op op' : Op}
    (heffect : isEffect op = isEffect op') (hop : OpAlike delays op op') :
    (s.after op).Alike delays (t.after op') := by
  unfold Pass.Alike Pass.after
  rw [← heffect]
  dsimp only
  split
  · exact List.rel_append h (.cons hop .nil)
  · exact h

theorem Pass.InStep.after {delays : List Time} {s t : Pass} (h : s.InStep delays t) (op : Op) :
    (s.after op).InStep delays (t.after op) := by
  refine ⟨?_, h.2.after rfl (.same op)⟩
  unfold Pass.after
  rw [h.1]

theorem exec_inStep (i : Inputs) {delays : List Time} (op : Op) (s t : Pass)
    (h : s.InStep delays t) :
    (i.exec op s).1 = (i.exec op t).1 ∧ (i.exec op s).2.InStep delays (i.exec op t).2 := by
  refine ⟨?_, h.after op⟩
  unfold Inputs.exec
  rw [h.1]

/-! ## Reading the answers -/

/-- A decimal integer below 10^12: digits with perhaps a sign. -/
def IsDecimalInteger (raw : String) : Prop :=
  ∃ sign ds : List Char, raw.toList = sign ++ ds ∧ ds ≠ [] ∧ (∀ c ∈ ds, c.isDigit = true) ∧
    (sign = ['-'] ∨ (sign = [] ∨ sign = ['+']) ∧ Nat.ofDigitChars 10 ds 0 < 10 ^ 12)

/-- A result as receivers give it: an ASCII body, no `Retry-After` or a decimal integer, and a
status that is not one of Go's marks for timeout and network. -/
def Ordinary : HttpResult → Prop
  | .response status body headers => status ≠ -1 ∧ status ≠ -2 ∧
    (∀ c ∈ body.toList, c.toNat < 128) ∧
    ∀ raw, (headers.bind fun hs => hs.lookup "retry-after") = some raw → IsDecimalInteger raw
  | _ => True

/-- Both languages read a decimal integer, if at all, as the number it is. -/
theorem reads_integer {raw : String} (h : IsDecimalInteger raw) :
    ∃ z : Int, z < 10 ^ 12 ∧ jsNumber raw = finite z ∧
      parseFloat (trimSpace raw.toList) = finite z := by
  obtain ⟨sign, ds, hraw, hne, hdigits, hsign⟩ := h
  have hchars : ∀ c ∈ raw.toList, c ∈ decimalChars := by
    intro c hc
    rw [hraw] at hc
    rcases List.mem_append.mp hc with hc | hc
    · rcases hsign with rfl | ⟨rfl | rfl, -⟩
      · exact List.mem_singleton.mp hc ▸ by decide +kernel
      · cases hc
      · exact List.mem_singleton.mp hc ▸ by decide +kernel
    · exact mem_decimalChars_of_isDigit (hdigits c hc)
  have htrim : trimSpace raw.toList = raw.toList := by
    have hall : ∀ c ∈ decimalChars, isSpace c = false :=
      List.all_iff_forall_prop.mp (by decide +kernel)
    exact trim_eq_self fun c hc => hall c (hchars c hc)
  have hjsTrim : jsTrim raw.toList = raw.toList :=
    jsTrim_eq_self fun c hc => not_space_of_decimalChars (hchars c hc)
  have hdecimal := decimalOf_digits hne hdigits
  rw [htrim]
  rcases hsign with rfl | ⟨rfl | rfl, hn⟩
  · refine ⟨-(Nat.ofDigitChars 10 ds 0 : Int), by omega, ?_, ?_⟩
    · unfold jsNumber
      rw [hjsTrim, hraw]
      simp [hdecimal]
    · rw [hraw]
      show parseFloat ('-' :: ds) = _
      rw [parseFloat_minus, floatBody_of_decimalOf hdecimal]
      simp
  · refine ⟨(Nat.ofDigitChars 10 ds 0 : Int), by omega, ?_, ?_⟩
    · rw [← String.ofList_toList (s := raw), hraw, List.nil_append, jsNumber_digits hne hdigits]
      simp
    · rw [hraw, List.nil_append, parseFloat_digits hne hdigits]
      simp
  · refine ⟨(Nat.ofDigitChars 10 ds 0 : Int), by omega, ?_, ?_⟩
    · unfold jsNumber
      rw [hjsTrim, hraw]
      simp [hdecimal]
    · rw [hraw]
      show parseFloat ('+' :: ds) = _
      rw [parseFloat_plus, floatBody_of_decimalOf hdecimal]
      simp

theorem parseRetryAfterMs_eq {headers : Option (List (String × String))}
    (h : ∀ raw, (headers.bind fun hs => hs.lookup "retry-after") = some raw →
      IsDecimalInteger raw) :
    Go.parseRetryAfterMs headers = Core.parseRetryAfterMs headers := by
  unfold Go.parseRetryAfterMs Core.parseRetryAfterMs
  cases hraw : headers.bind fun hs => hs.lookup "retry-after" with
  | none => rfl
  | some raw =>
    obtain ⟨z, hz, hjs, hgo⟩ := reads_integer (h raw hraw)
    dsimp only
    rw [hjs, hgo]
    cases hfinite : finite (z : ℚ) with
    | none => rfl
    | some secs =>
      have hsecs : secs = z := by
        unfold finite at hfinite
        split at hfinite
        · exact (Option.some.inj hfinite).symm
        · cases hfinite
      subst hsecs
      dsimp only
      split
      · rfl
      · split
        · rfl
        · rename_i hneg
          have hmul : ((z : ℚ) * 1000) = ((z * 1000 : Int) : ℚ) := by push_cast; rfl
          have hpos : 0 ≤ z := by exact_mod_cast not_lt.mp hneg
          rw [hmul, toInt64_eq, roundToZero_intCast]
          rw [← Int.cast_abs, abs_of_nonneg (by omega)]
          exact_mod_cast (by omega : z * 1000 < 2 ^ 63)

/-- Of an ASCII body both languages cut off the same. -/
theorem slice_ascii {body : String} (h : ∀ c ∈ body.toList, c.toNat < 128) (n : Nat) :
    slice utf8 n body = slice utf16 n body := by
  rw [slice_single fun c hc => utf8_ascii (h c hc), slice_single fun c hc => utf16_ascii (h c hc)]

/-- Of an ordinary result both engines make the same. -/
theorem deliveryResultOf_eq {res : HttpResult} (h : Ordinary res) (latencyMs : Time) :
    Go.deliveryResultOf res latencyMs = Core.deliveryResultOf res latencyMs := by
  cases res with
  | timeout => rfl
  | network => rfl
  | response status body headers =>
    obtain ⟨htimeout, hnetwork, hascii, hretry⟩ := h
    unfold Go.deliveryResultOf statusOf Core.deliveryResultOf
    simp only [if_neg htimeout, if_neg hnetwork, slice_ascii hascii, parseRetryAfterMs_eq hretry]

/-- An empty reason is the one Go takes for none. -/
theorem refused_eq {ssrf : Verdict} (h : ssrf.reason ≠ some "") :
    Go.refused ssrf = Core.refused ssrf := by
  unfold Go.refused Core.refused
  cases hreason : ssrf.reason with
  | none => rfl
  | some reason =>
    have hne : reason ≠ "" := fun he => h (he ▸ hreason)
    simp [hne]

/-! ## Side by side -/

section Alongside
variable {i : Inputs} {delays : List Time} {s t : Pass} {α : Type} {Q : Pass → Pass → Prop}

/-- Both engines make one call, and get one answer. -/
theorem alongside_port {op : Op} {k k' : Res op → Eng α} (h : s.InStep delays t)
    (hk : ∀ s' t', s'.InStep delays t' → Alongside i.exec Q (k (i.answer s.readings op))
      (k' (i.answer s.readings op)) s' t') :
    Alongside i.exec Q (.call op k) (.call op k') s t := by
  have ht : i.exec op t = (.ok (i.answer s.readings op), t.after op) := by
    unfold Inputs.exec
    rw [h.1]
  exact alongside_call rfl ht (hk _ _ (h.after op))

/-- The last effect of a pass. -/
theorem alongside_last {op op' : Op} {k : Res op → Eng α} {k' : Res op' → Eng α} {a : α}
    (h : s.Alike delays t) (heffect : isEffect op = isEffect op') (hop : OpAlike delays op op')
    (hk : ∀ r, k r = pure a) (hk' : ∀ r, k' r = pure a) :
    Alongside i.exec (Pass.Alike delays) (.call op k) (.call op' k') s t := by
  refine alongside_call rfl rfl ?_
  rw [hk, hk']
  exact alongside_pure a (h.after heffect hop)

/-- What both engines do alike, they do in step. -/
theorem alongside_same (p : Eng α) (h : s.InStep delays t) :
    Alongside i.exec (Pass.InStep delays) p p s t :=
  alongside_self (exec_inStep i) p h

theorem alongside_same_end (p : Eng α) (h : s.InStep delays t) :
    Alongside i.exec (Pass.Alike delays) p p s t :=
  ⟨(alongside_same p h).1, (alongside_same p h).2.alike⟩

end Alongside

section Engines
variable {en : Engine} {m : Message} {i : Inputs} {s t : Pass}
  (hdraw : 0 ≤ i.draw ∧ i.draw < 1)
  (hfits : ∀ base ∈ en.circuitCfg.cooldownMs :: en.retry.scheduleMs, |base| < 2 ^ 63)

theorem toInt64_jitter {base draw : ℚ} (hdraw : 0 ≤ draw ∧ draw < 1) (hbase : |base| < 2 ^ 63) :
    toInt64 (base * draw) = roundToZero (base * draw) := by
  refine toInt64_eq ?_
  rw [abs_mul, abs_of_nonneg hdraw.1]
  calc |base| * draw ≤ |base| * 1 := mul_le_mul_of_nonneg_left hdraw.2.le (abs_nonneg base)
    _ = |base| := mul_one _
    _ < 2 ^ 63 := hbase

include hdraw hfits in
theorem park_alongside {circuit : CircuitRecord}
    (hcooldown : circuit.cooldownMs = en.circuitCfg.cooldownMs)
    (h : s.InStep (delaysOf en m i) t) :
    Alongside i.exec (Pass.Alike (delaysOf en m i)) (park Core.dialect m circuit)
      (park Go.dialect m circuit) s t := by
  have hjitter : toInt64 (circuit.cooldownMs * i.draw) =
      roundToZero (circuit.cooldownMs * i.draw) :=
    toInt64_jitter hdraw (hcooldown ▸ hfits _ List.mem_cons_self)
  have hdelay : circuit.cooldownMs * i.draw ∈ delaysOf en m i := by
    rw [hcooldown]
    exact List.mem_cons_self
  refine alongside_port h fun s' t' h' => ?_
  show Alongside i.exec _ (Core.wakeAt circuit >>= _) (Go.wakeAt circuit >>= _) s' t'
  unfold Core.wakeAt Go.wakeAt openingTime Core.fullJitter Go.fullJitter
  cases circuit.openedAt with
  | none =>
    refine alongside_port h' fun s₁ t₁ h₁ => alongside_port h₁ fun s₂ t₂ h₂ => ?_
    refine alongside_last (a := ()) h₂.alike rfl (.park m ?_) (fun _ => rfl) (fun _ => rfl)
    simp only [Inputs.answer, hjitter]
    exact .jittered _ hdelay
  | some openedAt =>
    -- Go reads the clock once more, for nothing
    refine alongside_call_right rfl (alongside_call rfl rfl ?_)
    refine alongside_last (a := ()) h'.alike rfl (.park m ?_) (fun _ => rfl) (fun _ => rfl)
    simp only [Inputs.answer, hjitter]
    exact .jittered _ hdelay

/-- One delivery, in step. -/
theorem deliver_alongside (hreason : i.verdict.reason ≠ some "") (hresult : Ordinary i.result)
    (endpoint : Endpoint) {delays : List Time} (h : s.InStep delays t) :
    Alongside i.exec (Pass.InStep delays) (deliverWith Core.dialect en m endpoint)
      (deliverWith Go.dialect en m endpoint) s t := by
  refine alongside_port h fun s₁ t₁ h₁ => ?_
  show Alongside i.exec _ (if i.verdict.allowed = true then _ else _)
    (if i.verdict.allowed = true then _ else _) s₁ t₁
  split
  · refine alongside_port h₁ fun s₂ t₂ h₂ => alongside_port h₂ fun s₃ t₃ h₃ =>
      alongside_port h₃ fun s₄ t₄ h₄ => alongside_port h₄ fun s₅ t₅ h₅ => ?_
    show Alongside i.exec _ (pure (Core.deliveryResultOf i.result _))
      (pure (Go.deliveryResultOf i.result _)) s₅ t₅
    rw [deliveryResultOf_eq hresult]
    exact alongside_pure _ h₅
  · show Alongside i.exec _ (pure (Core.refused i.verdict)) (pure (Go.refused i.verdict)) s₁ t₁
    rw [refused_eq hreason]
    exact alongside_pure _ h₁

/-- The next attempt of `m` after a delay. -/
def nextAttempt (m : Message) (at_ : Time) : Message :=
  { m with attemptNo := m.attemptNo + 1, status := .retrying, nextAttemptAt := some at_ }

/-- The part of a retryable failure that the delay decides. -/
def reschedule (m : Message) (attempt : Attempt) : Option Time → Eng Unit
  | none => dlq m attempt .exhaustedRetries
  | some delay => do
    record attempt
    let base ← port .now
    port (.putMessage (nextAttempt m (base + delay)))
    port (.scheduleRetry (nextAttempt m (base + delay)) (base + delay))

theorem onRetryable_eq (d : Dialect) (en : Engine) (m : Message) (circuit : CircuitRecord)
    (attempt : Attempt) (result : DeliveryResult) :
    onRetryable d en m circuit attempt result = (do
      let now ← port .now
      port (.putCircuit m.tenant m.endpointId
        (onFailure circuit now en.circuitCfg.failureThreshold))
      let delay ← d.nextDelayMs en.retry m.attemptNo result.retryAfterMs
      reschedule m attempt delay) := by
  unfold onRetryable
  refine bind_congr fun now => bind_congr fun _ => bind_congr fun delay => ?_
  cases delay <;> rfl

theorem reschedule_alongside {delays : List Time} (attempt : Attempt) {d d' : Time}
    (hcut : ∀ base, Cut delays (base + d) (base + d')) (h : s.InStep delays t) :
    Alongside i.exec (Pass.Alike delays) (reschedule m attempt (some d))
      (reschedule m attempt (some d')) s t := by
  refine (alongside_same (record attempt) h).bind (fun _ _ => Pass.InStep.alike) ?_
  intro _ s₁ t₁ h₁
  refine alongside_port h₁ fun s₂ t₂ h₂ => ?_
  refine alongside_call rfl rfl ?_
  refine alongside_last (a := ()) (h₂.alike.after rfl ?_) rfl ?_ (fun _ => rfl) (fun _ => rfl)
  · exact .put (nextAttempt m 0) (hcut _)
  · exact .retry (nextAttempt m 0) (hcut _)

/-- The cap as Go writes it. -/
theorem min_cap (v : Time) :
    min v retryAfterCapMs = if v > retryAfterCapMs then retryAfterCapMs else v := by
  split
  · exact min_eq_right (le_of_lt ‹_›)
  · exact min_eq_left (not_lt.mp ‹_›)

include hfits in
theorem scheduled_fits (n : Nat) : |en.retry.scheduleMs.getD n 0| < 2 ^ 63 := by
  rw [List.getD_eq_getElem?_getD]
  cases hget : en.retry.scheduleMs[n]? with
  | none => norm_num
  | some base => exact hfits base (List.mem_cons_of_mem _ (List.mem_of_getElem? hget))

include hdraw hfits in
/-- What follows a retryable failure. -/
theorem onRetryable_alongside (circuit : CircuitRecord) (attempt : Attempt)
    (result : DeliveryResult) (h : s.InStep (delaysOf en m i) t) :
    Alongside i.exec (Pass.Alike (delaysOf en m i))
      (onRetryable Core.dialect en m circuit attempt result)
      (onRetryable Go.dialect en m circuit attempt result) s t := by
  rw [onRetryable_eq, onRetryable_eq]
  refine alongside_port h fun s₁ t₁ h₁ => alongside_port h₁ fun s₂ t₂ h₂ => ?_
  have hjitter : Alongside i.exec (Pass.Alike (delaysOf en m i))
      ((some <$> Core.fullJitter (en.retry.scheduleMs.getD m.attemptNo.toNat 0)) >>=
        reschedule m attempt)
      ((some <$> Go.fullJitter (en.retry.scheduleMs.getD m.attemptNo.toNat 0)) >>=
        reschedule m attempt) s₂ t₂ := by
    refine alongside_port h₂ fun s₃ t₃ h₃ => reschedule_alongside attempt ?_ h₃
    intro base
    have hcut := toInt64_jitter hdraw (scheduled_fits hfits m.attemptNo.toNat)
    simp only [Inputs.answer, hcut]
    exact .jittered base (by simp [delaysOf])
  show Alongside i.exec _ (Core.nextDelayMs en.retry m.attemptNo result.retryAfterMs >>= _)
    (Go.nextDelayMs en.retry m.attemptNo result.retryAfterMs >>= _) s₂ t₂
  unfold Core.nextDelayMs Go.nextDelayMs
  split
  · exact alongside_same_end (dlq m attempt .exhaustedRetries) h₂
  · cases result.retryAfterMs with
    | none => exact hjitter
    | some v =>
      dsimp only
      split
      · rw [← min_cap]
        exact alongside_same_end (reschedule m attempt (some (min v retryAfterCapMs))) h₂
      · exact hjitter

include hdraw hfits in
theorem attemptDelivery_alongside (hreason : i.verdict.reason ≠ some "")
    (hresult : Ordinary i.result) (endpoint : Endpoint) (circuit : CircuitRecord)
    (h : s.InStep (delaysOf en m i) t) :
    Alongside i.exec (Pass.Alike (delaysOf en m i))
      (attemptDelivery Core.dialect en m endpoint circuit)
      (attemptDelivery Go.dialect en m endpoint circuit) s t := by
  refine alongside_port h fun s₁ t₁ h₁ => ?_
  refine (deliver_alongside hreason hresult endpoint h₁).bind (fun _ _ => Pass.InStep.alike) ?_
  intro result s₂ t₂ h₂
  refine alongside_port h₂ fun s₃ t₃ h₃ => ?_
  dsimp only
  cases result.outcome with
  | delivered => exact alongside_same_end _ h₃
  | permanent => exact alongside_same_end _ h₃
  | retryable => exact onRetryable_alongside hdraw hfits circuit _ result h₃

include hdraw hfits in
/-- From the circuit gate on. -/
theorem circuitGate_alongside (hreason : i.verdict.reason ≠ some "") (hresult : Ordinary i.result)
    (endpoint : Endpoint) (h : s.InStep (delaysOf en m i) t) :
    Alongside i.exec (Pass.Alike (delaysOf en m i))
      (circuitGate Core.dialect en m >>= fun circuit => match circuit with
        | none => pure ()
        | some circuit => attemptDelivery Core.dialect en m endpoint circuit)
      (circuitGate Go.dialect en m >>= fun circuit => match circuit with
        | none => pure ()
        | some circuit => attemptDelivery Go.dialect en m endpoint circuit) s t := by
  unfold circuitGate
  simp only [bind_assoc]
  refine alongside_port h fun s₁ t₁ h₁ => alongside_port h₁ fun s₂ t₂ h₂ => ?_
  dsimp only [Prog.bind]
  split
  · split
    · simp only [bind_assoc, pure_bind]
      refine alongside_port h₂ fun s₃ t₃ h₃ => ?_
      exact attemptDelivery_alongside hdraw hfits hreason hresult endpoint _ h₃
    · simp only [pure_bind]
      exact attemptDelivery_alongside hdraw hfits hreason hresult endpoint _ h₂
  · simp only [bind_assoc, pure_bind]
    refine (park_alongside hdraw hfits rfl h₂).bind (fun _ _ hst => hst) ?_
    exact fun _ s₃ t₃ h₃ => alongside_pure () h₃

include hdraw hfits in
theorem process_alongside (hreason : i.verdict.reason ≠ some "") (hresult : Ordinary i.result)
    (h : s.InStep (delaysOf en m i) t) :
    Alongside i.exec (Pass.Alike (delaysOf en m i)) (Core.processMessage en m)
      (Go.processMessage en m) s t := by
  refine alongside_port h fun s₁ t₁ h₁ => ?_
  dsimp only [Prog.bind, Inputs.answer]
  cases i.endpoint with
  | none => exact alongside_same_end (endpointGone m) h₁
  | some endpoint =>
    dsimp only
    split
    · exact alongside_same_end (endpointGone m) h₁
    · refine (alongside_same (rateLimitGate Core.dialect m endpoint) h₁).bind
        (fun _ _ => Pass.InStep.alike) ?_
      intro throttled s₂ t₂ h₂
      split
      · exact alongside_pure () h₂.alike
      · exact circuitGate_alongside hdraw hfits hreason hresult endpoint h₂

end Engines

/-- **The Go engine is a faithful port**: a pass over a message has the same effects in both
engines, in the same order and with the same arguments, but that Go cuts a jittered delay
to whole milliseconds. -/
theorem processMessage_mirrors (en : Engine) (m : Message) (i : Inputs)
    (hdraw : 0 ≤ i.draw ∧ i.draw < 1)
    (hfits : ∀ base ∈ en.circuitCfg.cooldownMs :: en.retry.scheduleMs, |base| < 2 ^ 63)
    (hreason : i.verdict.reason ≠ some "") (hresult : Ordinary i.result) :
    List.Forall₂ (OpAlike (delaysOf en m i)) (i.effects (Core.processMessage en m))
      (i.effects (Go.processMessage en m)) := by
  have hstart : Pass.start.InStep (delaysOf en m i) .start := ⟨rfl, .nil⟩
  exact (process_alongside hdraw hfits hreason hresult hstart).2

/-- An enabled endpoint with a closed circuit, one clock reading for all, and a draw of a
third. -/
def calmInputs (verdict : Verdict) (result : HttpResult) : Inputs where
  endpoint := some (Testing.anyEvent.endpoint "ep_1" "whsec_1" 0)
  circuit := initialCircuit 100
  bucket := none
  verdict := verdict
  result := result
  draw := 1 / 3
  clock := fun _ => 5000

/-- A receiver that is busy, without a word on when to come back. -/
def busyInputs : Inputs :=
  calmInputs { allowed := true, reason := none } (.response 503 "busy" none)

theorem busy_mirrors :
    List.Forall₂ (OpAlike (delaysOf (Testing.plainEngine 5) (Testing.messageFor "msg_1") busyInputs))
      (busyInputs.effects (Core.processMessage (Testing.plainEngine 5) (Testing.messageFor "msg_1")))
      (busyInputs.effects
        (Go.processMessage (Testing.plainEngine 5) (Testing.messageFor "msg_1"))) := by
  refine processMessage_mirrors _ _ _ ⟨by decide +kernel, by decide +kernel⟩ ?_ (by decide) ?_
  · decide +kernel
  · exact ⟨by decide, by decide, List.all_iff_forall_prop.mp (by decide), fun raw h => by cases h⟩

/-- The snippet of an attempt that is logged. -/
def snippet? : Op → Option Slice
  | .appendAttempt a => some a.respSnippet
  | _ => none

theorem OpAlike.snippet {delays : List Time} {op op' : Op} (h : OpAlike delays op op') :
    snippet? op = snippet? op' := by
  cases h <;> rfl

/-- A policy that refuses and gives an empty reason. -/
def mutedInputs : Inputs :=
  calmInputs { allowed := false, reason := some "" } (.response 200 "" none)

theorem muted_differs :
    ¬ List.Forall₂
      (OpAlike (delaysOf (Testing.plainEngine 5) (Testing.messageFor "msg_1") mutedInputs))
      (mutedInputs.effects (Core.processMessage (Testing.plainEngine 5) (Testing.messageFor "msg_1")))
      (mutedInputs.effects
        (Go.processMessage (Testing.plainEngine 5) (Testing.messageFor "msg_1"))) := by
  intro h
  have hsnippets : ∀ {l l' : List Op},
      List.Forall₂ (OpAlike (delaysOf (Testing.plainEngine 5) (Testing.messageFor "msg_1")
        mutedInputs)) l l' → l.filterMap snippet? = l'.filterMap snippet? := by
    intro l l' hl
    induction hl with
    | nil => rfl
    | cons hop _ ih => simp only [List.filterMap_cons, hop.snippet, ih]
  exact absurd (hsnippets h) (by decide +kernel)

end Anyhook.Go
