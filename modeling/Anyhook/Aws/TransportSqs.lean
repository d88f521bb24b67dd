import Anyhook.Core.Types

/-! The consumer side of packages/aws/src/transport-sqs.ts and go/aws/transport_sqs.go:
one batch of SQS records is mapped to calls of the handler, record by record, and the
records that failed are reported back. What a body parses to and what the handler
does are left open: `parse` is JSON.parse or json.Unmarshal into a message, and a
handler is a state transformer that may fail after it changed the state. -/
namespace Anyhook.Aws

structure SqsRecord where
  messageId : String
  body : String

section Dispatch
variable {μ σ : Type} (parse : String → Option μ)

abbrev RecordHandler (μ σ : Type) := μ → σ → Except String Unit × σ

/-- The loop over the records, with the failures reported so far. -/
def dispatchLoop (h : RecordHandler μ σ) : List SqsRecord → List String → σ → List String × σ
  | [], failures, s => (failures, s)
  | record :: rest, failures, s =>
    match parse record.body with
    | none => dispatchLoop h rest (failures ++ [record.messageId]) s
    | some m => match h m s with
      | (.ok _, s') => dispatchLoop h rest failures s'
      | (.error _, s') => dispatchLoop h rest (failures ++ [record.messageId]) s'

/-- The two sources differ in the text of the error when there is no handler. -/
def dispatchWith (noHandler : String) (registered handler : Option (RecordHandler μ σ))
    (records : List SqsRecord) (s : σ) : Except String (List String) × σ :=
  match handler <|> registered with
  | none => (.error noHandler, s)
  | some h => (.ok (dispatchLoop parse h records [] s).1, (dispatchLoop parse h records [] s).2)

/-- SqsTransport.dispatchRecords -/
def dispatchRecords : (registered handler : Option (RecordHandler μ σ)) → List SqsRecord → σ →
    Except String (List String) × σ :=
  dispatchWith parse
    "SqsTransport.dispatchRecords called before subscribe() (and no handler was passed)"

/-- SqsTransport.DispatchRecords of the Go package. -/
def goDispatchRecords : (registered handler : Option (RecordHandler μ σ)) → List SqsRecord → σ →
    Except String (List String) × σ :=
  dispatchWith parse
    "aws.SqsTransport.DispatchRecords called before Subscribe (and no handler was passed)"

/-! ## What a batch does -/

/-- The record fails in this state: its body does not parse or its handler throws. -/
def fails (h : RecordHandler μ σ) (record : SqsRecord) (s : σ) : Bool :=
  match parse record.body with
  | none => true
  | some m => match (h m s).1 with
    | .ok _ => false
    | .error _ => true

/-- The state the record leaves: its handler has run, unless there was nothing to run it on. -/
def after (h : RecordHandler μ σ) (s : σ) (record : SqsRecord) : σ :=
  match parse record.body with
  | none => s
  | some m => (h m s).2

/-- Each record with the state it finds, the earlier ones having run. -/
def visits (h : RecordHandler μ σ) (records : List SqsRecord) (s : σ) : List (SqsRecord × σ) :=
  records.zip (records.scanl (after parse h) s)

theorem dispatchLoop_spec (h : RecordHandler μ σ) (records : List SqsRecord)
    (failures : List String) (s : σ) :
    dispatchLoop parse h records failures s =
      (failures ++ ((visits parse h records s).filter fun v => fails parse h v.1 v.2).map
        (fun v => v.1.messageId), records.foldl (after parse h) s) := by
  induction records generalizing failures s with
  | nil => simp [dispatchLoop, visits]
  | cons record rest ih =>
    have hv : visits parse h (record :: rest) s =
        (record, s) :: visits parse h rest (after parse h s record) := by
      simp [visits, List.scanl_cons]
    rw [hv, List.foldl_cons, dispatchLoop]
    cases hp : parse record.body with
    | none =>
      have ha : after parse h s record = s := by simp [after, hp]
      rw [ih, ha]
      simp [fails, hp]
    | some m =>
      cases hx : h m s with
      | mk out s' =>
        have ha : after parse h s record = s' := by simp [after, hp, hx]
        cases out with
        | ok u =>
          simp only [hx]
          rw [ih, ha]
          simp [fails, hp, hx]
        | error e =>
          simp only [hx]
          rw [ih, ha]
          simp [fails, hp, hx]

/-- With a handler, a batch reports exactly the records that fail where they stand, and
every record has run. -/
theorem dispatchWith_spec (noHandler : String) (registered handler : Option (RecordHandler μ σ))
    (h : RecordHandler μ σ) (hh : (handler <|> registered) = some h) (records : List SqsRecord)
    (s : σ) :
    dispatchWith parse noHandler registered handler records s =
      (.ok (((visits parse h records s).filter fun v => fails parse h v.1 v.2).map
        fun v => v.1.messageId), records.foldl (after parse h) s) := by
  unfold dispatchWith
  rw [hh]
  simp [dispatchLoop_spec]

end Dispatch
end Anyhook.Aws
