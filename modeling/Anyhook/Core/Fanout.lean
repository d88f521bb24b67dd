import Anyhook.Core.Policy

/-! Identifiers, subscription matching and fan-out: packages/core/src/id.ts and
packages/core/src/fanout.ts. -/
namespace Anyhook.Core
open Anyhook.Lib.Program

def idAlphabet : List Char := "abcdefghijklmnopqrstuvwxyz0123456789".toList

/-- The character a draw in [0, 1) selects. -/
def idChar (draw : ℚ) : Char :=
  idAlphabet.getD (⌊draw * idAlphabet.length⌋ % idAlphabet.length).toNat 'a'

def idChars : Nat → Eng (List Char)
  | 0 => return []
  | n + 1 => do
    let draw ← port .next
    let rest ← idChars n
    return idChar draw :: rest

def newId (pre : String) : Eng String := do
  let cs ← idChars 20
  return pre ++ "_" ++ String.ofList cs

/-- Exact match, `*`, or a dot-prefixed wildcard: `payment.*` takes every type
that starts with `payment.`. -/
def patternMatches (pattern eventType : String) : Bool :=
  pattern == "*" || pattern == eventType ||
    (".*".toList.isSuffixOf pattern.toList &&
      pattern.toList.dropLast.isPrefixOf eventType.toList)

def subscribes (endpoint : Endpoint) (eventType : String) : Bool :=
  endpoint.eventTypes.any fun pattern => patternMatches pattern eventType

/-- The endpoints an event of this type goes to. -/
def wants (eventType : String) (e : Endpoint) : Bool := !e.disabled && subscribes e eventType

/-- The message fan-out makes for one endpoint. -/
def freshMessage (event : SendEvent) (eventId : String) (now : Time) (e : Endpoint)
    (messageId : String) : Message where
  messageId := messageId
  tenant := event.tenant
  endpointId := e.endpointId
  eventId := eventId
  eventType := event.type
  payload := event.payload
  attemptNo := 0
  status := .pending
  nextAttemptAt := none
  createdAt := now

/-- Fan-out with the engine's own id generator: one message for each wanting
endpoint, in order. -/
def fanoutWith (messageId : Eng String) (event : SendEvent) (eventId : String) (now : Time) :
    List Endpoint → Eng (List Message)
  | [] => return []
  | e :: rest =>
    if wants event.type e then do
      let id ← messageId
      let messages ← fanoutWith messageId event eventId now rest
      return freshMessage event eventId now e id :: messages
    else fanoutWith messageId event eventId now rest

def fanout : SendEvent → String → Time → List Endpoint → Eng (List Message) :=
  fanoutWith (newId "msg")

end Anyhook.Core
