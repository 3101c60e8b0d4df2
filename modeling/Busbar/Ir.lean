import Busbar.Json

/-!
# The intermediate representation of answers

What the readers decode a backend's stream or response into and the writers encode for the client.
-/

namespace Busbar

structure IrUsage where
  inputTokens : Nat
  outputTokens : Nat
  cacheCreationInputTokens : Option Nat
  cacheReadInputTokens : Option Nat
  deriving DecidableEq, Repr

def IrUsage.zero : IrUsage := ⟨0, 0, none, none⟩

inductive IrStopReason where
  | endTurn | stopSequence | maxTokens | toolUse | safety | refusal | pauseTurn | error | other
  deriving DecidableEq, Repr

inductive StatusClass where
  | rateLimit | overloaded | serverError | timeout | network | auth | billing | clientError | contextLength
  deriving DecidableEq, Repr

inductive IrRole where
  | system | user | assistant | tool
  deriving DecidableEq, Repr

structure IrError where
  cls : StatusClass
  providerSignal : Option String
  retryAfter : Option Nat
  deriving DecidableEq, Repr

structure IrCitation where
  kind : Option String
  citedText : Option String
  title : Option String
  url : Option String
  documentIndex : Option Int
  startIndex : Option Int
  endIndex : Option Int
  encryptedIndex : Option String
  raw : Option Json

structure IrTopLogprob where
  token : String
  logprob : UInt64
  bytes : Option Bytes

structure IrTokenLogprob where
  token : String
  logprob : UInt64
  bytes : Option Bytes
  top : List IrTopLogprob

inductive IrBlockMeta where
  | text
  | thinking
  | toolUse (id name : String)
  | image
  deriving DecidableEq, Repr

inductive IrDelta where
  | text (s : String)
  | thinking (s : String)
  | inputJson (s : String)
  | signature (s : String)
  | redactedReasoning (s : String)
  | citations (citations : List IrCitation)
  | logprobs (logprobs : List IrTokenLogprob)

inductive IrStreamEvent where
  | messageStart (role : IrRole) (usage : Option IrUsage) (id : Option String) (created : Option Nat)
      (model : Option String)
  | blockStart (index : Nat) (block : IrBlockMeta)
  | blockDelta (index : Nat) (delta : IrDelta)
  | blockStop (index : Nat)
  | messageDelta (stopReason : Option IrStopReason) (stopSequence : Option String) (usage : IrUsage)
  | messageStop
  | error (err : IrError)

/-- A block of an answer. What an image, a tool result or a bare document holds, the modelled writers do not look at. -/
inductive IrBlock where
  | text (text : String) (citations : List IrCitation)
  | thinking (text : String) (signature : Option String) (redacted : Bool)
  | toolUse (id name : String) (input : Json) (thoughtSignature : Option String)
  | toolResult
  | image
  | json

structure IrResponse where
  role : IrRole
  content : List IrBlock
  stopReason : Option IrStopReason
  usage : IrUsage
  model : Option String
  id : Option String
  created : Option Nat
  systemFingerprint : Option String
  stopSequence : Option String
  logprobs : List IrTokenLogprob

end Busbar
