import InferenceGateway.Chat
import InferenceGateway.Completions

/-!
# Messages of Anthropic

The requests and the answers of a vendor that knows only conversations. System messages
stand in a field of their own, and a text to be completed is a conversation of one message.
-/

namespace InferenceGateway.Anthropic

open Document Numeral

/-! ## Requests -/

/-- A request. -/
structure Request where
  model : String
  messages : List Chat.Message
  system : Option String
  maxTokens : Nat
  temperature : Option Binary
  topP : Option Binary
  stopSequences : Option (List String)
  stream : Bool

/-- The number of tokens that is asked for if the payload asks for none. -/
def usualMaxTokens : Nat := 1024

namespace Request

/-- A request as data. -/
def toJson (r : Request) : Json := .object <|
  [("model", .text r.model), ("messages", .array (r.messages.map Chat.Message.toJson))]
    ++ Json.member? "system" .text r.system
    ++ [("max_tokens", .integer r.maxTokens)]
    ++ Json.member? "temperature" .single r.temperature
    ++ Json.member? "top_p" .single r.topP
    ++ Json.member? "stop_sequences" (fun ss => .array (ss.map .text)) r.stopSequences
    ++ (if r.stream then [("stream", .bool true)] else [])

/-- Whether a message is for the system. -/
def isSystem (m : Chat.Message) : Bool := m.role = "system"

/-- What the system is told when one more message is for it: the message stands on a line of its
    own after those before it. -/
def tell (system : Option String) (content : String) : String :=
  match system with
  | some told => told ++ "\n" ++ content
  | none => content

/-- The messages of a conversation, those for the system set apart: what the system is told by
    them after what it has been told already, and the other messages. -/
def setApart (system : Option String) : List Chat.Message → Option String × List Chat.Message
  | [] => (system, [])
  | m :: rest =>
    if isSystem m then setApart (some (tell system m.content)) rest
    else
      let (system, others) := setApart system rest
      (system, m :: others)

/-- The request of a chat payload. -/
def ofChat (model : String) (stream : Bool) (r : Chat.Request) : Request :=
  let (system, messages) := setApart none r.messages
  { model := model
    messages := messages
    system := system
    maxTokens := r.maxTokens.getD usualMaxTokens
    temperature := r.temperature
    topP := r.topP
    stopSequences := r.stop
    stream := stream }

/-- The request of a payload with a text to be completed. -/
def ofCompletions (model : String) (stream : Bool) (r : Completions.Request) : Request where
  model := model
  messages := [⟨"user", r.prompt⟩]
  system := none
  maxTokens := r.maxTokens.getD usualMaxTokens
  temperature := r.temperature
  topP := none
  stopSequences := r.stop
  stream := stream

end Request

/-! ## Answers -/

/-- A part of an answer. -/
structure Block where
  type : String
  text : String
deriving DecidableEq, Repr

namespace Block

/-- The members of a block. -/
def fields : Fields Block :=
  Block.mk <$> .required "type" .text <*> .defaulting "text" .text ""

/-- Reads a block. -/
def read : Reader Block := fields.closed "struct ContentBlock"

end Block

/-- The counts of tokens of an answer. -/
structure TokenUsage where
  inputTokens : Nat
  outputTokens : Nat
deriving DecidableEq, Repr

namespace TokenUsage

/-- The members of counts of tokens. -/
def fields : Fields TokenUsage :=
  TokenUsage.mk <$> .required "input_tokens" .word32 <*> .required "output_tokens" .word32

/-- Reads counts of tokens. -/
def read : Reader TokenUsage := fields.closed "struct AnthropicUsage"

/-- The counts as the gateway tells them. -/
def toUsage (u : TokenUsage) : Usage :=
  ⟨u.inputTokens, u.outputTokens, (u.inputTokens + u.outputTokens) % UInt32.size⟩

end TokenUsage

/-- An answer. -/
structure Response where
  id : String
  content : List Block
  model : String
  stopReason : Option String
  usage : TokenUsage
deriving DecidableEq, Repr

/-- The reason for which an answer ends, in the words of the gateway. -/
def finishReason (reason : String) : String :=
  if reason = "end_turn" || reason = "stop_sequence" then "stop"
  else if reason = "max_tokens" then "length"
  else reason

namespace Response

/-- The members of an answer. -/
def fields : Fields Response :=
  Response.mk <$> .required "id" .text <*> .required "content" (.list Block.read)
    <*> .required "model" .text <*> .optional "stop_reason" .text
    <*> .required "usage" TokenUsage.read

/-- Reads an answer. -/
def read : Reader Response := fields.closed "struct AnthropicResponse"

/-- The text of an answer: that of its text parts. -/
def text (r : Response) : String :=
  String.join ((r.content.filter (·.type = "text")).map (·.text))

/-- The answer to a chat request. -/
def toChat (now : Nat) (r : Response) : Chat.Response where
  id := r.id
  object := "chat.completion"
  created := now
  model := r.model
  choices := [⟨0, Chat.Message.assistant r.text, r.stopReason.map finishReason⟩]
  usage := some r.usage.toUsage

/-- The answer to a request to complete a text. -/
def toCompletions (now : Nat) (r : Response) : Completions.Response where
  id := r.id
  object := "text_completion"
  created := now
  model := r.model
  choices := [⟨0, r.text, r.stopReason.map finishReason⟩]
  usage := some r.usage.toUsage

end Response

end InferenceGateway.Anthropic
