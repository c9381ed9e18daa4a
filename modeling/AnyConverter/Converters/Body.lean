import AnyConverter.Formats.Claude.Read
import AnyConverter.Formats.Claude.Build
import AnyConverter.Formats.OpenAIChat.Read
import AnyConverter.Formats.OpenAIChat.Build
import AnyConverter.Formats.OpenAIResp.Read
import AnyConverter.Formats.OpenAIResp.Build
import AnyConverter.Formats.Gemini.Read
import AnyConverter.Formats.Gemini.Build

/-!
# Converting a body

`convertRequest` and `convertResponse` decode a body, read it into the intermediate representation
and build the target's.  A body that does not decode is the only error.
-/

set_option autoImplicit false

namespace AnyConverter

/-! ## Wire types of the four formats -/

inductive WireRequest where
  | claude (req : Claude.ClaudeRequest)
  | openAIChat (req : OpenAIChat.OpenAIChatRequest)
  | openAIResponses (req : OpenAIResponses.OpenAIResponsesRequest)
  | gemini (req : Gemini.GeminiRequest)
  deriving DecidableEq

inductive WireResponse where
  | claude (resp : Claude.ClaudeResponse)
  | openAIChat (resp : OpenAIChat.OpenAIChatResponse)
  | openAIResponses (resp : OpenAIResponses.OpenAIResponsesResponse)
  | gemini (resp : Gemini.GeminiResponse)
  deriving DecidableEq

def WireRequest.toValue : WireRequest → Value
  | .claude req => req.toValue
  | .openAIChat req => req.toValue
  | .openAIResponses req => req.toValue
  | .gemini req => req.toValue

def WireResponse.toValue : WireResponse → Value
  | .claude resp => resp.toValue
  | .openAIChat resp => resp.toValue
  | .openAIResponses resp => resp.toValue
  | .gemini resp => resp.toValue

def WireRequest.ofValue : Format → Value → Option WireRequest
  | .claude, v => (Claude.ClaudeRequest.ofValue v).map .claude
  | .openAIChat, v => (OpenAIChat.OpenAIChatRequest.ofValue v).map .openAIChat
  | .openAIResponses, v => (OpenAIResponses.OpenAIResponsesRequest.ofValue v).map .openAIResponses
  | .gemini, v => (Gemini.GeminiRequest.ofValue v).map .gemini

def WireResponse.ofValue : Format → Value → Option WireResponse
  | .claude, v => (Claude.ClaudeResponse.ofValue v).map .claude
  | .openAIChat, v => (OpenAIChat.OpenAIChatResponse.ofValue v).map .openAIChat
  | .openAIResponses, v =>
    (OpenAIResponses.OpenAIResponsesResponse.ofValue v).map .openAIResponses
  | .gemini, v => (Gemini.GeminiResponse.ofValue v).map .gemini

/-! ## Reading and building -/

def readRequest (codec : JsonCodec) (w : World) : WireRequest → IrRequest × World
  | .claude req => (Claude.read req, w)
  | .openAIChat req => (OpenAIChat.read codec req, w)
  | .openAIResponses req => (OpenAIResponses.read codec req, w)
  | .gemini req => Gemini.read codec w req

def buildRequest (codec : JsonCodec) (ir : IrRequest) : Format → WireRequest
  | .claude => .claude (Claude.build ir)
  | .openAIChat => .openAIChat (OpenAIChat.build codec ir)
  | .openAIResponses => .openAIResponses (OpenAIResponses.build codec ir)
  | .gemini => .gemini (Gemini.build ir)

def readResponse (codec : JsonCodec) (w : World) : WireResponse → IrResponse × World
  | .claude resp => (Claude.readResponse resp, w)
  | .openAIChat resp => (OpenAIChat.readResponse codec resp, w)
  | .openAIResponses resp => OpenAIResponses.readResponse codec w resp
  | .gemini resp => Gemini.readResponse w resp

def buildResponse (codec : JsonCodec) (w : World) (ir : IrResponse) :
    Format → WireResponse × World
  | .claude => ((.claude (Claude.buildResponse w ir).1), (Claude.buildResponse w ir).2)
  | .openAIChat =>
    (.openAIChat (OpenAIChat.buildResponse codec w ir).1, (OpenAIChat.buildResponse codec w ir).2)
  | .openAIResponses =>
    (.openAIResponses (OpenAIResponses.buildResponse codec w ir).1,
      (OpenAIResponses.buildResponse codec w ir).2)
  | .gemini => (.gemini (Gemini.buildResponse ir), w)

/-- A reply of one format as a reply of another. -/
def convertReply (codec : JsonCodec) (target : Format) (w : World) (resp : WireResponse) :
    WireResponse :=
  let ir := readResponse codec w resp
  (buildResponse codec ir.2 ir.1 target).1

/-! ## Bodies -/

def convertRequest (codec : JsonCodec) (source target : Format) (w : World) (input : String) :
    Except ConvertError String :=
  match codec.decode (WireRequest.ofValue source) input with
  | none => .error (.json (codec.errorText input))
  | some req => .ok (codec.toText (buildRequest codec (readRequest codec w req).1 target).toValue)

def convertResponse (codec : JsonCodec) (source target : Format) (w : World) (input : String) :
    Except ConvertError String :=
  match codec.decode (WireResponse.ofValue source) input with
  | none => .error (.json (codec.errorText input))
  | some resp => .ok (codec.toText (convertReply codec target w resp).toValue)

end AnyConverter
