import AnyConverter.Formats.Claude.Stream
import AnyConverter.Formats.OpenAIChat.Stream
import AnyConverter.Formats.OpenAIResp.Stream
import AnyConverter.Formats.Gemini.Stream

/-!
# Converting a stream

`convertStreamEvent` takes one event of the source's stream through the canonical events to the
events of the target's.  It keeps one state for each side.

* `convertPair_eq_comp`: where the writer does not fail, a conversion is the reader followed by
  the writer.
-/

set_option autoImplicit false

namespace AnyConverter

open Transducer

/-- An event of a converted stream. -/
inductive WireEvent where
  | claude (event : Claude.StreamEvent)
  | openAIChat (event : OpenAIChat.StreamEvent)
  | openAIResponses (event : OpenAIResponses.StreamEvent)
  | gemini (chunk : Gemini.GeminiResponse)
  /-- an event between two sides of one format -/
  | passthrough (event : SseEvent)
  deriving DecidableEq, Repr

/-- The event on the wire. -/
def WireEvent.toText (codec : JsonCodec) : WireEvent → String
  | .claude event => event.toText codec
  | .openAIChat event => event.toText codec
  | .openAIResponses event => event.toText codec
  | .gemini chunk => Gemini.chunkText codec chunk
  | .passthrough event => event.toText

/-- Decode an event, then parse it; an event that does not decode leaves the state alone. -/
def decodeThen {υ : Type} (decoded : Except ConvertError υ) (s : AdapterState)
    (parse : υ → List CanonicalStreamEvent × AdapterState) :
    Except ConvertError (List CanonicalStreamEvent) × AdapterState :=
  match decoded with
  | .error e => (.error e, s)
  | .ok u => (.ok (parse u).1, (parse u).2)

def parseStream (codec : JsonCodec) (source : Format) :
    FallibleStep ConvertError AdapterState SseEvent CanonicalStreamEvent := fun s event =>
  match source with
  | .claude => decodeThen (Claude.decode codec event) s (Claude.parse s)
  | .openAIChat => decodeThen (OpenAIChat.decode codec event) s (OpenAIChat.parse s)
  | .openAIResponses => decodeThen (OpenAIResponses.decode codec event) s (OpenAIResponses.parse s)
  | .gemini => decodeThen (Gemini.decode codec event) s (Gemini.parse codec s)

def emitStream (codec : JsonCodec) (target : Format) :
    FallibleStep ConvertError AdapterState CanonicalStreamEvent WireEvent := fun s event =>
  match target with
  | .claude => (.ok ((Claude.emit s event).1.map .claude), (Claude.emit s event).2)
  | .openAIChat => (.ok ((OpenAIChat.emit s event).1.map .openAIChat), (OpenAIChat.emit s event).2)
  | .openAIResponses =>
    ((OpenAIResponses.emit codec s event).1.map (·.map .openAIResponses),
      (OpenAIResponses.emit codec s event).2)
  | .gemini => (.ok ((Gemini.emit codec s event).1.map .gemini), (Gemini.emit codec s event).2)

/-- Parse one event and write what it stands for; the first failed write discards the lines. -/
def convertPair (codec : JsonCodec) (source target : Format) :
    FallibleStep ConvertError (AdapterState × AdapterState) SseEvent WireEvent := fun st event =>
  match parseStream codec source st.1 event with
  | (.error e, stateIn) => (.error e, (stateIn, st.2))
  | (.ok canonical, stateIn) =>
    ((runAll (emitStream codec target) st.2 canonical).1,
      (stateIn, (runAll (emitStream codec target) st.2 canonical).2))

/-- One event of a stream; between two sides of one format it passes through. -/
def convertStreamEvent (codec : JsonCodec) (source target : Format) :
    FallibleStep ConvertError (AdapterState × AdapterState) SseEvent WireEvent := fun st event =>
  if source = target then (.ok [.passthrough event], st)
  else convertPair codec source target st event

/-- A whole stream; an event that fails contributes nothing. -/
def convertStream (codec : JsonCodec) (source target : Format) (st : AdapterState × AdapterState)
    (events : List SseEvent) : List WireEvent :=
  outputs (total (convertStreamEvent codec source target)) st events

/-! ## Factoring a conversion -/

section
variable {codec : JsonCodec} {source target : Format}

theorem convertStreamEvent_of_ne (h : source ≠ target) :
    convertStreamEvent codec source target = convertPair codec source target := by
  funext st event
  rw [convertStreamEvent, if_neg h]

/-- The reader's side of a conversion does not look at the writer's. -/
theorem convertPair_state (st : AdapterState × AdapterState) (event : SseEvent) :
    (convertPair codec source target st event).2.1 = (parseStream codec source st.1 event).2 := by
  unfold convertPair
  split <;> (rename_i h; rw [h])

theorem total_convertPair (st : AdapterState × AdapterState) (event : SseEvent)
    (h : NoError (emitStream codec target) st.2 (total (parseStream codec source) st.1 event).1) :
    total (convertPair codec source target) st event =
      comp (total (parseStream codec source)) (total (emitStream codec target)) st event := by
  unfold total convertPair comp at *
  split
  · rename_i e s hp
    simp [hp, run]
  · rename_i canonical s hp
    rw [hp] at h
    simp only [emitted_ok] at h
    simp only [hp, emitted_ok, runAll_eq_run h]
    rfl

/-- Where no write fails, a conversion is the reader followed by the writer. -/
theorem convertPair_eq_comp : ∀ (events : List SseEvent) (st : AdapterState × AdapterState),
    NoError (emitStream codec target) st.2 (outputs (total (parseStream codec source)) st.1 events) →
    outputs (total (convertPair codec source target)) st events =
      outputs (total (emitStream codec target)) st.2
        (outputs (total (parseStream codec source)) st.1 events)
  | [], _, _ => rfl
  | event :: events, st, h => by
    rw [outputs_cons] at h
    obtain ⟨hhead, htail⟩ := noError_append.mp h
    have hstep := total_convertPair st event hhead
    have hrest := convertPair_eq_comp events
      (comp (total (parseStream codec source)) (total (emitStream codec target)) st event).2 htail
    rw [outputs_cons, outputs_cons, outputs_append, hstep, hrest]
    rfl

end

end AnyConverter
