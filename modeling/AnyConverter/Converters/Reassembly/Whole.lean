import AnyConverter.Converters.Reassembly.Client
import AnyConverter.Lib.Json

/-!
# What the builders keep of a reply

A whole reply is read into parts, and a builder writes the parts.  `irView` is what the parts say;
what a client has of the built reply is compared with it.

* `assemble_outputItems`: a Responses reply says all of it;
* `buildChoiceMessage_seen`: a Chat reply has the last reasoning only;
* `Gemini.assemble_built`: a Gemini reply has the reasoning as text;
* `Claude.assemble_built`: a Claude reply says all of it, when no text is signed.
-/

set_option autoImplicit false

namespace AnyConverter

/-- What the parts of a reply say. -/
def irView : View IrPart where
  text
    | .text text _ => text
    | _ => ""
  reasoning
    | .thinking text _ => text
    | _ => ""
  calls
    | .toolCall id name args _ => [⟨id, name, args⟩]
    | _ => []

/-! ## Readers -/

theorem Claude.assemble_read (content : List ClaudeContentBlock) :
    irView.assemble (content.map readResponseBlock) = blockView.assemble content := by
  induction content with
  | nil => rfl
  | cons block content ih =>
    rw [List.map_cons, View.assemble_cons, View.assemble_cons, ih]
    cases block <;> rfl

namespace OpenAIChat

theorem assemble_plainIfAny (text : Option String) :
    irView.assemble (plainIfAny text) = ⟨text.getD "", "", []⟩ := by
  cases text with
  | none => rfl
  | some t =>
    by_cases hempty : t = ""
    · rw [hempty]
      rfl
    · simp [plainIfAny, Option.filter, hempty, IrPart.plain, irView]

theorem assemble_thinkingIfAny (text : Option String) :
    irView.assemble (thinkingIfAny text) = ⟨"", text.getD "", []⟩ := by
  cases text with
  | none => rfl
  | some t =>
    by_cases hempty : t = ""
    · rw [hempty]
      rfl
    · simp [thinkingIfAny, Option.filter, hempty, irView]

theorem assemble_readToolCalls (codec : JsonCodec) (toolCalls : Option (List ToolCall)) :
    irView.assemble (readToolCalls codec toolCalls) =
      ⟨"", "", (toolCalls.getD []).map (ToolCall.seen codec)⟩ := by
  unfold readToolCalls
  induction toolCalls.getD [] with
  | nil => rfl
  | cons tc calls ih =>
    rw [List.map_cons, View.assemble_cons, ih]
    simp [readToolCall, irView, ToolCall.seen]

theorem assemble_choiceParts (codec : JsonCodec) (message : ChoiceMessage) :
    irView.assemble (choiceParts codec message) = message.seen codec := by
  rw [choiceParts, View.assemble_append, View.assemble_append, assemble_plainIfAny,
    assemble_thinkingIfAny, assemble_readToolCalls]
  simp [ChoiceMessage.seen]

end OpenAIChat

/-! ## Responses -/

/-- Printed arguments are seen as they were. -/
theorem parseArguments_toText {codec : JsonCodec} (hcodec : codec.Lawful) (args : Value) :
    parseArguments codec (codec.toText args) = args := by
  rw [parseArguments, if_neg (hcodec.print_ne_empty args), hcodec.read_print, Option.getD_some]

namespace OpenAIResponses

theorem partTexts_set {key key' : String} (h : key' ≠ key) (v : Value) (item : Value) :
    partTexts (item.set key v) key' = partTexts item key' := by
  cases item with
  | object fields =>
    unfold partTexts
    show String.join ((((Value.insertField key v fields).lookup key').bind Value.asArray).getD []
      |>.map _) = _
    rw [Value.lookup_insertField_ne h]
    rfl
  | _ => rfl

/-- A sealed signature is no part of what a client sees. -/
theorem view_reasoningItem (codec : JsonCodec) (uuid text : String) (signature : Option String) :
    let item := reasoningItem codec uuid text signature
    (itemView codec).text item = "" ∧ (itemView codec).reasoning item = text ∧
      (itemView codec).calls item = [] := by
  have hplain : ∀ fields : List (String × Value), fields.lookup "type" = some (.string "reasoning") →
      partTexts (.object fields) "summary" = text →
      (itemView codec).text (.object fields) = "" ∧
        (itemView codec).reasoning (.object fields) = text ∧
        (itemView codec).calls (.object fields) = [] := by
    intro fields htype hsummary
    have hfield : textField (.object fields) "type" = "reasoning" := by
      show ((fields.lookup "type").bind Value.asStr).getD "" = _
      rw [htype]
      rfl
    simp [itemView, hfield, hsummary]
  have hsummary : partTexts (.object [("id", .string ("rs_" ++ uuid)),
      ("summary", .array [.object [("text", .string text), ("type", .string "summary_text")]]),
      ("type", .string "reasoning")]) "summary" = text := by
    show String.join [text] = text
    simp
  cases signature with
  | none => exact hplain _ rfl hsummary
  | some value =>
    refine hplain _ (Value.lookup_insertField_ne (by decide) _ _) ?_
    have hset := @partTexts_set "encrypted_content" "summary" (by decide)
      (.string (sealThinking codec text value)) (.object [("id", .string ("rs_" ++ uuid)),
        ("summary", .array [.object [("text", .string text), ("type", .string "summary_text")]]),
        ("type", .string "reasoning")])
    exact hset.trans hsummary

theorem assemble_flushText (codec : JsonCodec) (content : List Value) :
    (itemView codec).assemble (flushText content) =
      ⟨String.join (content.map (textField · "text")), "", []⟩ := by
  unfold flushText
  split
  · rename_i hnone
    rw [hnone]
    rfl
  · have htext : (itemView codec).text (messageItem .assistant content) =
        String.join (content.map (textField · "text")) := rfl
    have hreasoning : (itemView codec).reasoning (messageItem .assistant content) = "" := rfl
    have hcalls : (itemView codec).calls (messageItem .assistant content) = [] := rfl
    rw [View.assemble_cons, htext, hreasoning, hcalls]
    simp

/-- The items say what the gathered text and the parts say. -/
theorem assemble_outputItems {codec : JsonCodec} (hcodec : codec.Lawful) (parts : List IrPart)
    (w : World) (content : List Value) :
    (itemView codec).assemble (outputItems codec w content parts).1 =
      ⟨String.join (content.map (textField · "text")), "", []⟩ ++ irView.assemble parts := by
  induction parts generalizing w content with
  | nil =>
    rw [outputItems, assemble_flushText]
    simp
  | cons part parts ih =>
    have hskip : irView.text part = "" → irView.reasoning part = "" → irView.calls part = [] →
        irView.assemble (part :: parts) = irView.assemble parts := by
      intro htext hreasoning hcalls
      rw [View.assemble_cons, htext, hreasoning, hcalls]
      simp [View.assemble]
    cases part with
    | text text signature =>
      have htext : textField (textPart .assistant text) "text" = text := rfl
      rw [outputItems, ih, View.assemble_cons]
      simp [View.assemble, irView, htext, String.join_append, String.append_assoc]
    | toolCall id name args signature =>
      have hitem : (itemView codec).text (functionCallItem codec id name args) = "" ∧
          (itemView codec).reasoning (functionCallItem codec id name args) = "" ∧
          (itemView codec).calls (functionCallItem codec id name args) = [⟨id, name,
            parseArguments codec (codec.toText args)⟩] := ⟨rfl, rfl, rfl⟩
      obtain ⟨htext, hreasoning, hcalls⟩ := hitem
      rw [outputItems, View.assemble_append, assemble_flushText, View.assemble_cons, ih,
        View.assemble_cons, htext, hreasoning, hcalls, parseArguments_toText hcodec]
      simp [View.assemble, irView]
    | thinking text signature =>
      obtain ⟨htext, hreasoning, hcalls⟩ :=
        view_reasoningItem codec w.newUuid.1 text (claudeSignature signature)
      rw [outputItems, View.assemble_append, assemble_flushText, View.assemble_cons, ih,
        View.assemble_cons, htext, hreasoning, hcalls]
      simp [View.assemble, irView]
    | «sealed» signer raw =>
      cases signer with
      | claude =>
        have hitem : (itemView codec).text (sealedReasoningItem codec w.newUuid.1 raw) = "" ∧
            (itemView codec).reasoning (sealedReasoningItem codec w.newUuid.1 raw) = "" ∧
            (itemView codec).calls (sealedReasoningItem codec w.newUuid.1 raw) = [] :=
          ⟨rfl, rfl, rfl⟩
        obtain ⟨htext, hreasoning, hcalls⟩ := hitem
        rw [outputItems, View.assemble_append, assemble_flushText, View.assemble_cons, ih,
          hskip rfl rfl rfl, htext, hreasoning, hcalls]
        simp [View.assemble]
      | _ => rw [outputItems, ih, hskip rfl rfl rfl] <;> simp
    | _ => rw [outputItems, ih, hskip rfl rfl rfl] <;> simp

/-- A reply says what its parts say. -/
theorem assemble_built {codec : JsonCodec} (hcodec : codec.Lawful) (parts : List IrPart)
    (w : World) :
    (itemView codec).assemble (outputItems codec w [] parts).1 = irView.assemble parts := by
  rw [assemble_outputItems hcodec]
  exact Assembled.empty_append _

end OpenAIResponses

/-! ## Chat -/

namespace OpenAIChat

theorem seen_toolCallsOf {codec : JsonCodec} (hcodec : codec.Lawful) (parts : List IrPart) :
    ((toolCallsOf codec parts).getD []).map (ToolCall.seen codec) = parts.flatMap irView.calls := by
  have hcalls : (toolCallsOf codec parts).getD [] = parts.filterMap (toolCallOf codec) := by
    unfold toolCallsOf
    cases parts.filterMap (toolCallOf codec) <;> rfl
  rw [hcalls, List.map_filterMap, List.filterMap_eq_flatMap_toList]
  refine List.flatMap_congr fun part _ => ?_
  cases part with
  | toolCall id name args signature =>
    show [ToolCall.seen codec ⟨id, "function", ⟨name, codec.toText args⟩⟩] = [⟨id, name, args⟩]
    rw [ToolCall.seen, parseArguments_toText hcodec]
  | _ => rfl

/-- A message has the texts and the calls of the parts, and the last of the reasoning. -/
theorem seen_buildChoiceMessage {codec : JsonCodec} (hcodec : codec.Lawful) (parts : List IrPart) :
    (buildChoiceMessage codec parts).seen codec = ⟨(irView.assemble parts).text,
      (parts.filterMap thinkingText).getLast?.getD "", (irView.assemble parts).calls⟩ := by
  have hjoin : ∀ texts : List String, (joinTexts texts).getD "" = String.join texts := by
    intro texts
    cases texts <;> rfl
  have htext : (buildChoiceMessage codec parts).content.getD "" = (irView.assemble parts).text := by
    rw [buildChoiceMessage, hjoin, Text.join_nonempty, Text.join_filterMap]
    refine congrArg String.join (List.map_congr_left fun part _ => ?_)
    cases part <;> rfl
  have hreasoning : (lastThinking parts).getD "" =
      (parts.filterMap thinkingText).getLast?.getD "" := by
    unfold lastThinking
    cases (parts.filterMap thinkingText).getLast? with
    | none => rfl
    | some text => by_cases hempty : text = "" <;> simp [Option.filter, hempty]
  rw [ChoiceMessage.seen, htext]
  show Assembled.mk _ ((lastThinking parts).getD "")
    (((toolCallsOf codec parts).getD []).map (ToolCall.seen codec)) = _
  rw [hreasoning, seen_toolCallsOf hcodec]
  rfl

/-- So it is the whole of them when no reasoning but the last says anything. -/
theorem reasoning_iff (parts : List IrPart) :
    (irView.assemble parts).reasoning = (parts.filterMap thinkingText).getLast?.getD "" ↔
      ∀ text ∈ (parts.filterMap thinkingText).dropLast, text = "" := by
  have hjoin : (irView.assemble parts).reasoning = String.join (parts.filterMap thinkingText) := by
    rw [Text.join_filterMap]
    refine congrArg String.join (List.map_congr_left fun part _ => ?_)
    cases part <;> rfl
  rw [hjoin]
  exact Text.join_eq_getLast_iff _

end OpenAIChat

/-! ## Gemini -/

namespace Gemini

/-- What is left of it in a reply without thoughts. -/
def spokenView : View IrPart where
  text part := irView.text part ++ irView.reasoning part
  reasoning _ := ""
  calls := irView.calls

/-- A part nobody of Gemini signed. -/
def Unsigned : IrPart → Prop
  | .thinking _ signature => geminiSignature signature = none
  | _ => True

/-- The reasoning is text like any other. -/
theorem assemble_built {parts : List IrPart} (h : ∀ part ∈ parts, Unsigned part) :
    partView.assemble ((parts.filter isResponsePart).filterMap buildPart) =
      ⟨String.join (parts.map fun part => irView.text part ++ irView.reasoning part), "",
        (irView.assemble parts).calls⟩ := by
  have hplain : partView.assemble ((parts.filter isResponsePart).filterMap buildPart) =
      spokenView.assemble parts := by
    rw [List.filterMap_filter, View.assemble_filterMap]
    refine View.assemble_congr fun part hpart => ?_
    cases part with
    | text text signature =>
      by_cases hempty : text = ""
      · simp [View.over, isResponsePart, buildPart, hempty, spokenView, irView]
      · simp [View.over, isResponsePart, buildPart, hempty, spokenView, irView, partView,
          GeminiPart.ofText, GeminiPart.withThoughtSignature]
    | thinking text signature =>
      have hnone : geminiSignature signature = none := h _ hpart
      by_cases hempty : text = ""
      · simp [View.over, isResponsePart, buildPart, hempty, spokenView, irView]
      · simp [View.over, isResponsePart, buildPart, hempty, thinkingPart, hnone, spokenView, irView,
          partView, GeminiPart.ofText]
    | toolCall id name args signature =>
      simp [View.over, isResponsePart, buildPart, spokenView, irView, partView,
        GeminiPart.functionCallWithId, GeminiPart.withThoughtSignature]
    | _ => simp [View.over, isResponsePart, spokenView, irView]
  have hnone : ∀ xs : List IrPart, String.join (xs.map fun _ => "") = "" :=
    fun xs => Text.join_map_empty_iff.mpr fun _ _ => rfl
  rw [hplain, View.assemble]
  exact congrArg (fun reasoning => Assembled.mk _ reasoning _) (hnone parts)

/-- So it is the text of the reply when there is no reasoning. -/
theorem text_iff (parts : List IrPart) :
    String.join (parts.map fun part => irView.text part ++ irView.reasoning part) =
        (irView.assemble parts).text ↔ (irView.assemble parts).reasoning = "" :=
  Text.join_map_append_iff _ _ _

end Gemini

/-! ## Claude -/

/-- A reply says what unsigned parts say. -/
theorem Claude.assemble_built {parts : List IrPart}
    (h : ∀ text signature, .text text (some signature) ∉ parts) :
    blockView.assemble (parts.filterMap buildResponseBlock) = irView.assemble parts := by
  rw [View.assemble_filterMap]
  refine View.assemble_congr fun part hpart => ?_
  cases part with
  | text text signature =>
    cases signature with
    | some signature => exact absurd hpart (h text signature)
    | none =>
      by_cases hempty : text = "" <;>
        simp [View.over, buildResponseBlock, hempty, irView, blockView]
  | thinking text signature =>
    by_cases hempty : text = "" <;> simp [View.over, buildResponseBlock, hempty, irView, blockView]
  | toolCall id name args signature => simp [View.over, buildResponseBlock, irView, blockView]
  | _ => simp [View.over, buildResponseBlock, irView]

end AnyConverter
