import AnyConverter.Converters.Body
import AnyConverter.Lib.JsonText

/-!
# Foreign signatures

Signatures and sealed reasoning belong to the API that issued them.  What a target cannot use must
not show in what is built for it: a body is built from its parts with the foreign signatures and the
foreign payloads erased.

* `buildRequest_erase`: so it is for every request;
* `buildResponse_erase_iff`: for a reply, unless Claude is the target and a text carries a foreign
  signature;
* `foreign_signatures_iff`: the two as statements about two bodies.
-/

set_option autoImplicit false

namespace AnyConverter

/-- The signatures a target can use: its own, and for Responses those Claude sealed. -/
def usable (target by_ : Format) : Bool :=
  by_ == target || (target == .openAIResponses && by_ == .claude)

/-- A signature the target can use. -/
def eraseSignature (target : Format) (signature : Option Signature) : Option Signature :=
  signature.filter fun s => usable target s.by_

mutual
/-- A part without its foreign signatures, and without the payload of foreign sealed reasoning. -/
def erasePart (target : Format) : IrPart → IrPart
  | .text text signature => .text text (eraseSignature target signature)
  | .image url mediaType data detail => .image url mediaType data detail
  | .toolCall id name args signature => .toolCall id name args (eraseSignature target signature)
  | .toolResult callId isError content => .toolResult callId isError (eraseParts target content)
  | .thinking text signature => .thinking text (eraseSignature target signature)
  | .sealed by_ raw => .sealed by_ (if usable target by_ then raw else .null)
def eraseParts (target : Format) : List IrPart → List IrPart
  | [] => []
  | part :: parts => erasePart target part :: eraseParts target parts
end

theorem eraseParts_eq (target : Format) (parts : List IrPart) :
    eraseParts target parts = parts.map (erasePart target) := by
  induction parts with
  | nil => rfl
  | cons part parts ih => rw [eraseParts, ih, List.map_cons]

def eraseMessage (target : Format) (msg : IrMessage) : IrMessage :=
  ⟨msg.role, eraseParts target msg.parts⟩

def eraseRequest (target : Format) (ir : IrRequest) : IrRequest :=
  { ir with
    system := eraseParts target ir.system, messages := ir.messages.map (eraseMessage target) }

def eraseResponse (target : Format) (ir : IrResponse) : IrResponse :=
  { ir with parts := eraseParts target ir.parts }

/-- A part of the text kind keeps its text. -/
theorem filterMap_erase {α : Type} {target : Format} {f : IrPart → Option α}
    (h : ∀ p, f (erasePart target p) = f p) (parts : List IrPart) :
    (eraseParts target parts).filterMap f = parts.filterMap f := by
  rw [eraseParts_eq, List.filterMap_map]
  exact congrArg (parts.filterMap ·) (funext h)

theorem filter_erase {target : Format} {keep : IrPart → Bool}
    (h : ∀ p, keep (erasePart target p) = keep p) (parts : List IrPart) :
    (eraseParts target parts).filter keep = eraseParts target (parts.filter keep) := by
  rw [eraseParts_eq, eraseParts_eq, List.filter_map]
  exact congrArg (fun k => (parts.filter k).map (erasePart target)) (funext h)

theorem any_erase {target : Format} {test : IrPart → Bool}
    (h : ∀ p, test (erasePart target p) = test p) (parts : List IrPart) :
    (eraseParts target parts).any test = parts.any test := by
  rw [eraseParts_eq, List.any_map]
  exact congrArg (parts.any ·) (funext h)

/-! ## Claude -/

namespace Claude

theorem claudeSignature_erase (signature : Option Signature) :
    claudeSignature (eraseSignature .claude signature) = claudeSignature signature := by
  cases signature with
  | none => rfl
  | some s =>
    obtain ⟨signer, value⟩ := s
    cases signer <;> rfl

mutual
theorem buildPart_erase : ∀ p : IrPart, buildPart (erasePart .claude p) = buildPart p
  | .text _ _ => rfl
  | .image _ _ _ _ => rfl
  | .toolCall _ _ _ _ => rfl
  | .toolResult callId isError content => by
    rw [erasePart, buildPart, buildPart, textOrBlocks_erase (.string "") content]
  | .thinking text signature => by
    simp only [erasePart, buildPart, thinkingBlock, claudeSignature_erase]
  | .sealed .claude _ => rfl
  | .sealed .openAIChat _ => rfl
  | .sealed .openAIResponses _ => rfl
  | .sealed .gemini _ => rfl
theorem buildParts_erase : ∀ parts : List IrPart,
    buildParts (eraseParts .claude parts) = buildParts parts
  | [] => rfl
  | part :: parts => by
    rw [eraseParts, buildParts, buildParts, buildPart_erase part, buildParts_erase parts]
theorem textOrBlocks_erase (empty : Value) : ∀ parts : List IrPart,
    textOrBlocks empty (eraseParts .claude parts) = textOrBlocks empty parts
  | [] => rfl
  | [part] => by
    have hpart := buildPart_erase part
    cases part with
    | text text signature => rfl
    | image url mediaType data detail => rfl
    | _ =>
      simp only [eraseParts]
      simp only [erasePart] at hpart ⊢
      simp only [textOrBlocks, hpart, buildParts]
  | part :: second :: parts => by
    have hpart := buildPart_erase part
    have hparts := buildParts_erase (second :: parts)
    rw [eraseParts] at hparts
    rw [eraseParts, eraseParts, textOrBlocks, textOrBlocks, hpart, hparts]
    all_goals simp
end

theorem isThinking_erase (target : Format) (p : IrPart) :
    isThinking (erasePart target p) = isThinking p := by
  cases p <;> simp [erasePart, isThinking]

theorem systemText_erase (target : Format) (p : IrPart) :
    systemText (erasePart target p) = systemText p := by
  cases p <;> simp [erasePart, systemText]

theorem extendLast_erase (target : Format) (msg : IrMessage) (messages : List IrMessage) :
    extendLast (eraseMessage target msg) (messages.map (eraseMessage target)) =
      (extendLast msg messages).map (eraseMessage target) := by
  have happend : ∀ xs ys : List IrPart, eraseParts target xs ++ eraseParts target ys =
      eraseParts target (xs ++ ys) := by
    intro xs ys
    rw [eraseParts_eq, eraseParts_eq, eraseParts_eq, List.map_append]
  induction messages with
  | nil => rfl
  | cons first messages ih =>
    cases messages with
    | nil =>
      simp only [List.map_cons, List.map_nil, extendLast, eraseMessage, happend]
      split <;> rfl
    | cons second rest =>
      simp only [List.map_cons, extendLast] at ih ⊢
      rw [ih]

theorem mergeSameRole_erase (target : Format) (messages : List IrMessage) :
    mergeSameRole (messages.map (eraseMessage target)) =
      (mergeSameRole messages).map (eraseMessage target) := by
  have hfold : ∀ (messages out : List IrMessage),
      (messages.map (eraseMessage target)).foldl (fun out msg => extendLast msg out)
        (out.map (eraseMessage target)) =
      (messages.foldl (fun out msg => extendLast msg out) out).map (eraseMessage target) := by
    intro messages
    induction messages with
    | nil => intro out; rfl
    | cons msg messages ih =>
      intro out
      rw [List.map_cons, List.foldl_cons, List.foldl_cons, extendLast_erase, ih]
  exact hfold messages []

theorem buildMessage_erase (msg : IrMessage) :
    buildMessage (eraseMessage .claude msg) = buildMessage msg := by
  simp only [buildMessage, eraseMessage, textOrBlocks_erase]

theorem build_erase (ir : IrRequest) : build (eraseRequest .claude ir) = build ir := by
  have hmessages : (mergeSameRole (ir.messages.map (eraseMessage .claude))).map buildMessage =
      (mergeSameRole ir.messages).map buildMessage := by
    rw [mergeSameRole_erase, List.map_map]
    exact congrArg ((mergeSameRole ir.messages).map ·) (funext buildMessage_erase)
  have hsystem : buildSystem (eraseParts .claude ir.system) = buildSystem ir.system := by
    simp only [buildSystem, filterMap_erase (systemText_erase .claude)]
  have hthinking : ∀ reasoning maxTokens,
      buildThinking reasoning maxTokens (ir.messages.map (eraseMessage .claude)) =
        buildThinking reasoning maxTokens ir.messages := by
    intro reasoning maxTokens
    have hany : ((ir.messages.map (eraseMessage .claude)).any fun m => m.parts.any isThinking) =
        ir.messages.any fun m => m.parts.any isThinking := by
      rw [List.any_map]
      refine congrArg (ir.messages.any ·) (funext fun m => ?_)
      exact any_erase (isThinking_erase .claude) m.parts
    simp only [buildThinking, hany]
  simp only [build, eraseRequest, hmessages, hsystem, hthinking]
  rfl

/-- A text with a signature the target cannot use is dropped from a reply: it only has a block when
nobody signed it. -/
theorem buildResponseBlock_erase {p : IrPart}
    (h : ∀ text signature, p = .text text (some signature) → text ≠ "" →
      signature.by_ = .claude) :
    buildResponseBlock (erasePart .claude p) = buildResponseBlock p := by
  cases p with
  | text text signature =>
    cases signature with
    | none => rfl
    | some s =>
      obtain ⟨signer, value⟩ := s
      by_cases htext : text = ""
      · subst htext
        cases signer <;> rfl
      · have hown : signer = .claude := h text ⟨signer, value⟩ rfl htext
        subst hown
        rfl
  | thinking text signature =>
    simp only [erasePart, buildResponseBlock, claudeSignature_erase]
  | image url mediaType data detail => rfl
  | toolCall id name args signature => rfl
  | toolResult callId isError content => rfl
  | sealed signer raw => rfl

/-- What an erased reply shows of a text nobody of Claude signed. -/
theorem buildResponseBlock_foreign {text : String} {signature : Signature} (htext : text ≠ "")
    (hforeign : signature.by_ ≠ .claude) :
    buildResponseBlock (erasePart .claude (.text text (some signature))) = some (.text text) ∧
      buildResponseBlock (.text text (some signature)) = none := by
  obtain ⟨signer, value⟩ := signature
  cases signer with
  | claude => exact absurd rfl hforeign
  | _ => exact ⟨if_neg htext, rfl⟩

end Claude

/-! ## Chat -/

namespace OpenAIChat

section
variable (target : Format) (p : IrPart)

theorem irText_erase : irText (erasePart target p) = irText p := by
  cases p <;> simp [erasePart, irText]

theorem textOf_erase (parts : List IrPart) : textOf (eraseParts target parts) = textOf parts := by
  rw [textOf, textOf, filterMap_erase (irText_erase target)]

theorem isImage_erase : isImage (erasePart target p) = isImage p := by
  cases p <;> simp [erasePart, isImage]

theorem contentItem_erase : contentItem (erasePart target p) = contentItem p := by
  cases p <;> simp [erasePart, contentItem]

theorem isToolResult_erase : isToolResult (erasePart target p) = isToolResult p := by
  cases p <;> simp [erasePart, isToolResult]

theorem toolMessage_erase : toolMessage (erasePart target p) = toolMessage p := by
  cases p <;> simp [erasePart, toolMessage, textOf_erase]

theorem toolCallOf_erase (codec : JsonCodec) :
    toolCallOf codec (erasePart target p) = toolCallOf codec p := by
  cases p <;> simp [erasePart, toolCallOf]

theorem isContent_erase : isContent (erasePart target p) = isContent p := by
  cases p <;> simp [erasePart, isContent]

theorem thinkingText_erase : thinkingText (erasePart target p) = thinkingText p := by
  cases p <;> simp [erasePart, thinkingText]

end

theorem messageContent_erase (target : Format) (parts : List IrPart) :
    messageContent (eraseParts target parts) = messageContent parts := by
  rw [messageContent, messageContent, any_erase (isImage_erase target),
    filterMap_erase (contentItem_erase target), textOf_erase]

theorem toolCallsOf_erase (codec : JsonCodec) (target : Format) (parts : List IrPart) :
    toolCallsOf codec (eraseParts target parts) = toolCallsOf codec parts := by
  rw [toolCallsOf, toolCallsOf, filterMap_erase fun p => toolCallOf_erase target p codec]

theorem lastThinking_erase (target : Format) (parts : List IrPart) :
    lastThinking (eraseParts target parts) = lastThinking parts := by
  rw [lastThinking, lastThinking, filterMap_erase (thinkingText_erase target)]

theorem messagesOf_erase (codec : JsonCodec) (target : Format) (msg : IrMessage) :
    messagesOf codec (eraseMessage target msg) = messagesOf codec msg := by
  have huser : userMessages (eraseParts target msg.parts) = userMessages msg.parts := by
    rw [userMessages, userMessages, filterMap_erase (toolMessage_erase target),
      filter_erase fun p => congrArg not (isToolResult_erase target p), messageContent_erase]
  have hassistant : assistantMessage codec (eraseParts target msg.parts) =
      assistantMessage codec msg.parts := by
    rw [assistantMessage, assistantMessage, filter_erase (isContent_erase target),
      messageContent_erase, toolCallsOf_erase, lastThinking_erase]
  simp only [messagesOf, eraseMessage, huser, hassistant]

theorem build_erase (codec : JsonCodec) (target : Format) (ir : IrRequest) :
    build codec (eraseRequest target ir) = build codec ir := by
  have hmessages : (ir.messages.map (eraseMessage target)).flatMap (messagesOf codec) =
      ir.messages.flatMap (messagesOf codec) := by
    rw [List.flatMap_map]
    exact congrArg (ir.messages.flatMap ·) (funext (messagesOf_erase codec target))
  simp only [build, eraseRequest, hmessages, filterMap_erase (irText_erase target)]
  rfl

theorem buildResponse_erase (codec : JsonCodec) (target : Format) (w : World) (ir : IrResponse) :
    buildResponse codec w (eraseResponse target ir) = buildResponse codec w ir := by
  simp only [buildResponse, eraseResponse, buildChoiceMessage,
    filterMap_erase (irText_erase target), toolCallsOf_erase, lastThinking_erase]

end OpenAIChat

/-! ## Responses -/

namespace OpenAIResponses

theorem irText_erase (target : Format) (p : IrPart) : irText (erasePart target p) = irText p := by
  cases p <;> simp [erasePart, irText]

theorem inputItems_erase (codec : JsonCodec) (target : Format) (role : Role) (parts : List IrPart)
    (content : List Value) : inputItems codec role content (eraseParts target parts) =
      inputItems codec role content parts := by
  induction parts generalizing content with
  | nil => rfl
  | cons part parts ih =>
    cases part with
    | toolResult callId isError result =>
      have htext : partsToText (eraseParts target result) = partsToText result := by
        rw [partsToText, partsToText, filterMap_erase (irText_erase target)]
      simp only [eraseParts, erasePart, inputItems, ih, functionCallOutputItem, htext]
    | _ => simp only [eraseParts, erasePart, inputItems, ih]

theorem build_erase (codec : JsonCodec) (target : Format) (ir : IrRequest) :
    build codec (eraseRequest target ir) = build codec ir := by
  have hmessages : messagesToInput codec (ir.messages.map (eraseMessage target)) =
      messagesToInput codec ir.messages := by
    have hitems : ((ir.messages.map (eraseMessage target)).flatMap fun m =>
        inputItems codec m.role [] m.parts) =
        ir.messages.flatMap fun m => inputItems codec m.role [] m.parts := by
      rw [List.flatMap_map]
      exact congrArg (ir.messages.flatMap ·)
        (funext fun m => inputItems_erase codec target m.role m.parts [])
    rw [messagesToInput, messagesToInput, hitems]
  have hsystem : systemToInstructions (eraseParts target ir.system) =
      systemToInstructions ir.system := by
    rw [systemToInstructions, systemToInstructions, filterMap_erase (irText_erase target)]
  simp only [build, eraseRequest, hmessages, hsystem]
  rfl

theorem claudeSignature_erase (signature : Option Signature) :
    claudeSignature (eraseSignature .openAIResponses signature) = claudeSignature signature := by
  cases signature with
  | none => rfl
  | some s =>
    obtain ⟨signer, value⟩ := s
    cases signer <;> rfl

theorem outputItems_erase (codec : JsonCodec) (parts : List IrPart) (w : World)
    (content : List Value) : outputItems codec w content (eraseParts .openAIResponses parts) =
      outputItems codec w content parts := by
  induction parts generalizing w content with
  | nil => rfl
  | cons part parts ih =>
    cases part with
    | thinking text signature =>
      simp only [eraseParts, erasePart, outputItems, ih, claudeSignature_erase]
    | sealed signer raw =>
      cases signer with
      | claude => simp only [eraseParts, erasePart, outputItems, ih]; rfl
      | _ => simp only [eraseParts, erasePart, outputItems, ih]
    | _ => simp only [eraseParts, erasePart, outputItems, ih]

theorem buildResponse_erase (codec : JsonCodec) (w : World) (ir : IrResponse) :
    buildResponse codec w (eraseResponse .openAIResponses ir) = buildResponse codec w ir := by
  simp only [buildResponse, eraseResponse, outputItems_erase]

end OpenAIResponses

/-! ## Gemini -/

namespace Gemini

theorem geminiSignature_erase (signature : Option Signature) :
    geminiSignature (eraseSignature .gemini signature) = geminiSignature signature := by
  cases signature with
  | none => rfl
  | some s =>
    obtain ⟨signer, value⟩ := s
    cases signer <;> rfl

theorem irText_erase (target : Format) (p : IrPart) : irText (erasePart target p) = irText p := by
  cases p <;> simp [erasePart, irText]

theorem buildPart_erase (p : IrPart) : buildPart (erasePart .gemini p) = buildPart p := by
  cases p with
  | toolResult callId isError content =>
    simp only [erasePart, buildPart, filterMap_erase (irText_erase .gemini)]
  | text text signature => simp only [erasePart, buildPart, geminiSignature_erase]
  | toolCall id name args signature => simp only [erasePart, buildPart, geminiSignature_erase]
  | thinking text signature =>
    simp only [erasePart, buildPart, thinkingPart, geminiSignature_erase]
  | image url mediaType data detail => rfl
  | sealed signer raw => rfl

theorem build_erase (ir : IrRequest) : build (eraseRequest .gemini ir) = build ir := by
  have hmessages : (ir.messages.map (eraseMessage .gemini)).map buildMessage =
      ir.messages.map buildMessage := by
    rw [List.map_map]
    refine congrArg (ir.messages.map ·) (funext fun m => ?_)
    simp only [Function.comp_apply, buildMessage, eraseMessage, filterMap_erase buildPart_erase]
  have hsystem : buildSystem (eraseParts .gemini ir.system) = buildSystem ir.system := by
    have hpart : ∀ p, systemPart (erasePart .gemini p) = systemPart p := by
      intro p
      rw [systemPart, systemPart, irText_erase]
    rw [buildSystem, buildSystem, filterMap_erase hpart]
  simp only [build, eraseRequest, hmessages, hsystem]

theorem isResponsePart_erase (p : IrPart) :
    isResponsePart (erasePart .gemini p) = isResponsePart p := by
  cases p <;> simp [erasePart, isResponsePart]

theorem buildResponse_erase (ir : IrResponse) :
    buildResponse (eraseResponse .gemini ir) = buildResponse ir := by
  simp only [buildResponse, eraseResponse, filter_erase isResponsePart_erase,
    filterMap_erase buildPart_erase]

end Gemini

/-! ## Two bodies -/

/-- No text of the reply carries a signature Claude did not issue, unless it is empty. -/
def TextsUnsigned (ir : IrResponse) : Prop :=
  ∀ text signature, .text text (some signature) ∈ ir.parts → text ≠ "" → signature.by_ = .claude

theorem buildRequest_erase (codec : JsonCodec) (ir : IrRequest) (target : Format) :
    buildRequest codec (eraseRequest target ir) target = buildRequest codec ir target := by
  cases target with
  | claude => exact congrArg WireRequest.claude (Claude.build_erase ir)
  | openAIChat => exact congrArg WireRequest.openAIChat (OpenAIChat.build_erase codec _ ir)
  | openAIResponses =>
    exact congrArg WireRequest.openAIResponses (OpenAIResponses.build_erase codec _ ir)
  | gemini => exact congrArg WireRequest.gemini (Gemini.build_erase ir)

/-- The blocks of a reply are those of its erased parts exactly when no text is dropped. -/
theorem Claude.filterMap_buildResponseBlock_iff (parts : List IrPart) :
    (eraseParts .claude parts).filterMap buildResponseBlock =
        parts.filterMap buildResponseBlock ↔
      ∀ text signature, .text text (some signature) ∈ parts → text ≠ "" →
        signature.by_ = .claude := by
  have hlength : ∀ parts : List IrPart, (parts.filterMap buildResponseBlock).length ≤
      ((eraseParts .claude parts).filterMap buildResponseBlock).length := by
    intro parts
    induction parts with
    | nil => exact Nat.le_refl 0
    | cons p parts ih =>
      rw [eraseParts, List.filterMap_cons, List.filterMap_cons]
      by_cases hp : ∀ text signature, p = .text text (some signature) → text ≠ "" →
          signature.by_ = .claude
      · rw [buildResponseBlock_erase hp]
        cases buildResponseBlock p with
        | none => exact ih
        | some block => simpa using ih
      · push Not at hp
        obtain ⟨text, signature, rfl, htext, hforeign⟩ := hp
        obtain ⟨herased, hdropped⟩ := buildResponseBlock_foreign htext hforeign
        rw [herased, hdropped]
        exact Nat.le_succ_of_le ih
  induction parts with
  | nil =>
    refine iff_of_true rfl ?_
    intro text signature hmem
    cases hmem
  | cons p parts ih =>
    rw [eraseParts, List.filterMap_cons, List.filterMap_cons]
    by_cases hp : ∀ text signature, p = .text text (some signature) → text ≠ "" →
        signature.by_ = .claude
    · have hcons : (∀ text signature, .text text (some signature) ∈ p :: parts → text ≠ "" →
          signature.by_ = .claude) ↔ ∀ text signature, .text text (some signature) ∈ parts →
          text ≠ "" → signature.by_ = .claude := by
        constructor
        · intro h text signature hmem
          exact h text signature (List.mem_cons_of_mem _ hmem)
        · intro h text signature hmem htext
          rcases List.mem_cons.mp hmem with rfl | hmem
          · exact hp text signature rfl htext
          · exact h text signature hmem htext
      rw [buildResponseBlock_erase hp, hcons]
      refine Iff.trans ?_ ih
      cases buildResponseBlock p with
      | none => exact Iff.rfl
      | some block => simp
    · push Not at hp
      obtain ⟨text, signature, rfl, htext, hforeign⟩ := hp
      obtain ⟨herased, hdropped⟩ := buildResponseBlock_foreign htext hforeign
      rw [herased, hdropped]
      refine iff_of_false ?_ ?_
      · intro heq
        have hle := hlength parts
        have hsame := congrArg List.length heq
        simp only [List.length_cons] at hsame
        omega
      · intro h
        exact hforeign (h text signature List.mem_cons_self htext)

/-- A reply is built as if it carried no foreign signature, unless Claude is the target and drops a
signed text. -/
theorem buildResponse_erase_iff (codec : JsonCodec) (w : World) (ir : IrResponse)
    (target : Format) :
    buildResponse codec w (eraseResponse target ir) target = buildResponse codec w ir target ↔
      target ≠ .claude ∨ TextsUnsigned ir := by
  cases target with
  | claude =>
    have hblocks := Claude.filterMap_buildResponseBlock_iff ir.parts
    rw [or_iff_right (by simp), TextsUnsigned, ← hblocks]
    constructor
    · intro h
      have hwire := congrArg Prod.fst h
      simp only [buildResponse, Claude.buildResponse, WireResponse.claude.injEq,
        Claude.ClaudeResponse.mk.injEq] at hwire
      exact hwire.2.2.2.2.1
    · intro h
      simp only [buildResponse, Claude.buildResponse, eraseResponse, h]
  | openAIChat =>
    refine iff_of_true ?_ (.inl (by simp))
    simp only [buildResponse, OpenAIChat.buildResponse_erase]
  | openAIResponses =>
    refine iff_of_true ?_ (.inl (by simp))
    simp only [buildResponse, OpenAIResponses.buildResponse_erase]
  | gemini =>
    refine iff_of_true ?_ (.inl (by simp))
    simp only [buildResponse, Gemini.buildResponse_erase]

/-- **Foreign signatures do not show.**  Requests that differ in them alone are built alike.  A reply
is built as without them exactly when Claude is not the target or no text carries one, and two such
replies are built alike. -/
theorem foreign_signatures_iff (codec : JsonCodec) (target : Format) :
    (∀ ir ir' : IrRequest, eraseRequest target ir = eraseRequest target ir' →
      buildRequest codec ir target = buildRequest codec ir' target) ∧
    (∀ (w : World) (ir : IrResponse),
      buildResponse codec w (eraseResponse target ir) target = buildResponse codec w ir target ↔
        target ≠ .claude ∨ TextsUnsigned ir) ∧
    ∀ (w : World) (ir ir' : IrResponse), eraseResponse target ir = eraseResponse target ir' →
      (target ≠ .claude ∨ TextsUnsigned ir) → (target ≠ .claude ∨ TextsUnsigned ir') →
      buildResponse codec w ir target = buildResponse codec w ir' target := by
  refine ⟨?_, fun w ir => buildResponse_erase_iff codec w ir target, ?_⟩
  · intro ir ir' h
    rw [← buildRequest_erase codec ir, h, buildRequest_erase]
  · intro w ir ir' h hir hir'
    rw [← (buildResponse_erase_iff codec w ir target).mpr hir, h,
      (buildResponse_erase_iff codec w ir' target).mpr hir']

/-- A reply of one text, as Gemini signed it or not. -/
def saidReply (signature : Option Signature) : IrResponse where
  id := some "msg_1"
  model := "gemini-pro"
  parts := [.text "Hello" signature]

/-- Gemini's signature takes the text away from a Claude client. -/
theorem saidReply_shows : eraseResponse .claude (saidReply (some ⟨.gemini, "c2ln"⟩)) =
      eraseResponse .claude (saidReply none) ∧
    JsonText.compactCodec.toText (buildResponse JsonText.compactCodec World.counting
        (saidReply (some ⟨.gemini, "c2ln"⟩)) .claude).1.toValue ≠
      JsonText.compactCodec.toText (buildResponse JsonText.compactCodec World.counting
        (saidReply none) .claude).1.toValue :=
  ⟨rfl, by decide +kernel⟩

end AnyConverter
