import AnyConverter.Formats.Gemini.Build

/-!
# The names of Gemini's answers

A `functionResponse` names its function, a tool result only the id of its call.  The builder does not
look the call up: it writes one name.

* `calls_build`, `responses_build`: the calls and the answers of a request that was built;
* `names_iff`: where every answer has the name of its call.
-/

set_option autoImplicit false

namespace AnyConverter.Gemini

/-! ## Calls and answers -/

/-- The parts of a request, in order. -/
def history (ir : IrRequest) : List IrPart := ir.messages.flatMap IrMessage.parts

/-- Every tool result answers a call before it. -/
def AnswersEarlier (parts : List IrPart) : Prop :=
  ∀ pre callId isError content post, parts = pre ++ .toolResult callId isError content :: post →
    ∃ name args signature, .toolCall callId name args signature ∈ pre

def builtParts (req : GeminiRequest) : List GeminiPart := req.contents.flatMap GeminiContent.parts

def builtCalls (req : GeminiRequest) : List GeminiFunctionCall :=
  (builtParts req).filterMap GeminiPart.functionCall

def builtResponses (req : GeminiRequest) : List GeminiFunctionResponse :=
  (builtParts req).filterMap GeminiPart.functionResponse

/-- Every answer has a call of its id, and the name of that call. -/
def CarriesNames (req : GeminiRequest) : Prop :=
  ∀ fr ∈ builtResponses req, (∃ fc ∈ builtCalls req, fc.id = fr.id) ∧
    ∀ fc ∈ builtCalls req, fc.id = fr.id → fr.name = fc.name

/-- Every call that was answered is called `function`. -/
def AnsweredNamedFunction (parts : List IrPart) : Prop :=
  ∀ id name args signature isError content, .toolCall id name args signature ∈ parts →
    .toolResult id isError content ∈ parts → name = "function"

/-! ## What is built -/

theorem builtParts_build (ir : IrRequest) :
    builtParts (build ir) = (history ir).filterMap buildPart := by
  unfold builtParts history build
  rw [List.flatMap_map, List.filterMap_flatMap]
  rfl

def toolCallOf : IrPart → Option GeminiFunctionCall
  | .toolCall id name args _ => some ⟨name, args, some id⟩
  | _ => none

/-- The answer of a tool result, under the one name. -/
def toolResponseOf : IrPart → Option GeminiFunctionResponse
  | .toolResult callId _ content => some ⟨"function",
      .object [("result", .string (String.join (content.filterMap irText)))], some callId⟩
  | _ => none

/-- Calls become calls, results answers, and no other part has either. -/
theorem tools_buildPart (part : IrPart) :
    (buildPart part).bind GeminiPart.functionCall = toolCallOf part ∧
      (buildPart part).bind GeminiPart.functionResponse = toolResponseOf part := by
  cases part with
  | text text signature => by_cases h : text = "" <;> simp only [buildPart, h] <;> exact ⟨rfl, rfl⟩
  | thinking text signature =>
    by_cases h : text = ""
    · simp only [buildPart, h]
      exact ⟨rfl, rfl⟩
    · simp only [buildPart, if_neg h, thinkingPart]
      cases geminiSignature signature <;> exact ⟨rfl, rfl⟩
  | image url mediaType data detail =>
    simp only [buildPart, imagePart]
    cases parseDataUrl url <;> exact ⟨rfl, rfl⟩
  | _ => exact ⟨rfl, rfl⟩

theorem calls_build (ir : IrRequest) :
    builtCalls (build ir) = (history ir).filterMap toolCallOf := by
  rw [builtCalls, builtParts_build, List.filterMap_filterMap]
  exact List.filterMap_congr fun part _ => (tools_buildPart part).1

theorem responses_build (ir : IrRequest) :
    builtResponses (build ir) = (history ir).filterMap toolResponseOf := by
  rw [builtResponses, builtParts_build, List.filterMap_filterMap]
  exact List.filterMap_congr fun part _ => (tools_buildPart part).2

theorem mem_calls_build {ir : IrRequest} {fc : GeminiFunctionCall} :
    fc ∈ builtCalls (build ir) ↔ ∃ id name args signature,
      .toolCall id name args signature ∈ history ir ∧ fc = ⟨name, args, some id⟩ := by
  rw [calls_build, List.mem_filterMap]
  constructor
  · rintro ⟨part, hmem, hfc⟩
    cases part with
    | toolCall id name args signature => exact ⟨id, name, args, signature, hmem, (Option.some.inj hfc).symm⟩
    | _ => cases hfc
  · rintro ⟨id, name, args, signature, hmem, rfl⟩
    exact ⟨_, hmem, rfl⟩

theorem mem_responses_build {ir : IrRequest} {fr : GeminiFunctionResponse} :
    fr ∈ builtResponses (build ir) ↔ ∃ callId isError content,
      .toolResult callId isError content ∈ history ir ∧
        toolResponseOf (.toolResult callId isError content) = some fr := by
  rw [responses_build, List.mem_filterMap]
  constructor
  · rintro ⟨part, hmem, hfr⟩
    cases part with
    | toolResult callId isError content => exact ⟨callId, isError, content, hmem, hfr⟩
    | _ => cases hfr
  · rintro ⟨callId, isError, content, hmem, hfr⟩
    exact ⟨_, hmem, hfr⟩

/-- Every answer has the name of its call just where every call that was answered is called
`function`. -/
theorem names_iff {ir : IrRequest} (h : AnswersEarlier (history ir)) :
    CarriesNames (build ir) ↔ AnsweredNamedFunction (history ir) := by
  constructor
  · intro hnames id name args signature isError content hcall hresult
    have hfr := mem_responses_build.mpr ⟨id, isError, content, hresult, rfl⟩
    have hfc := mem_calls_build.mpr ⟨id, name, args, signature, hcall, rfl⟩
    exact ((hnames _ hfr).2 _ hfc rfl).symm
  · intro hfunction fr hfr
    obtain ⟨callId, isError, content, hresult, heq⟩ := mem_responses_build.mp hfr
    obtain rfl := Option.some.inj heq
    constructor
    · obtain ⟨pre, post, hsplit⟩ := List.append_of_mem hresult
      obtain ⟨name, args, signature, hcall⟩ := h pre callId isError content post hsplit
      have hmem : .toolCall callId name args signature ∈ history ir :=
        hsplit ▸ List.mem_append_left _ hcall
      exact ⟨_, mem_calls_build.mpr ⟨callId, name, args, signature, hmem, rfl⟩, rfl⟩
    · intro fc hfc hid
      obtain ⟨id, name, args, signature, hcall, rfl⟩ := mem_calls_build.mp hfc
      obtain rfl : id = callId := Option.some.inj hid
      exact (hfunction id name args signature isError content hcall hresult).symm

/-- A call and its result. -/
def asked (name : String) : IrRequest where
  model := "m"
  messages := [⟨.assistant, [.toolCall "call_1" name (.object []) none]⟩,
    ⟨.user, [.toolResult "call_1" false [.plain "found"]]⟩]

theorem asked_answersEarlier (name : String) : AnswersEarlier (history (asked name)) := by
  intro pre callId isError content post hsplit
  rcases pre with _ | ⟨part, _ | ⟨part', pre⟩⟩
  · cases (List.cons.inj hsplit).1
  · obtain ⟨rfl, hrest⟩ := List.cons.inj hsplit
    obtain ⟨rfl, -, -⟩ := IrPart.toolResult.inj (List.cons.inj hrest).1
    exact ⟨name, _, _, List.mem_cons_self⟩
  · obtain ⟨-, hrest⟩ := List.cons.inj hsplit
    cases (List.append_eq_nil_iff.mp (List.cons.inj hrest).2.symm).2

theorem names_function : CarriesNames (build (asked "function")) := by
  refine (names_iff (asked_answersEarlier "function")).mpr ?_
  intro id name args signature isError content hcall _
  rcases List.mem_pair.mp hcall with hcall | hcall
  · exact (IrPart.toolCall.inj hcall).2.1
  · cases hcall

/-- The answer to another function is named `function` all the same. -/
theorem search_misnamed :
    AnswersEarlier (history (asked "search")) ∧
      (builtCalls (build (asked "search"))).map GeminiFunctionCall.name = ["search"] ∧
      (builtResponses (build (asked "search"))).map GeminiFunctionResponse.name = ["function"] ∧
      ¬ CarriesNames (build (asked "search")) := by
  refine ⟨asked_answersEarlier "search", rfl, rfl, fun hnames => ?_⟩
  have hresult : IrPart.toolResult "call_1" false [.plain "found"] ∈ history (asked "search") :=
    List.mem_cons_of_mem _ List.mem_cons_self
  have hcall : IrPart.toolCall "call_1" "search" (.object []) none ∈ history (asked "search") :=
    List.mem_cons_self
  have hfr := mem_responses_build.mpr ⟨_, _, _, hresult, rfl⟩
  have hfc := mem_calls_build.mpr ⟨_, _, _, _, hcall, rfl⟩
  have hname := (hnames _ hfr).2 _ hfc rfl
  exact absurd hname (by decide)

end AnyConverter.Gemini
