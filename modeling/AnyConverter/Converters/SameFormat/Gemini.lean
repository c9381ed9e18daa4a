import AnyConverter.Formats.Gemini.Read
import AnyConverter.Formats.Gemini.Build

/-!
# A Gemini request, read and built and read again

* `readPart_buildPart`, `backPart_eq_iff`: what becomes of a part;
* `read_build_iff`: which requests come back.
-/

set_option autoImplicit false

namespace AnyConverter

/-- A text is printed in quotes, so it gets longer. -/
def QuotesTexts (codec : JsonCodec) : Prop :=
  ∀ text : String, text.length < (codec.toText (.string text)).length

namespace Gemini

open Transducer

/-! ## Parts the reader gives -/

def OwnSignature (signature : Option Signature) : Prop := ∀ s ∈ signature, s.by_ = .gemini

/-- A part the reader gives in a message of a role. -/
def Readable (role : Role) : IrPart → Prop
  | .text text signature => text ≠ "" ∧ OwnSignature signature
  | .thinking text signature => text ≠ "" ∧ OwnSignature signature
  | .image url mediaType data detail =>
    role = .user ∧ detail = none ∧
      ∃ payload, data = some payload ∧ url = "data:" ++ mediaType ++ ";base64," ++ payload
  | .toolCall _ _ _ signature => role = .assistant ∧ OwnSignature signature
  | .toolResult _ _ content => role = .user ∧ ∃ text, content = [.plain text]
  | .sealed _ _ => False

theorem ownSignature_partSignature (part : GeminiPart) : OwnSignature (partSignature part) := by
  intro s hs
  obtain ⟨value, -, rfl⟩ := Option.map_eq_some_iff.mp hs
  rfl

theorem readable_textPart (role : Role) (part : GeminiPart) :
    ∀ p ∈ textPart part, Readable role p := by
  intro p hp
  unfold textPart at hp
  split at hp
  · split at hp
    · cases hp
    · rename_i hne
      split at hp
      · rw [List.mem_singleton] at hp
        subst hp
        exact ⟨hne, ownSignature_partSignature part⟩
      · rw [List.mem_singleton] at hp
        subst hp
        exact ⟨hne, ownSignature_partSignature part⟩
  · cases hp

theorem readable_readPart (codec : JsonCodec) (role : Role) (w : World) (part : GeminiPart) :
    ∀ p ∈ (readPart codec role w part).1, Readable role p := by
  intro p hp
  unfold readPart at hp
  split at hp
  · cases role with
    | user =>
      rw [List.mem_singleton] at hp
      subst hp
      exact ⟨rfl, _, rfl⟩
    | assistant => cases hp
  · cases role with
    | assistant =>
      rcases List.mem_append.mp hp with htext | hcall
      · exact readable_textPart .assistant part p htext
      · unfold readFunctionCall at hcall
        split at hcall
        · rw [List.mem_singleton] at hcall
          subst hcall
          exact ⟨rfl, ownSignature_partSignature part⟩
        · cases hcall
    | user =>
      rcases List.mem_append.mp hp with htext | himage
      · exact readable_textPart .user part p htext
      · rw [Option.mem_toList] at himage
        obtain ⟨inline, -, rfl⟩ := Option.map_eq_some_iff.mp himage
        exact ⟨rfl, rfl, _, rfl, rfl⟩

/-- A message the reader gives: it has parts, and its results stand above the others. -/
structure ReadMessage (m : IrMessage) : Prop where
  parts_ne : m.parts ≠ []
  readable : ∀ p ∈ m.parts, Readable m.role p
  hoisted : hoistResults m.parts = m.parts

theorem hoistResults_hoistResults (parts : List IrPart) :
    hoistResults (hoistResults parts) = hoistResults parts := by
  unfold hoistResults
  rw [List.filter_append, List.filter_append, List.filter_filter, List.filter_filter,
    List.filter_filter, List.filter_filter]
  simp

theorem mem_hoistResults {parts : List IrPart} {p : IrPart} :
    p ∈ hoistResults parts ↔ p ∈ parts := by
  unfold hoistResults
  rw [List.mem_append, List.mem_filter, List.mem_filter]
  cases isToolResult p <;> simp

theorem readMessage_spec (codec : JsonCodec) (w : World) (content : GeminiContent) :
    ∀ m ∈ (readMessage codec w content).1, ReadMessage m := by
  intro m hm
  unfold readMessage at hm
  dsimp only at hm
  split at hm
  · cases hm
  · rename_i hne
    rw [List.mem_singleton] at hm
    subst hm
    obtain ⟨first, hfirst⟩ := List.exists_mem_of_ne_nil _ hne
    refine ⟨List.ne_nil_of_mem (mem_hoistResults.mpr hfirst), ?_, hoistResults_hoistResults _⟩
    intro p hp
    obtain ⟨_, part, _, -, hpart⟩ := (mem_outputs_iff _).mp (mem_hoistResults.mp hp)
    exact readable_readPart codec _ _ part p hpart

/-! ## Parts that come back -/

/-- What the reader makes of a part that was built. -/
def backPart (codec : JsonCodec) : IrPart → IrPart
  | .thinking text none => .plain text
  | .toolResult callId _ content =>
    .toolResult callId false
      [.plain (codec.toText (.string (String.join (content.filterMap irText))))]
  | .image url _ _ _ =>
    match parseDataUrl url with
    | some (found, payload) =>
      .image ("data:" ++ found ++ ";base64," ++ payload) found (some payload) none
    | none => .plain url
  | part => part

/-- A part that comes back: no tool result, no thinking nobody signed, no image whose media type
has parameters. -/
def PartReturns : IrPart → Prop
  | .toolResult _ _ _ => False
  | .thinking _ signature => signature.isSome = true
  | .image _ mediaType _ _ => ';' ∉ mediaType.toList
  | _ => True

theorem geminiSignature_own {signature : Option Signature} (h : OwnSignature signature) :
    geminiSignature signature = signature.map Signature.value := by
  cases signature with
  | none => rfl
  | some s =>
    have hby := h s rfl
    simp [geminiSignature, hby]

theorem map_signature_own {signature : Option Signature} (h : OwnSignature signature) :
    (signature.map Signature.value).map (fun value => (⟨.gemini, value⟩ : Signature)) = signature := by
  cases signature with
  | none => rfl
  | some s =>
    obtain ⟨by_, value⟩ := s
    obtain rfl : by_ = .gemini := h _ rfl
    rfl

/-- A part with nothing but a text gives its text. -/
theorem readPart_of_text (codec : JsonCodec) (role : Role) (w : World) {part : GeminiPart}
    (hresponse : part.functionResponse = none) (hcall : part.functionCall = none)
    (hinline : part.inlineData = none) : readPart codec role w part = (textPart part, w) := by
  unfold readPart
  rw [hresponse]
  cases role with
  | user =>
    dsimp only
    rw [hinline]
    simp
  | assistant =>
    unfold readFunctionCall
    rw [hcall]
    simp

theorem parseDataUrl_plain {mediaType : String} (h : ';' ∉ mediaType.toList) (payload : String) :
    parseDataUrl ("data:" ++ mediaType ++ ";base64," ++ payload) = some (mediaType, payload) := by
  have hurl : "data:" ++ mediaType ++ ";base64," ++ payload =
      "data:" ++ (mediaType ++ ";" ++ ("base64," ++ payload)) := by
    apply String.toList_inj.mp
    simp
  unfold parseDataUrl
  rw [hurl, Text.stripPrefix_append]
  dsimp only
  have hsplit := Text.splitOnce_char h ("base64," ++ payload)
  rw [show (";" : String) = String.singleton ';' from rfl, hsplit]
  dsimp only
  rw [Text.stripPrefix_append]
  rfl

/-- A media type with parameters is cut at the first of them. -/
theorem mediaType_of_parseDataUrl {url found payload : String}
    (h : parseDataUrl url = some (found, payload)) : ';' ∉ found.toList := by
  unfold parseDataUrl at h
  split at h
  · cases h
  · split at h
    · cases h
    · rename_i rest hrest mime tail hsplit
      obtain ⟨_, -, heq⟩ := Option.map_eq_some_iff.mp h
      obtain ⟨rfl, rfl⟩ := Prod.mk.inj heq
      exact Text.not_mem_of_splitOnce hsplit

theorem readPart_buildPart (codec : JsonCodec) {role : Role} (w : World) {part : IrPart}
    (h : Readable role part) : ∃ built, buildPart part = some built ∧
      readPart codec role w built = ([backPart codec part], w) := by
  cases part with
  | text text signature =>
    obtain ⟨hne, hown⟩ := h
    refine ⟨(GeminiPart.ofText text).withThoughtSignature (geminiSignature signature), ?_, ?_⟩
    · rw [buildPart, if_neg hne]
    · rw [readPart_of_text codec role w rfl rfl rfl, geminiSignature_own hown]
      simp [textPart, GeminiPart.ofText, GeminiPart.withThoughtSignature, hne, partSignature,
        map_signature_own hown, backPart]
  | thinking text signature =>
    obtain ⟨hne, hown⟩ := h
    refine ⟨thinkingPart text signature, ?_, ?_⟩
    · rw [buildPart, if_neg hne]
    · unfold thinkingPart
      rw [geminiSignature_own hown]
      cases signature with
      | none =>
        rw [Option.map_none]
        dsimp only
        rw [readPart_of_text codec role w rfl rfl rfl]
        simp [textPart, GeminiPart.ofText, hne, partSignature, IrPart.plain, backPart]
      | some s =>
        obtain ⟨by_, value⟩ := s
        obtain rfl : by_ = .gemini := hown _ rfl
        rw [Option.map_some]
        dsimp only
        rw [readPart_of_text codec role w rfl rfl rfl]
        simp [textPart, GeminiPart.thinking, GeminiPart.ofText, GeminiPart.withThoughtSignature,
          hne, partSignature, backPart]
  | image url mediaType data detail =>
    obtain ⟨rfl, rfl, payload, rfl, rfl⟩ := h
    refine ⟨imagePart _, rfl, ?_⟩
    unfold imagePart
    cases hparse : parseDataUrl ("data:" ++ mediaType ++ ";base64," ++ payload) with
    | none =>
      dsimp only
      rw [readPart_of_text codec .user w rfl rfl rfl]
      simp [textPart, GeminiPart.ofText, partSignature, IrPart.plain, backPart, hparse]
    | some found =>
      obtain ⟨mime, data⟩ := found
      simp only [backPart, hparse]
      rfl
  | toolCall id name args signature =>
    obtain ⟨rfl, hown⟩ := h
    refine ⟨(GeminiPart.functionCallWithId name args id).withThoughtSignature
      (geminiSignature signature), rfl, ?_⟩
    rw [geminiSignature_own hown]
    simp [readPart, readFunctionCall, textPart, GeminiPart.functionCallWithId,
      GeminiPart.withThoughtSignature, idOrNew, partSignature, map_signature_own hown, backPart]
  | toolResult callId isError content =>
    obtain ⟨rfl, text, rfl⟩ := h
    exact ⟨_, rfl, rfl⟩
  | «sealed» by_ raw => exact h.elim

theorem backPart_eq_iff {codec : JsonCodec} (hquotes : QuotesTexts codec) {role : Role}
    {part : IrPart} (h : Readable role part) : backPart codec part = part ↔ PartReturns part := by
  cases part with
  | text text signature => exact iff_of_true rfl trivial
  | toolCall id name args signature => exact iff_of_true rfl trivial
  | «sealed» by_ raw => exact h.elim
  | thinking text signature =>
    cases signature with
    | none => exact iff_of_false (fun heq => by cases heq) Bool.false_ne_true
    | some s => exact iff_of_true rfl rfl
  | toolResult callId isError content =>
    obtain ⟨rfl, text, rfl⟩ := h
    have hjoin : String.join ([IrPart.plain text].filterMap irText) = text := by
      simp [irText, IrPart.plain, String.join]
    refine iff_of_false ?_ (fun hfalse => hfalse)
    intro heq
    simp only [backPart, hjoin] at heq
    simp only [IrPart.toolResult.injEq, List.cons.injEq, IrPart.plain, IrPart.text.injEq] at heq
    have hlonger := hquotes text
    rw [heq.2.2.1.1] at hlonger
    exact Nat.lt_irrefl _ hlonger
  | image url mediaType data detail =>
    obtain ⟨rfl, rfl, payload, rfl, rfl⟩ := h
    simp only [backPart, PartReturns]
    constructor
    · intro heq
      split at heq
      · rename_i found data hparse
        simp only [IrPart.image.injEq] at heq
        exact heq.2.1 ▸ mediaType_of_parseDataUrl hparse
      · cases heq
    · intro hplain
      rw [parseDataUrl_plain hplain]

theorem isToolResult_backPart (codec : JsonCodec) (part : IrPart) :
    isToolResult (backPart codec part) = isToolResult part := by
  cases part with
  | thinking text signature => cases signature <;> rfl
  | image url mediaType data detail =>
    simp only [backPart]
    split <;> rfl
  | text text signature => rfl
  | toolCall id name args signature => rfl
  | toolResult callId isError content => rfl
  | «sealed» by_ raw => rfl

/-! ## Messages -/

theorem run_readPart (codec : JsonCodec) {role : Role} (w : World) {parts : List IrPart}
    (h : ∀ p ∈ parts, Readable role p) :
    run (readPart codec role) w (parts.filterMap buildPart) = (parts.map (backPart codec), w) := by
  induction parts with
  | nil => rfl
  | cons part parts ih =>
    obtain ⟨built, hbuilt, hread⟩ := readPart_buildPart codec w (h part List.mem_cons_self)
    have hrest := ih fun p hp => h p (List.mem_cons_of_mem _ hp)
    rw [List.filterMap_cons, hbuilt]
    dsimp only
    rw [run, hread]
    dsimp only
    rw [hrest]
    rfl

theorem hoistResults_map (codec : JsonCodec) (parts : List IrPart) :
    hoistResults (parts.map (backPart codec)) = (hoistResults parts).map (backPart codec) := by
  unfold hoistResults
  rw [List.filter_map, List.filter_map, List.map_append]
  congr 2
  · exact congrArg (parts.filter ·) (funext (isToolResult_backPart codec))
  · exact congrArg (parts.filter ·) (funext fun p => by
      rw [Function.comp_apply, isToolResult_backPart])

theorem readMessage_buildMessage (codec : JsonCodec) (w : World) {m : IrMessage}
    (h : ReadMessage m) :
    readMessage codec w (buildMessage m) = ([⟨m.role, m.parts.map (backPart codec)⟩], w) := by
  have hrole : readRole (buildMessage m).role = m.role := by
    obtain ⟨role, parts⟩ := m
    cases role <;> rfl
  have hrun : run (readPart codec m.role) w (buildMessage m).parts =
      (m.parts.map (backPart codec), w) := run_readPart codec w h.readable
  unfold readMessage
  dsimp only
  rw [hrole, hrun]
  dsimp only
  rw [if_neg (by simpa using h.parts_ne), hoistResults_map, h.hoisted]

theorem run_readMessage (codec : JsonCodec) (w : World) {messages : List IrMessage}
    (h : ∀ m ∈ messages, ReadMessage m) :
    run (readMessage codec) w (messages.map buildMessage) =
      (messages.map fun m => ⟨m.role, m.parts.map (backPart codec)⟩, w) := by
  induction messages with
  | nil => rfl
  | cons m messages ih =>
    have hrest := ih fun m hm => h m (List.mem_cons_of_mem _ hm)
    rw [List.map_cons, run, readMessage_buildMessage codec w (h m List.mem_cons_self)]
    dsimp only
    rw [hrest]
    rfl

theorem messages_back_iff {codec : JsonCodec} (hquotes : QuotesTexts codec)
    {messages : List IrMessage} (h : ∀ m ∈ messages, ReadMessage m) :
    (messages.map fun m => (⟨m.role, m.parts.map (backPart codec)⟩ : IrMessage)) = messages ↔
      ∀ m ∈ messages, ∀ p ∈ m.parts, PartReturns p := by
  have hid := @List.map_inj_left _ _ messages
    (fun m => (⟨m.role, m.parts.map (backPart codec)⟩ : IrMessage)) id
  rw [List.map_id] at hid
  rw [hid]
  refine forall_congr' fun m => forall_congr' fun hm => ?_
  have hparts := @List.map_inj_left _ _ m.parts (backPart codec) id
  rw [List.map_id] at hparts
  have hmessage : (⟨m.role, m.parts.map (backPart codec)⟩ : IrMessage) = id m ↔
      m.parts.map (backPart codec) = m.parts := by
    obtain ⟨role, parts⟩ := m
    simp
  rw [hmessage, hparts]
  exact forall_congr' fun p => forall_congr' fun hp =>
    backPart_eq_iff hquotes ((h m hm).readable p hp)

/-! ## The other fields -/

/-- A tool choice that is not said is Gemini's own default. -/
def fillDefaults (ir : IrRequest) : IrRequest :=
  { ir with toolChoice := some (ir.toolChoice.getD .auto) }

theorem readSystem_buildSystem (content : Option GeminiContent) :
    ((buildSystem ((content.map readSystem).getD [])).map readSystem).getD [] =
      (content.map readSystem).getD [] := by
  cases content with
  | none => rfl
  | some content =>
    show ((buildSystem (readSystem content)).map readSystem).getD [] = readSystem content
    unfold readSystem
    dsimp only
    generalize String.join (content.parts.filterMap GeminiPart.text) = text
    by_cases hempty : text = ""
    · rw [if_pos hempty]
      rfl
    · rw [if_neg hempty]
      have hpart : [IrPart.plain text].filterMap systemPart = [GeminiPart.ofText text] := by
        simp [systemPart, irText, IrPart.plain, hempty]
      have hjoin : String.join ([GeminiPart.ofText text].filterMap GeminiPart.text) = text := by
        simp [GeminiPart.ofText, String.join]
      unfold buildSystem
      rw [hpart]
      simp [hjoin, hempty]

theorem tools_read_build (functions : List GeminiFunctionDeclaration) :
    let tools := functions.map readTool
    (((buildTools tools).getD []).flatMap (·.functionDeclarations)).map readTool = tools := by
  have hback : ∀ fd : GeminiFunctionDeclaration, readTool (buildTool (readTool fd)) = readTool fd := by
    intro fd
    unfold readTool buildTool
    dsimp only
    by_cases hempty : fd.description.getD "" = ""
    · simp [hempty]
    · simp [hempty]
  cases functions with
  | nil => rfl
  | cons first rest => simp [buildTools, hback]

/-- A choice comes back, save that an automatic one is left out where no tool could be called. -/
theorem toolChoice_read_build (choice : Option IrToolChoice) (hasTools : Bool) :
    (((buildToolConfig choice hasTools).map readToolChoice).getD .auto) = choice.getD .auto := by
  cases choice with
  | none => rfl
  | some choice =>
    cases choice with
    | auto =>
      cases hasTools <;>
        simp [buildToolConfig, callingConfig, readToolChoice, allowedNames, Value.get,
          List.lookup_cons, Value.asStr]
    | none =>
      simp [buildToolConfig, callingConfig, readToolChoice, allowedNames, Value.get,
        List.lookup_cons, Value.asStr]
    | required =>
      simp [buildToolConfig, callingConfig, readToolChoice, allowedNames, Value.get,
        List.lookup_cons, Value.asStr]
    | named name =>
      simp [buildToolConfig, callingConfig, readToolChoice, allowedNames, Value.get, Value.asStr,
        Value.asArray]

/-- A configuration that is left out says nothing. -/
theorem readSampling_getD (config : Option GeminiGenerationConfig) :
    (config.map readSampling).getD {} = readSampling (config.getD emptyConfig) := by
  cases config <;> rfl

theorem readExtra_getD (config : Option GeminiGenerationConfig) :
    (config.map readExtra).getD {} = readExtra (config.getD emptyConfig) := by
  cases config <;> rfl

/-- What a body says in numbers of a fixed width. -/
def InRange (req : GeminiRequest) : Prop :=
  ∀ g ∈ req.generationConfig, ∀ i ∈ g.seed, -(2 ^ 63) ≤ i ∧ i < 2 ^ 63

theorem inRange_ofValue {body : Value} {req : GeminiRequest}
    (h : GeminiRequest.ofValue body = some req) : InRange req := by
  cases body with
  | object obj =>
    simp only [GeminiRequest.ofValue, Option.bind_eq_bind, Option.bind_eq_some_iff,
      Option.pure_def, Option.some.injEq] at h
    obtain ⟨_, -, _, -, _, -, config, hconfig, _, -, _, -, rfl⟩ := h
    intro g hg i hi
    obtain rfl := hg
    obtain ⟨v, hv⟩ := Serde.of_optional hconfig
    cases v with
    | object fields =>
      simp only [GeminiGenerationConfig.ofValue, Option.bind_eq_bind, Option.bind_eq_some_iff,
        Option.pure_def, Option.some.injEq] at hv
      obtain ⟨_, -, _, -, _, -, _, -, _, -, seed, hseed, _, -, _, -, rfl⟩ := hv
      obtain rfl := hi
      obtain ⟨_, hrange⟩ := Serde.of_optional hseed
      exact Serde.i64_range hrange
    | _ => cases hv
  | _ => cases h

theorem lastOf_readExtra (g : GeminiGenerationConfig) :
    lastOf ((readExtra g).take .gemini) "seed" = g.seed.map (fun i => .number (.int i)) ∧
      lastOf ((readExtra g).take .gemini) "responseMimeType" = g.responseMimeType.map .string ∧
      lastOf ((readExtra g).take .gemini) "responseSchema" = g.responseSchema := by
  unfold readExtra
  dsimp only
  cases g.seed <;> cases g.responseMimeType <;> cases g.responseSchema <;>
    simp [NamespacedExtra.putOption, NamespacedExtra.put, NamespacedExtra.putField,
      NamespacedExtra.take, lastOf, passlist, List.lookup_cons]

/-- The configuration that is built reads as the one that was read. -/
theorem config_read_build {g : GeminiGenerationConfig}
    (h : ∀ i ∈ g.seed, -(2 ^ 63) ≤ i ∧ i < 2 ^ 63) :
    let built := buildGenerationConfig (readSampling g) ((readExtra g).take .gemini)
    readSampling (built.getD emptyConfig) = readSampling g ∧
      readExtra (built.getD emptyConfig) = readExtra g := by
  obtain ⟨hseed, hmime, hschema⟩ := lastOf_readExtra g
  have hseed' : (lastOf ((readExtra g).take .gemini) "seed").bind Value.asI64 = g.seed := by
    rw [hseed]
    cases hvalue : g.seed with
    | none => rfl
    | some i =>
      show Value.asI64 (.number (.int i)) = some i
      rw [Value.asI64, if_pos (h i hvalue)]
  have hmime' : (lastOf ((readExtra g).take .gemini) "responseMimeType").bind Value.asStr =
      g.responseMimeType := by
    rw [hmime]
    cases g.responseMimeType <;> rfl
  intro built
  have hconfig : built.getD emptyConfig =
      { g with stopSequences := if g.stopSequences.getD [] = [] then none
          else some (g.stopSequences.getD []) } := by
    show (buildGenerationConfig (readSampling g) ((readExtra g).take .gemini)).getD emptyConfig = _
    have hleft : ∀ c : GeminiGenerationConfig,
        (if c = emptyConfig then none else some c).getD emptyConfig = c := by
      intro c
      split
      · rename_i hempty
        exact hempty.symm
      · rfl
    unfold buildGenerationConfig
    dsimp only
    rw [hleft, hseed', hmime', hschema]
    rfl
  rw [hconfig]
  refine ⟨?_, rfl⟩
  unfold readSampling
  dsimp only
  by_cases hstop : g.stopSequences.getD [] = []
  · rw [if_pos hstop, hstop]
    rfl
  · rw [if_neg hstop]
    rfl

/-! ## The request -/

theorem readMessages_spec (codec : JsonCodec) (w : World) (req : GeminiRequest) :
    ∀ m ∈ (read codec w req).1.messages, ReadMessage m := by
  intro m hm
  obtain ⟨_, content, _, -, hread⟩ := (mem_outputs_iff (readMessage codec)).mp hm
  exact readMessage_spec codec _ content m hread

/-- **Which requests come back, whatever identifiers are drawn: those whose parts do.** -/
theorem read_build_iff {codec : JsonCodec} (hquotes : QuotesTexts codec) {req : GeminiRequest}
    (hrange : InRange req) (w w' : World) :
    fillDefaults (read codec w' (build (read codec w req).1)).1 =
        fillDefaults (read codec w req).1 ↔
      ∀ m ∈ (read codec w req).1.messages, ∀ p ∈ m.parts, PartReturns p := by
  have hspec := readMessages_spec codec w req
  have hmessages : (read codec w' (build (read codec w req).1)).1.messages =
      (read codec w req).1.messages.map fun m => ⟨m.role, m.parts.map (backPart codec)⟩ :=
    congrArg Prod.fst (run_readMessage codec w' hspec)
  have hconfig : (read codec w req).1.sampling =
        readSampling (req.generationConfig.getD emptyConfig) ∧
      (read codec w req).1.extra = readExtra (req.generationConfig.getD emptyConfig) :=
    ⟨readSampling_getD _, readExtra_getD _⟩
  have hbuilt := @config_read_build (req.generationConfig.getD emptyConfig) (by
    cases hg : req.generationConfig with
    | none =>
      intro i hi
      cases hi
    | some g => exact hrange g hg)
  have hsampling : (read codec w' (build (read codec w req).1)).1.sampling =
      (read codec w req).1.sampling := by
    show ((buildGenerationConfig (read codec w req).1.sampling
      ((read codec w req).1.extra.take .gemini)).map readSampling).getD {} = _
    rw [readSampling_getD, hconfig.1, hconfig.2]
    exact hbuilt.1
  have hextra : (read codec w' (build (read codec w req).1)).1.extra =
      (read codec w req).1.extra := by
    show ((buildGenerationConfig (read codec w req).1.sampling
      ((read codec w req).1.extra.take .gemini)).map readExtra).getD {} = _
    rw [readExtra_getD, hconfig.1, hconfig.2]
    exact hbuilt.2
  rw [IrRequest.eq_iff]
  constructor
  · rintro ⟨-, -, hm, -⟩
    have hsame : (read codec w' (build (read codec w req).1)).1.messages =
        (read codec w req).1.messages := hm
    rw [hmessages] at hsame
    exact (messages_back_iff hquotes hspec).mp hsame
  · intro hall
    have hsame := (messages_back_iff hquotes hspec).mpr hall
    rw [← hmessages] at hsame
    exact ⟨rfl, readSystem_buildSystem _, hsame, tools_read_build _,
      congrArg some (toolChoice_read_build _ _), hsampling, rfl, rfl, hextra⟩

end Gemini

end AnyConverter
