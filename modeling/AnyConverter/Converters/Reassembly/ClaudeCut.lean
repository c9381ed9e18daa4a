import AnyConverter.Converters.Reassembly.Client
import AnyConverter.Formats.OpenAIResp.Items

/-!
# Cutting a Claude reply

A Claude reply streams block after block, each as a start, deltas that add up to it, and a stop.
Pings may come anywhere.

* `BlocksSaid`: the canonical events of such a body;
* `outputs_claude`: the reader makes of the stream a start, those events, and the end.
-/

set_option autoImplicit false

namespace AnyConverter

open Transducer CanonicalStreamEvent
open OpenAIResponses (IsBody textOf signatureOf)

/-- The reasoning an event adds. -/
def CanonicalStreamEvent.thinkingOf : CanonicalStreamEvent → String
  | thinkingDelta t => t
  | _ => ""

namespace Claude

/-! ## Blocks -/

/-- The argument text of a call reads as its input; a call without arguments may send no text. -/
def ReadsAs (codec : JsonCodec) (input : Value) (text : String) : Prop :=
  (text = "" ∧ input = .object []) ∨ codec.fromStr text = some input

/-- What a delta adds to a thinking block and to its signature. -/
def ClaudeStreamDelta.thinking : ClaudeStreamDelta → String
  | .thinkingDelta t => t
  | _ => ""

def ClaudeStreamDelta.signature : ClaudeStreamDelta → String
  | .signatureDelta s => s
  | _ => ""

/-- The deltas of a thinking block. -/
def ClaudeStreamDelta.OfThinking (delta : ClaudeStreamDelta) : Prop :=
  (∃ t, delta = .thinkingDelta t) ∨ ∃ s, delta = .signatureDelta s

/-- The events of one block: its start, deltas that add up to it, its stop. -/
inductive BlockCut (codec : JsonCodec) (index : Nat) : ClaudeContentBlock → List Upstream → Prop
  | text (pieces : List String) {text : String} (hpieces : String.join pieces = text) :
    BlockCut codec index (.text text) (.contentBlockStart index (.text "") ::
      pieces.map (fun t => .contentBlockDelta index (.textDelta t)) ++ [.contentBlockStop])
  | toolUse (id name : String) (opening : Value) (pieces : List String) {input : Value}
      (hpieces : ReadsAs codec input (String.join pieces)) :
    BlockCut codec index (.toolUse id name input)
      (.contentBlockStart index (.toolUse id name opening) ::
        pieces.map (fun t => .contentBlockDelta index (.inputJsonDelta t)) ++ [.contentBlockStop])
  | thinking (opening : Option String) (hopening : opening.getD "" = "")
      (deltas : List ClaudeStreamDelta) (hdeltas : ∀ d ∈ deltas, d.OfThinking) {thinking : String}
      {signature : Option String}
      (hthinking : String.join (deltas.map ClaudeStreamDelta.thinking) = thinking)
      (hsignature : String.join (deltas.map ClaudeStreamDelta.signature) = signature.getD "") :
    BlockCut codec index (.thinking thinking signature)
      (.contentBlockStart index (.thinking "" opening) ::
        deltas.map (.contentBlockDelta index) ++ [.contentBlockStop])
  | redactedThinking (raw : Value) {data : String} (hraw : raw.get "data" = some (.string data)) :
    BlockCut codec index (.redactedThinking data)
      [.sealedBlockStart index raw, .contentBlockStop]

/-- The events of the blocks from an index on. -/
inductive BlocksCut (codec : JsonCodec) : Nat → List ClaudeContentBlock → List Upstream → Prop
  | nil (index : Nat) : BlocksCut codec index [] []
  | cons {index : Nat} {block : ClaudeContentBlock} {blocks : List ClaudeContentBlock}
      {events rest : List Upstream} (hblock : BlockCut codec index block events)
      (hrest : BlocksCut codec (index + 1) blocks rest) :
    BlocksCut codec index (block :: blocks) (events ++ rest)

/-- A body streams the blocks of a reply, with pings anywhere. -/
def Cut (codec : JsonCodec) (content : List ClaudeContentBlock) (body : List Upstream) : Prop :=
  BlocksCut codec 0 content (body.filter (· ≠ .ping))

/-! ## Canonical events -/

/-- What the reader makes of a block's events, behind `n` calls. -/
inductive BlockSaid (codec : JsonCodec) (n : Nat) :
    ClaudeContentBlock → List CanonicalStreamEvent → Prop
  | text (pieces : List String) {text : String} (hpieces : String.join pieces = text) :
    BlockSaid codec n (.text text) (pieces.map textDelta)
  | toolUse (id name : String) (pieces : List String) {input : Value}
      (hpieces : ReadsAs codec input (String.join pieces)) :
    BlockSaid codec n (.toolUse id name input)
      (toolCallStart n id name none :: pieces.map (toolCallDelta n))
  | thinking (events : List CanonicalStreamEvent)
      (hevents : ∀ e ∈ events, (∃ t, e = thinkingDelta t) ∨ ∃ s, e = thinkingSignature .claude s)
      {thinking : String} {signature : Option String}
      (hthinking : String.join (events.map thinkingOf) = thinking)
      (hsignature : String.join (events.map signatureOf) = signature.getD "") :
    BlockSaid codec n (.thinking thinking signature) events
  | redactedThinking (raw : Value) (data : String) :
    BlockSaid codec n (.redactedThinking data) [sealedThinking .claude raw]

inductive BlocksSaid (codec : JsonCodec) :
    Nat → List ClaudeContentBlock → List CanonicalStreamEvent → Prop
  | nil (n : Nat) : BlocksSaid codec n [] []
  | cons {n : Nat} {block : ClaudeContentBlock} {blocks : List ClaudeContentBlock}
      {events rest : List CanonicalStreamEvent} (hblock : BlockSaid codec n block events)
      (hrest : BlocksSaid codec (n + (blockView.calls block).length) blocks rest) :
    BlocksSaid codec n (block :: blocks) (events ++ rest)

section
variable {codec : JsonCodec}

/-- What the reader makes of a delta, behind `n` calls. -/
def deltaEvent (n : Nat) : ClaudeStreamDelta → CanonicalStreamEvent
  | .textDelta text => textDelta text
  | .inputJsonDelta partialJson => toolCallDelta (n - 1) partialJson
  | .thinkingDelta thinking => thinkingDelta thinking
  | .signatureDelta signature => thinkingSignature .claude signature

/-- The deltas of a block go through one by one; none of them opens a call. -/
theorem run_deltas (index : Nat) (deltas : List ClaudeStreamDelta) (s : AdapterState) :
    outputs parse s (deltas.map (.contentBlockDelta index)) =
        deltas.map (deltaEvent s.toolCallIndex) ∧
      (final parse s (deltas.map (.contentBlockDelta index))).toolCallIndex = s.toolCallIndex := by
  induction deltas generalizing s with
  | nil => exact ⟨rfl, rfl⟩
  | cons d deltas ih =>
    have hevent : (parseContentBlockDelta s index d).1 = [deltaEvent s.toolCallIndex d] := by
      cases d <;> rfl
    have hnext : (parseContentBlockDelta s index d).2.toolCallIndex = s.toolCallIndex := by
      cases d <;> rfl
    obtain ⟨hout, hfinal⟩ := ih (parseContentBlockDelta s index d).2
    rw [hnext] at hout hfinal
    refine ⟨?_, hfinal⟩
    show (parseContentBlockDelta s index d).1 ++ outputs parse (parseContentBlockDelta s index d).2
      (deltas.map (.contentBlockDelta index)) = _
    rw [hevent, hout]
    rfl

/-- What the reader makes of one block. -/
theorem said_of_blockCut {index : Nat} {block : ClaudeContentBlock} {events : List Upstream}
    (h : BlockCut codec index block events) (s : AdapterState) :
    BlockSaid codec s.toolCallIndex block (outputs parse s events) ∧
      (final parse s events).toolCallIndex =
        s.toolCallIndex + (blockView.calls block).length := by
  cases h with
  | text pieces hpieces =>
    obtain ⟨hout, hfinal⟩ := run_deltas index (pieces.map ClaudeStreamDelta.textDelta)
      { s with blockIndex := index, phase := .content }
    simp only [List.map_map, Function.comp_def, deltaEvent] at hout hfinal
    simp only [List.cons_append, outputs_cons, final_cons, outputs_append, final_append, parse,
      parseContentBlockStart, hout, hfinal, outputs_nil, final_nil, List.nil_append, blockView,
      List.append_nil]
    exact ⟨.text pieces hpieces, rfl⟩
  | toolUse id name opening pieces hpieces =>
    obtain ⟨hout, hfinal⟩ := run_deltas index (pieces.map ClaudeStreamDelta.inputJsonDelta)
      { s with blockIndex := index, phase := .toolCalls, toolCallIndex := s.toolCallIndex + 1 }
    simp only [List.map_map, Function.comp_def, deltaEvent, Nat.add_sub_cancel] at hout hfinal
    simp only [List.cons_append, outputs_cons, final_cons, outputs_append, final_append, parse,
      parseContentBlockStart, hout, hfinal, outputs_nil, final_nil, List.nil_append, blockView,
      List.append_nil]
    exact ⟨.toolUse id name pieces hpieces, rfl⟩
  | thinking opening hopening deltas hdeltas hthinking hsignature =>
    obtain ⟨hout, hfinal⟩ := run_deltas index deltas
      { s with blockIndex := index, phase := .content }
    simp only [List.cons_append, outputs_cons, final_cons, outputs_append, final_append, parse,
      parseContentBlockStart, hout, hfinal, outputs_nil, final_nil, List.nil_append, blockView,
      List.append_nil]
    refine ⟨.thinking _ ?_ ?_ ?_, rfl⟩
    · intro e he
      obtain ⟨d, hd, rfl⟩ := List.mem_map.mp he
      rcases hdeltas d hd with ⟨x, rfl⟩ | ⟨x, rfl⟩
      · exact .inl ⟨x, rfl⟩
      · exact .inr ⟨x, rfl⟩
    · rw [← hthinking, List.map_map]
      refine congrArg String.join (List.map_congr_left ?_)
      intro d hd
      rcases hdeltas d hd with ⟨x, rfl⟩ | ⟨x, rfl⟩ <;> rfl
    · rw [← hsignature, List.map_map]
      refine congrArg String.join (List.map_congr_left ?_)
      intro d hd
      rcases hdeltas d hd with ⟨x, rfl⟩ | ⟨x, rfl⟩ <;> rfl
  | redactedThinking raw hraw => exact ⟨.redactedThinking raw _, rfl⟩

theorem said_of_blocksCut {index : Nat} {content : List ClaudeContentBlock}
    {events : List Upstream} (h : BlocksCut codec index content events) (s : AdapterState) :
    BlocksSaid codec s.toolCallIndex content (outputs parse s events) := by
  induction h generalizing s with
  | nil index => exact .nil _
  | cons hblock hrest ih =>
    obtain ⟨hsaid, hcalls⟩ := said_of_blockCut hblock s
    rw [outputs_append]
    refine .cons hsaid ?_
    rw [← hcalls]
    exact ih _

/-- Pings stand for nothing. -/
theorem run_filter_ping (body : List Upstream) (s : AdapterState) :
    run parse s (body.filter (· ≠ .ping)) = run parse s body := by
  induction body generalizing s with
  | nil => rfl
  | cons u body ih =>
    by_cases hu : u = .ping
    · subst hu
      have hskip : run parse s (.ping :: body) = run parse s body := rfl
      simpa [hskip] using ih s
    · have hkeep : (u :: body).filter (· ≠ .ping) = u :: body.filter (· ≠ .ping) := by simp [hu]
      rw [hkeep, run, run, ih]

/-- What the reader makes of a cut reply. -/
theorem said_of_cut {content : List ClaudeContentBlock} {body : List Upstream}
    (h : Cut codec content body) (s : AdapterState) (hs : s.toolCallIndex = 0) :
    BlocksSaid codec 0 content (outputs parse s body) := by
  have hsaid := said_of_blocksCut h s
  have hrun : outputs parse s (body.filter (· ≠ .ping)) = outputs parse s body :=
    congrArg Prod.fst (run_filter_ping body s)
  rwa [hs, hrun] at hsaid

theorem BlockSaid.isBody {n : Nat} {block : ClaudeContentBlock}
    {events : List CanonicalStreamEvent} (h : BlockSaid codec n block events) :
    ∀ e ∈ events, IsBody e := by
  intro e he
  cases h with
  | text pieces hpieces =>
    obtain ⟨t, -, rfl⟩ := List.mem_map.mp he
    trivial
  | toolUse id name pieces hpieces =>
    rcases List.mem_cons.mp he with rfl | he
    · trivial
    · obtain ⟨t, -, rfl⟩ := List.mem_map.mp he
      trivial
  | thinking events hevents =>
    rcases hevents e he with ⟨t, rfl⟩ | ⟨t, rfl⟩ <;> trivial
  | redactedThinking raw data =>
    obtain rfl := List.mem_singleton.mp he
    trivial

theorem BlockSaid.callsStarted {n : Nat} {block : ClaudeContentBlock}
    {events : List CanonicalStreamEvent} (h : BlockSaid codec n block events) :
    CallsStarted events := by
  cases h with
  | text pieces hpieces => exact callsStarted_of_no_delta (by simp)
  | toolUse id name pieces hpieces => exact callsStarted_call n id name none pieces
  | thinking events hevents =>
    refine callsStarted_of_no_delta ?_
    intro index arguments he
    rcases hevents _ he with ⟨t, ht⟩ | ⟨t, ht⟩ <;> cases ht
  | redactedThinking raw data => exact callsStarted_of_no_delta (by simp)

theorem BlocksSaid.isBody {n : Nat} {content : List ClaudeContentBlock}
    {events : List CanonicalStreamEvent} (h : BlocksSaid codec n content events) :
    ∀ e ∈ events, IsBody e := by
  induction h with
  | nil n => simp
  | cons hblock hrest ih =>
    intro e he
    rcases List.mem_append.mp he with he | he
    · exact hblock.isBody e he
    · exact ih e he

theorem BlocksSaid.callsStarted {n : Nat} {content : List ClaudeContentBlock}
    {events : List CanonicalStreamEvent} (h : BlocksSaid codec n content events) :
    CallsStarted events := by
  induction h with
  | nil n => exact callsStarted_of_no_delta (by simp)
  | cons hblock hrest ih => exact callsStarted_append hblock.callsStarted ih

/-- A start, what the body stands for, and the end. -/
theorem outputs_claude {content : List ClaudeContentBlock} (w : World)
    (message : ClaudeStreamMessage) {body : List Upstream} (hbody : ∀ u ∈ body, u.isBody = true)
    (last : Ending) {rest : List Upstream} (hrest : ∀ u ∈ rest, u.isQuiet = true)
    (h : Cut codec content body) :
    ∃ s id model reason usage, BlocksSaid codec 0 content (outputs parse s body) ∧
      outputs (parseEvent codec) (.fresh w)
        (ReplyStream.claude message body hbody last rest hrest).events =
          start id model :: outputs parse s body ++ [done reason usage] := by
  have hstart : (parse (.fresh w) (.messageStart message)).1 = [start message.id message.model] ∧
      (parse (.fresh w) (.messageStart message)).2.toolCallIndex = 0 ∧
      (parse (.fresh w) (.messageStart message)).2.phase ≠ .done := by
    simp only [parse, parseMessageStart]
    cases message.usage <;> simp
  obtain ⟨hout, hzero, hphase⟩ := hstart
  have hsaid := said_of_cut h _ hzero
  have hopen : (final parse (parse (.fresh w) (.messageStart message)).2 body).phase ≠ .done :=
    final_induction (I := fun s : AdapterState => s.phase ≠ .done) (P := fun u => u.isBody = true)
      (fun s u hs hu => (parse_body hu s).2.1 hs) body _ hphase hbody
  obtain ⟨hlast, hdone⟩ := parse_ending last _ hopen
  obtain ⟨reason, usage, hend⟩ : ∃ reason usage,
      (parse (final parse (parse (.fresh w) (.messageStart message)).2 body) last.event).1 =
        [done reason usage] := ⟨_, _, hlast⟩
  refine ⟨_, message.id, message.model, reason, usage, hsaid, ?_⟩
  have hevents : (ReplyStream.claude message body hbody last rest hrest).events =
      ((.messageStart message :: body) ++ last.event :: rest).map UpstreamEvent.claude := by
    simp [ReplyStream.events]
  have hrun : ∀ us : List Upstream, outputs (parseEvent codec) (.fresh w)
      (us.map UpstreamEvent.claude) = outputs parse (.fresh w) us :=
    fun us => congrArg Prod.fst (run_map (fun _ _ => rfl) us _)
  rw [hevents, hrun, outputs_append, outputs_cons, outputs_cons, final_cons, hout, hend,
    parse_rest hrest _ hdone]
  simp

end

end Claude

end AnyConverter
