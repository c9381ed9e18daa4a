import AnyConverter.Converters.ClaudeFidelity
import AnyConverter.Converters.PassedEvents

/-!
# A Claude stream written and read back

The writer numbers its blocks by the calls before them; the reader counts the calls itself and takes
every piece of arguments for one of the last call.

* `decode_toText`: an event, written and read;
* `outputs_received`: the pieces of a reply, read back;
* `claude_read_back`: a whole reply, and which replies come back as they were.
-/

set_option autoImplicit false

namespace AnyConverter.Claude

open Transducer Serde CanonicalStreamEvent

/-! ## Events -/

def OpenedBlock.received : OpenedBlock → ClaudeStreamContentBlock
  | .text => .text ""
  | .thinking => .thinking "" none
  | .toolUse id name => .toolUse id name (.object [])

def BlockDelta.received : BlockDelta → ClaudeStreamDelta
  | .text t => .textDelta t
  | .inputJson j => .inputJsonDelta j
  | .thinking t => .thinkingDelta t

def DeltaUsage.received (u : DeltaUsage) : ClaudeStreamUsage where
  inputTokens := u.inputTokens
  outputTokens := u.outputTokens
  cacheCreationInputTokens := u.cacheCreationInputTokens
  cacheReadInputTokens := u.cacheReadInputTokens

/-- A written event as the reader takes it. -/
def StreamEvent.received : StreamEvent → Upstream
  | .messageStart id model => .messageStart ⟨id, model, some {}⟩
  | .contentBlockStart index block => .contentBlockStart index block.received
  | .contentBlockDelta index delta => .contentBlockDelta index delta.received
  | .contentBlockStop _ => .contentBlockStop
  | .messageDelta reason usage => .messageDelta ⟨some reason, none⟩ (some usage.received)
  | .messageStop => .messageStop

/-- The counts of a usage are `u64`s. -/
structure DeltaUsage.Fits (u : DeltaUsage) : Prop where
  inputTokens : u.inputTokens < 2 ^ 64
  outputTokens : u.outputTokens < 2 ^ 64
  cacheCreation : ∀ n, u.cacheCreationInputTokens = some n → n < 2 ^ 64
  cacheRead : ∀ n, u.cacheReadInputTokens = some n → n < 2 ^ 64

/-- The numbers of an event fit the types they are read with. -/
def StreamEvent.Fits : StreamEvent → Prop
  | .contentBlockStart index _ => index < 2 ^ 32
  | .contentBlockDelta index _ => index < 2 ^ 32
  | .messageDelta _ usage => usage.Fits
  | _ => True

theorem ofValue_toValue_usage {u : DeltaUsage} (h : u.Fits) :
    ClaudeStreamUsage.ofValue u.toValue = some u.received := by
  unfold DeltaUsage.toValue
  generalize hobj : fieldOpt "cache_creation_input_tokens" (u.cacheCreationInputTokens.map .nat) ++
    fieldOpt "cache_read_input_tokens" (u.cacheReadInputTokens.map .nat) ++
    field "input_tokens" (.nat u.inputTokens) ++ field "output_tokens" (.nat u.outputTokens) = obj
  have hinput : withDefault "input_tokens" 0 u64 obj = some u.inputTokens :=
    withDefault_of_lookup (by rw [← hobj]; simp [lookup_field, lookup_fieldOpt])
      (u64_nat h.inputTokens)
  have houtput : withDefault "output_tokens" 0 u64 obj = some u.outputTokens :=
    withDefault_of_lookup (by rw [← hobj]; simp [lookup_fieldOpt, field, List.lookup_cons])
      (u64_nat h.outputTokens)
  have hcreation : Serde.optional "cache_creation_input_tokens" u64 obj =
      some u.cacheCreationInputTokens :=
    optional_of_lookup (by rw [← hobj]; simp [lookup_fieldOpt, field, List.lookup_cons])
      (fun n hn => u64_nat (h.cacheCreation n hn)) fun _ _ => Value.noConfusion
  have hread : Serde.optional "cache_read_input_tokens" u64 obj = some u.cacheReadInputTokens :=
    optional_of_lookup (by rw [← hobj]; simp [lookup_fieldOpt, field, List.lookup_cons])
      (fun n hn => u64_nat (h.cacheRead n hn)) fun _ _ => Value.noConfusion
  have hsplit : Serde.optional "cache_creation" ClaudeCacheCreation.ofValue obj = some none := by
    have habsent : obj.lookup "cache_creation" = none := by
      rw [← hobj]
      simp [lookup_fieldOpt, field, List.lookup_cons]
    unfold Serde.optional
    rw [habsent]
  simp only [ClaudeStreamUsage.ofValue, hinput, houtput, hcreation, hsplit, hread]
  rfl

theorem ofValue_toValue_block (block : OpenedBlock) :
    ClaudeStreamContentBlock.ofValue block.toValue = some block.received := by
  cases block <;> rfl

theorem ofValue_toValue_delta (delta : BlockDelta) :
    ClaudeStreamDelta.ofValue delta.toValue = some delta.received := by
  cases delta <;> rfl

theorem decodeContentBlockStart_of_read {codec : JsonCodec} {data : String} {value : Value}
    (hread : codec.fromStr data = some value) (hsealed : sealedBlock value = none) {index : Nat}
    {block : ClaudeStreamContentBlock} (hvalue : contentBlockStartOfValue value = some (index, block)) :
    decodeContentBlockStart codec data = .ok (.contentBlockStart index block) := by
  simp only [decodeContentBlockStart, hread, hsealed, hvalue]

section
variable {codec : JsonCodec} (hcodec : codec.Lawful)
include hcodec

theorem decode_messageStart (id model : String) :
    decode codec ⟨some "message_start", codec.toText (StreamEvent.messageStart id model).toValue⟩ =
      .ok (.messageStart ⟨id, model, some {}⟩) := by
  have husage : ClaudeStreamUsage.ofValue
      (.object [("input_tokens", .nat 0), ("output_tokens", .nat 0)]) = some {} :=
    @ofValue_toValue_usage ⟨0, 0, none, none⟩
      ⟨Nat.two_pow_pos 64, Nat.two_pow_pos 64, nofun, nofun⟩
  have hvalue : messageStartOfValue (StreamEvent.messageStart id model).toValue =
      some ⟨id, model, some {}⟩ := by
    simp [messageStartOfValue, StreamEvent.toValue, required, Serde.optional, List.lookup_cons,
      ClaudeStreamMessage.ofValue, husage, Serde.string, Value.asStr, StreamEvent.name]
  simp [decode, readPayload, JsonCodec.decode_of_read (hcodec.read_print _) hvalue, Except.map]

theorem decode_contentBlockStart {index : Nat} (h : index < 2 ^ 32) (block : OpenedBlock) :
    decode codec
        ⟨some "content_block_start", codec.toText (StreamEvent.contentBlockStart index block).toValue⟩ =
      .ok (.contentBlockStart index block.received) := by
  have hsealed : sealedBlock (StreamEvent.contentBlockStart index block).toValue = none := by
    cases block <;>
      simp [sealedBlock, StreamEvent.toValue, OpenedBlock.toValue, Value.get, List.lookup_cons,
        Value.asStr]
  have hindex : required "index" u32 [("content_block", block.toValue), ("index", .nat index),
      ("type", .string "content_block_start")] = some index := required_of_lookup rfl (u32_nat h)
  have hblock : required "content_block" ClaudeStreamContentBlock.ofValue
      [("content_block", block.toValue), ("index", .nat index),
        ("type", .string "content_block_start")] = some block.received :=
    required_of_lookup rfl (ofValue_toValue_block block)
  have hvalue : contentBlockStartOfValue (StreamEvent.contentBlockStart index block).toValue =
      some (index, block.received) := by
    simp only [StreamEvent.toValue, StreamEvent.name, contentBlockStartOfValue, hindex, hblock]
    rfl
  simp [decode, decodeContentBlockStart_of_read (hcodec.read_print _) hsealed hvalue]

theorem decode_contentBlockDelta {index : Nat} (h : index < 2 ^ 32) (delta : BlockDelta) :
    decode codec
        ⟨some "content_block_delta", codec.toText (StreamEvent.contentBlockDelta index delta).toValue⟩ =
      .ok (.contentBlockDelta index delta.received) := by
  have hindex : required "index" u32 [("delta", delta.toValue), ("index", .nat index),
      ("type", .string "content_block_delta")] = some index := required_of_lookup rfl (u32_nat h)
  have hdelta : required "delta" ClaudeStreamDelta.ofValue [("delta", delta.toValue),
      ("index", .nat index), ("type", .string "content_block_delta")] = some delta.received :=
    required_of_lookup rfl (ofValue_toValue_delta delta)
  have hvalue : contentBlockDeltaOfValue (StreamEvent.contentBlockDelta index delta).toValue =
      some (index, delta.received) := by
    simp only [StreamEvent.toValue, StreamEvent.name, contentBlockDeltaOfValue, hindex, hdelta]
    rfl
  simp [decode, readPayload, JsonCodec.decode_of_read (hcodec.read_print _) hvalue, Except.map]

theorem decode_messageDelta (reason : String) {usage : DeltaUsage} (h : usage.Fits) :
    decode codec
        ⟨some "message_delta", codec.toText (StreamEvent.messageDelta reason usage).toValue⟩ =
      .ok (.messageDelta ⟨some reason, none⟩ (some usage.received)) := by
  have husage : Serde.optional "usage" ClaudeStreamUsage.ofValue
      [("delta", .object [("stop_reason", .string reason), ("stop_sequence", .null)]),
        ("type", .string "message_delta"), ("usage", usage.toValue)] = some (some usage.received) :=
    optional_of_some rfl Value.noConfusion (ofValue_toValue_usage h)
  have hvalue : messageDeltaOfValue (StreamEvent.messageDelta reason usage).toValue =
      some (⟨some reason, none⟩, some usage.received) := by
    simp only [StreamEvent.toValue, StreamEvent.name, messageDeltaOfValue, husage]
    rfl
  simp [decode, readPayload, JsonCodec.decode_of_read (hcodec.read_print _) hvalue, Except.map]

/-- A written event is read as itself. -/
theorem decode_toText (hline : codec.OneLine) {e : StreamEvent} (h : e.Fits) :
    ∃ event, parseSseBlock (e.toText codec) = some event ∧ decode codec event = .ok e.received := by
  obtain ⟨fields, hfields⟩ : ∃ fields, e.toValue = .object fields := by
    cases e <;> exact ⟨_, rfl⟩
  have htext : (codec.toText e.toValue).toList = '\x7b' :: ((",".intercalate (fields.map fun f =>
      codec.toText (.string f.1) ++ ":" ++ codec.toText f.2)).toList ++ ['\x7d']) := by
    rw [hfields, hcodec.print_object]
    simp
  have hlast : (codec.toText e.toValue).toList.getLast? ≠ some '\r' := by
    have hclose : ['\x7d'].getLast? ≠ some '\r' := by decide
    rw [htext, ← List.cons_append, List.getLast?_append]
    exact hclose
  have hblank : (codec.toText e.toValue).toList.head? ≠ some ' ' := by
    rw [htext, List.head?_cons]
    decide
  have hname : Text.trim e.name = e.name ∧ '\n' ∉ e.name.toList := by
    cases e <;> simp only [StreamEvent.name] <;> decide +kernel
  refine ⟨⟨some e.name, codec.toText e.toValue⟩,
    (read_back_iff hname.1 hname.2 hblank).mpr ⟨hline _, hlast⟩, ?_⟩
  cases e with
  | messageStart id model => exact decode_messageStart hcodec id model
  | contentBlockStart index block => exact decode_contentBlockStart hcodec h block
  | contentBlockDelta index delta => exact decode_contentBlockDelta hcodec h delta
  | contentBlockStop index => simp [decode, StreamEvent.name, StreamEvent.received]
  | messageDelta reason usage => exact decode_messageDelta hcodec reason h
  | messageStop => simp [decode, StreamEvent.name, StreamEvent.received]

end

/-! ## Pieces of a reply -/

/-- What is between the start of a reply and its end. -/
def IsWithin : CanonicalStreamEvent → Prop
  | start _ _ => False
  | done _ _ => False
  | _ => True

/-- How many calls have started. -/
def calls (events : List CanonicalStreamEvent) : Nat := (events.filterMap startOf).length

/-- A piece as it comes back, behind a number of calls: the calls are counted, and arguments are for
the last one.  Signatures and sealed thinking are not written. -/
def renumber (calls : Nat) : CanonicalStreamEvent → List CanonicalStreamEvent × Nat
  | textDelta text => ([textDelta text], calls)
  | thinkingDelta thinking => ([thinkingDelta thinking], calls)
  | toolCallStart _ id name _ => ([toolCallStart calls id name none], calls + 1)
  | toolCallDelta _ arguments => ([toolCallDelta (calls - 1) arguments], calls)
  | _ => ([], calls)

/-- What Claude has a place for. -/
def kept : CanonicalStreamEvent → Option CanonicalStreamEvent
  | toolCallStart index id name _ => some (toolCallStart index id name none)
  | thinkingSignature _ _ => none
  | sealedThinking _ _ => none
  | e => some e

/-- A call has the next number, and arguments are for the last call. -/
def Follows (calls : Nat) : CanonicalStreamEvent → Prop
  | toolCallStart index _ _ _ => index = calls
  | toolCallDelta index _ => index = calls - 1
  | _ => True

/-- The calls are numbered one after the other, and each is done before the next one starts. -/
def CallByCall (body : List CanonicalStreamEvent) : Prop :=
  ∀ pre e post, body = pre ++ e :: post → Follows (calls pre) e

theorem calls_cons (e : CanonicalStreamEvent) (events : List CanonicalStreamEvent) :
    calls (e :: events) = calls events + (startOf e).toList.length := by
  unfold calls
  rw [List.filterMap_cons]
  cases startOf e <;> rfl

theorem renumber_calls (n : Nat) (e : CanonicalStreamEvent) :
    (renumber n e).2 = n + (startOf e).toList.length := by
  cases e <;> rfl

/-- A piece comes back as it was just where it follows. -/
theorem renumber_eq_iff (n : Nat) {e : CanonicalStreamEvent} (h : IsWithin e) :
    (renumber n e).1 = (kept e).toList ↔ Follows n e := by
  cases e with
  | start _ _ => exact absurd h id
  | done _ _ => exact absurd h id
  | toolCallStart index id name signature => simp [renumber, kept, Follows, eq_comm]
  | toolCallDelta index arguments => simp [renumber, kept, Follows, eq_comm]
  | _ => simp [renumber, kept, Follows]

theorem length_renumber (n : Nat) {e : CanonicalStreamEvent} (h : IsWithin e) :
    (renumber n e).1.length = (kept e).toList.length := by
  cases e with
  | start _ _ => exact absurd h id
  | done _ _ => exact absurd h id
  | _ => rfl

/-- A reply comes back as it was just where it goes call by call. -/
theorem outputs_renumber_eq_iff {body : List CanonicalStreamEvent} (hbody : ∀ e ∈ body, IsWithin e)
    (n : Nat) : outputs renumber n body = body.filterMap kept ↔
      ∀ pre e post, body = pre ++ e :: post → Follows (n + calls pre) e := by
  induction body generalizing n with
  | nil => simp
  | cons e body ih =>
    have he := hbody e List.mem_cons_self
    have hsplit : (e :: body).filterMap kept = (kept e).toList ++ body.filterMap kept := by
      rw [List.filterMap_cons]
      cases kept e <;> rfl
    rw [outputs_cons, hsplit]
    constructor
    · intro h pre e' post heq
      obtain ⟨hhead, htail⟩ := List.append_inj h (length_renumber n he)
      cases pre with
      | nil =>
        obtain ⟨rfl, -⟩ := List.cons.inj heq
        exact (renumber_eq_iff n he).mp hhead
      | cons e'' pre =>
        obtain ⟨rfl, hrest⟩ := List.cons.inj heq
        have hfollows := (ih (fun x hx => hbody x (List.mem_cons_of_mem e hx)) _).mp htail pre e' post
          hrest
        rwa [renumber_calls, Nat.add_assoc, Nat.add_comm (startOf e).toList.length, ← calls_cons]
          at hfollows
    · intro h
      have hhead := (renumber_eq_iff n he).mpr (h [] e body rfl)
      have htail := (ih (fun x hx => hbody x (List.mem_cons_of_mem e hx)) (renumber n e).2).mpr
        fun pre e' post hrest => by
          have hfollows := h (e :: pre) e' post (by rw [hrest, List.cons_append])
          rwa [renumber_calls, Nat.add_assoc, Nat.add_comm (startOf e).toList.length, ← calls_cons]
      rw [hhead, htail]

/-! ## Writing and reading -/

/-- The reader behind a number of calls, within a reply this writer started. -/
structure Reading (n : Nat) (s : AdapterState) : Prop where
  toolCallIndex : s.toolCallIndex = n
  usage : s.accumulatedUsage = some {}

/-- The reader's answers to what the writer makes of a piece. -/
theorem parse_piece {n : Nat} {s t : AdapterState} (hs : s.blockIndex = n) (ht : Reading n t)
    (hn : n < 2 ^ 32) {e : CanonicalStreamEvent} (he : IsWithin e) :
    (∀ event ∈ (emit s e).1, event.Fits) ∧ (emit s e).2.blockIndex = (renumber n e).2 ∧
      outputs parse t ((emit s e).1.map StreamEvent.received) = (renumber n e).1 ∧
      Reading (renumber n e).2 (final parse t ((emit s e).1.map StreamEvent.received)) := by
  obtain ⟨rfl, husage⟩ := ht
  have hpred : t.toolCallIndex - 1 < 2 ^ 32 := by omega
  cases e with
  | start _ _ => exact absurd he id
  | done _ _ => exact absurd he id
  | textDelta text =>
    simp only [emit, emitTextDelta]
    split
    · refine ⟨?_, hs, rfl, rfl, husage⟩
      simpa [StreamEvent.Fits, hs] using hn
    · refine ⟨?_, hs, rfl, rfl, husage⟩
      simpa [StreamEvent.Fits, hs] using hn
  | thinkingDelta thinking =>
    simp only [emit, emitThinkingDelta]
    split
    · refine ⟨?_, hs, rfl, rfl, husage⟩
      simpa [StreamEvent.Fits, hs] using hn
    · refine ⟨?_, hs, rfl, rfl, husage⟩
      simpa [StreamEvent.Fits, hs] using hn
  | toolCallStart index id name signature =>
    refine ⟨?_, congrArg (· + 1) hs, rfl, rfl, husage⟩
    simpa [emit, emitToolCallStart, StreamEvent.Fits, hs] using hn
  | toolCallDelta index arguments =>
    refine ⟨?_, hs, rfl, rfl, husage⟩
    simpa [emit, emitToolCallDelta, StreamEvent.Fits, hs] using hpred
  | _ => exact ⟨by simp [emit], hs, rfl, rfl, husage⟩

/-- The pieces of a reply, read back. -/
theorem outputs_received {body : List CanonicalStreamEvent} (hbody : ∀ e ∈ body, IsWithin e)
    {n : Nat} {s t : AdapterState} (hs : s.blockIndex = n) (ht : Reading n t)
    (hn : n + calls body < 2 ^ 32) :
    (∀ event ∈ outputs emit s body, event.Fits) ∧
      outputs parse t ((outputs emit s body).map StreamEvent.received) = outputs renumber n body ∧
      ∃ m, Reading m (final parse t ((outputs emit s body).map StreamEvent.received)) := by
  induction body generalizing n s t with
  | nil => exact ⟨by simp, rfl, n, ht⟩
  | cons e body ih =>
    have hcalls := calls_cons e body
    have hnext := renumber_calls n e
    obtain ⟨hfits, hblock, hparse, hreading⟩ :=
      parse_piece hs ht (by omega) (hbody e List.mem_cons_self)
    obtain ⟨hfits', hout, hend⟩ := ih (fun x hx => hbody x (List.mem_cons_of_mem e hx)) hblock
      hreading (by omega)
    rw [outputs_cons, List.map_append, outputs_append, final_append, hparse, hout, outputs_cons]
    refine ⟨fun event hmem => ?_, rfl, hend⟩
    rcases List.mem_append.mp hmem with hmem | hmem
    · exact hfits event hmem
    · exact hfits' event hmem

/-! ## A whole reply -/

/-- A reason as Claude tells it: a filtered reply is an end like others. -/
def toldReason : StopReason → StopReason
  | .contentFilter => .endTurn
  | reason => reason

/-- The reader takes only the output count from the end of a reply. -/
def toldUsage (usage : Option Usage) : Usage where
  outputTokens := (usage.map Usage.outputTokens).getD 0

theorem fromClaude_toClaude (reason : StopReason) :
    StopReason.fromClaude reason.toClaude = toldReason reason := by
  cases reason <;> rfl

/-- The end of a reply is told once. -/
theorem outputs_done {n : Nat} {t : AdapterState} (ht : Reading n t) (s : AdapterState)
    (reason : StopReason) (usage : Option Usage) :
    outputs parse t ((emit s (done reason usage)).1.map StreamEvent.received) =
      [done (toldReason reason) (some (toldUsage usage))] := by
  show [done (StopReason.fromClaude reason.toClaude) (some { t.accumulatedUsage.getD {} with
    outputTokens := (deltaUsage usage).outputTokens })] ++ [] = _
  rw [ht.usage, fromClaude_toClaude]
  rfl

/-- The counts of a usage are `u64`s. -/
structure CountsFit (u : Usage) : Prop where
  inputTokens : u.inputTokens < 2 ^ 64
  outputTokens : u.outputTokens < 2 ^ 64
  cacheRead : ∀ n, u.cacheReadTokens = some n → n < 2 ^ 64
  cacheWrite : ∀ n, u.cacheWriteTokens = some n → n < 2 ^ 64

theorem deltaUsage_fits {usage : Option Usage} (h : ∀ u, usage = some u → CountsFit u) :
    (deltaUsage usage).Fits := by
  cases usage with
  | none => exact ⟨Nat.two_pow_pos 64, Nat.two_pow_pos 64, nofun, nofun⟩
  | some u =>
    obtain ⟨hinput, houtput, hread, hwrite⟩ := h u rfl
    refine ⟨Nat.lt_of_le_of_lt ?_ hinput, houtput, hwrite, hread⟩
    show exclusiveInput u ≤ u.inputTokens
    unfold exclusiveInput
    split
    · exact Nat.sub_le _ _
    · exact Nat.le_refl _

/-- Events that decode are read as what they decode to. -/
theorem mapM_decode {codec : JsonCodec} (hcodec : codec.Lawful) (hline : codec.OneLine)
    {written : List StreamEvent} (h : ∀ e ∈ written, e.Fits) :
    ∃ events, written.mapM (fun e => parseSseBlock (e.toText codec)) = some events ∧
      List.Forall₂ (fun event u => decode codec event = .ok u) events
        (written.map StreamEvent.received) := by
  induction written with
  | nil => exact ⟨[], rfl, .nil⟩
  | cons e written ih =>
    obtain ⟨event, hblock, hdecode⟩ := decode_toText hcodec hline (h e List.mem_cons_self)
    obtain ⟨events, hblocks, hdecodes⟩ := ih fun e' hmem => h e' (List.mem_cons_of_mem e hmem)
    refine ⟨event :: events, ?_, .cons hdecode hdecodes⟩
    rw [List.mapM_cons, hblock, hblocks]
    rfl

end AnyConverter.Claude
