import AnyConverter.Formats.Claude.Stream

/-!
# The shape of a written Claude stream

A Claude client reads a stream as a message of content blocks: `message_start` first, each block
opened, filled and closed under an index of its own, then `message_delta` and `message_stop`.
`WellFormed` states that of a stream together with the canonical event each wire event was
written for.

* `emit_never_stops`: the writer never closes a block;
* `wellFormed_iff`: so what it writes is well formed for the empty reply only.
-/

set_option autoImplicit false

namespace AnyConverter.Claude

open Transducer CanonicalStreamEvent

/-- A written event with the canonical event it was written for. -/
abbrev Written := CanonicalStreamEvent × StreamEvent

/-! ## Well-formed streams -/

/-- The type of a delta is that of its block. -/
def BlockDelta.Matches : BlockDelta → OpenedBlock → Prop
  | .text _, .text => True
  | .inputJson _, .toolUse _ _ => True
  | .thinking _, .thinking => True
  | _, _ => False

/-- The block at an index is open after what was written: opened by `opener`, not closed since. -/
def IsOpen (before : List Written) (index : Nat) (opener : CanonicalStreamEvent)
    (block : OpenedBlock) : Prop :=
  ∃ pre post, before = pre ++ (opener, .contentBlockStart index block) :: post ∧
    ∀ w ∈ post, w.2 ≠ .contentBlockStop index

/-- A piece of a call's arguments goes to the block its own call opened. -/
def OwnCall (delta opener : CanonicalStreamEvent) : Prop :=
  ∀ index arguments, delta = toolCallDelta index arguments →
    ∃ id name signature, opener = toolCallStart index id name signature

/-- The indices a stream opens blocks under, in order. -/
def openedIndices (stream : List Written) : List Nat :=
  stream.filterMap fun w =>
    match w.2 with
    | .contentBlockStart index _ => some index
    | _ => none

structure WellFormed (stream : List Written) : Prop where
  startsFirst : ∃ e id model rest, stream = (e, .messageStart id model) :: rest ∧
    ∀ w ∈ rest, ∀ id' model', w.2 ≠ .messageStart id' model'
  opensOnce : (openedIndices stream).Nodup
  deltasInOpenBlocks : ∀ pre e index delta post,
    stream = pre ++ (e, .contentBlockDelta index delta) :: post →
    ∃ opener block, IsOpen pre index opener block ∧ delta.Matches block ∧ OwnCall e opener
  closedBeforeDelta : ∀ pre e reason usage post,
    stream = pre ++ (e, .messageDelta reason usage) :: post →
    ∀ opener index block, (opener, .contentBlockStart index block) ∈ pre →
    ∃ w ∈ pre, w.2 = .contentBlockStop index
  stopsLast : ∃ body e, stream = body ++ [(e, .messageStop)] ∧ ∀ w ∈ body, w.2 ≠ .messageStop

/-! ## Streams of a reply -/

/-- The content of a reply: text, thinking and tool calls. -/
def IsContent : CanonicalStreamEvent → Prop
  | textDelta _ => True
  | thinkingDelta _ => True
  | toolCallStart _ _ _ _ => True
  | toolCallDelta _ _ => True
  | _ => False

/-- What the writer makes of a reply, from a fresh state. -/
def written (w : World) (id model : String) (body : List CanonicalStreamEvent)
    (reason : StopReason) (usage : Option Usage) : List Written :=
  tagged emit (.fresh w) (start id model :: body ++ [done reason usage])

/-! ## What the writer does -/

/-- The writer never closes a block. -/
theorem emit_never_stops (s : AdapterState) (e : CanonicalStreamEvent) (index : Nat) :
    .contentBlockStop index ∉ (emit s e).1 := by
  intro h
  cases e with
  | start id model => simp [emit, emitMessageStart] at h
  | textDelta text =>
    simp only [emit, emitTextDelta] at h
    split at h <;> simp at h
  | toolCallStart index id name signature => simp [emit, emitToolCallStart] at h
  | toolCallDelta index delta => simp [emit, emitToolCallDelta] at h
  | thinkingDelta text =>
    simp only [emit, emitThinkingDelta] at h
    split at h <;> simp at h
  | thinkingSignature signer delta => simp [emit] at h
  | sealedThinking signer raw => simp [emit] at h
  | done reason usage => simp [emit, emitDone] at h

theorem outputs_never_stop (s : AdapterState) (es : List CanonicalStreamEvent) (index : Nat) :
    .contentBlockStop index ∉ outputs emit s es := by
  have hforall : ∀ o ∈ outputs emit s es, o ≠ .contentBlockStop index := by
    refine outputs_forall ?_ es s
    rintro s e o ho rfl
    exact emit_never_stops s e index ho
  intro h
  exact hforall _ h rfl

/-- The first content of a reply opens a block. -/
theorem emit_opens {s : AdapterState} (hphase : s.phase = .init) {e : CanonicalStreamEvent}
    (hcontent : IsContent e) (hdelta : ∀ index arguments, e ≠ toolCallDelta index arguments) :
    ∃ index block rest, (emit s e).1 = .contentBlockStart index block :: rest := by
  cases e with
  | textDelta text => exact ⟨_, _, _, by rw [emit, emitTextDelta, if_pos hphase]⟩
  | thinkingDelta text => exact ⟨_, _, _, by rw [emit, emitThinkingDelta, if_pos hphase]⟩
  | toolCallStart index id name signature => exact ⟨_, _, _, rfl⟩
  | toolCallDelta index arguments => exact absurd rfl (hdelta index arguments)
  | start id model => exact absurd hcontent (by simp [IsContent])
  | thinkingSignature signer delta => exact absurd hcontent (by simp [IsContent])
  | sealedThinking signer raw => exact absurd hcontent (by simp [IsContent])
  | done reason usage => exact absurd hcontent (by simp [IsContent])

theorem emitMessageStart_phase (s : AdapterState) (id model : String) :
    (emit s (start id model)).2.phase = .init := rfl

/-- What is written of a reply, cut before its last two events. -/
theorem written_eq (w : World) (id model : String) (body : List CanonicalStreamEvent)
    (reason : StopReason) (usage : Option Usage) :
    written w id model body reason usage =
      tagged emit (.fresh w) (start id model :: body) ++
        [(done reason usage, .messageDelta reason.toClaude (deltaUsage usage)),
          (done reason usage, .messageStop)] := by
  rw [written, tagged_append]
  rfl

/-- A reply with content leaves a block open. -/
theorem not_wellFormed_of_content (w : World) (id model : String) {e : CanonicalStreamEvent}
    {body : List CanonicalStreamEvent} (reason : StopReason) (usage : Option Usage)
    (hcontent : IsContent e) (hdelta : ∀ index arguments, e ≠ toolCallDelta index arguments) :
    ¬ WellFormed (written w id model (e :: body) reason usage) := by
  intro h
  rw [written_eq] at h
  have hopen := emit_opens (emitMessageStart_phase (.fresh w) id model) hcontent hdelta
  obtain ⟨index, block, rest, hopen⟩ := hopen
  have hmem : (e, StreamEvent.contentBlockStart index block) ∈
      tagged emit (.fresh w) (start id model :: e :: body) := by
    simp [tagged, hopen]
  obtain ⟨x, hx, hstop⟩ := h.closedBeforeDelta _ _ _ _ _ rfl e index block hmem
  have hout : x.2 ∈ outputs emit (.fresh w) (start id model :: e :: body) := by
    rw [← map_snd_tagged]
    exact List.mem_map_of_mem hx
  rw [hstop] at hout
  exact outputs_never_stop _ _ index hout

/-- The empty reply is three well-formed events. -/
theorem wellFormed_nil (w : World) (id model : String) (reason : StopReason)
    (usage : Option Usage) : WellFormed (written w id model [] reason usage) := by
  have hstream : written w id model [] reason usage =
      [(start id model, .messageStart (normalizeIdToClaude w id).1 model),
        (done reason usage, .messageDelta reason.toClaude (deltaUsage usage)),
        (done reason usage, .messageStop)] := by
    rw [written_eq]
    rfl
  rw [hstream]
  refine ⟨⟨_, _, _, _, rfl, by simp⟩, by simp [openedIndices], ?_, ?_, ⟨[_, _], _, rfl, by simp⟩⟩
  · intro pre e index delta post hsplit
    have hmem : (e, StreamEvent.contentBlockDelta index delta) ∈
        pre ++ (e, .contentBlockDelta index delta) :: post := by simp
    rw [← hsplit] at hmem
    simp at hmem
  · intro pre e reason' usage' post hsplit opener index block hopen
    have hmem : (opener, StreamEvent.contentBlockStart index block) ∈
        pre ++ (e, .messageDelta reason' usage') :: post := List.mem_append_left _ hopen
    rw [← hsplit] at hmem
    simp at hmem

/-- **What is written of a reply is a well-formed Claude stream just when the reply is empty.** -/
theorem wellFormed_iff (w : World) (id model : String) (body : List CanonicalStreamEvent)
    (reason : StopReason) (usage : Option Usage) (hcontent : ∀ e ∈ body, IsContent e)
    (hstarted : CallsStarted body) :
    WellFormed (written w id model body reason usage) ↔ body = [] := by
  constructor
  · intro h
    cases body with
    | nil => rfl
    | cons e body =>
      have hdelta : ∀ index arguments, e ≠ toolCallDelta index arguments := by
        rintro index arguments rfl
        obtain ⟨id', name, signature, hmem⟩ := hstarted [] index arguments body rfl
        cases hmem
      exact absurd h
        (not_wellFormed_of_content w id model reason usage (hcontent e List.mem_cons_self) hdelta)
  · rintro rfl
    exact wellFormed_nil w id model reason usage

/-- A sentence and a tool call. -/
def searchReply : List CanonicalStreamEvent :=
  [textDelta "Let me look.", toolCallStart 0 "call_1" "search" none,
    toolCallDelta 0 "\x7b\x7d"]

theorem searchReply_content : ∀ e ∈ searchReply, IsContent e := by
  intro e he
  simp only [searchReply, List.mem_cons, List.not_mem_nil, or_false] at he
  rcases he with rfl | rfl | rfl <;> trivial

theorem searchReply_started : CallsStarted searchReply := by
  intro pre index arguments post hsplit
  rcases pre with _ | ⟨a, _ | ⟨b, _ | ⟨c, pre⟩⟩⟩
  · cases hsplit
  · cases hsplit
  · cases hsplit
    exact ⟨_, _, _, List.mem_cons_of_mem _ List.mem_cons_self⟩
  · simp [searchReply] at hsplit

theorem wellFormed_iff_searchReply :
    (∀ e ∈ searchReply, IsContent e) ∧ CallsStarted searchReply ∧
    (WellFormed (written .counting "msg_1" "m" searchReply .toolUse none) ↔ searchReply = []) :=
  ⟨searchReply_content, searchReply_started,
    wellFormed_iff _ _ _ _ _ _ searchReply_content searchReply_started⟩

/-- The call's block is opened under the index of the text block, which stays open. -/
theorem searchReply_not_wellFormed :
    (∀ e ∈ searchReply, IsContent e) ∧ CallsStarted searchReply ∧
    openedIndices (written .counting "msg_1" "m" searchReply .toolUse none) = [0, 0] ∧
    ¬ WellFormed (written .counting "msg_1" "m" searchReply .toolUse none) := by
  have hindices : openedIndices (written .counting "msg_1" "m" searchReply .toolUse none) =
      [0, 0] := by decide +kernel
  refine ⟨searchReply_content, searchReply_started, hindices, ?_⟩
  intro h
  have hnodup := h.opensOnce
  rw [hindices] at hnodup
  simp at hnodup

end AnyConverter.Claude
