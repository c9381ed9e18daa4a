import AnyConverter.Converters.Reassembly.Streamed

/-!
# Gemini clients of a stream

The Gemini writer sends a call when it starts, without arguments, and again with each piece behind
which they read as JSON: a client has a call for each time.  Thinking waits for a signature of
Gemini's.

* `assemble_emit`: what a client has, with `shownCalls` for its calls;
* `shownCalls_said_iff`: they are the calls of a Claude reply when none has arguments;
* `shownCalls_chat`: they are the calls of a Chat reply at most when no arguments ever read.
-/

set_option autoImplicit false

namespace AnyConverter.Gemini

open Transducer CanonicalStreamEvent
open OpenAIChat (StreamToolCall collectStep fragment parseToolCall Begun)
open OpenAIResponses (textOf startedCalls)

/-! ## Calls as they are shown -/

/-- A call is shown again when its arguments read behind a piece. -/
def shownAgain (codec : JsonCodec) (calls : List AccumulatedToolCall) (index : Nat)
    (delta : String) : List SeenCall :=
  match findCall index calls with
  | some tc =>
    ((codec.fromStr (tc.arguments ++ delta)).map fun args => ⟨tc.id, tc.name, args⟩).toList
  | none => []

/-- The calls a client is shown behind those that started already. -/
def shownCalls (codec : JsonCodec) : List AccumulatedToolCall → List CanonicalStreamEvent →
    List SeenCall
  | _, [] => []
  | calls, toolCallStart index id name _ :: events =>
    ⟨id, name, .object []⟩ :: shownCalls codec (calls ++ [⟨index, id, name, ""⟩]) events
  | calls, toolCallDelta index delta :: events =>
    shownAgain codec calls index delta ++ shownCalls codec (pushArguments index delta calls) events
  | calls, _ :: events => shownCalls codec calls events

/-- A client has the text, the calls as they are shown, and no reasoning. -/
theorem assemble_emit (codec : JsonCodec) {events : List CanonicalStreamEvent}
    (h : ∀ delta, thinkingSignature .gemini delta ∉ events) (s : AdapterState) :
    assemble (outputs (emit codec) s events) =
      ⟨String.join (events.map textOf), "", shownCalls codec s.accumulatedToolCalls events⟩ := by
  induction events generalizing s with
  | nil => rfl
  | cons e events ih =>
    have hrest := fun t => ih (fun delta hmem => h delta (List.mem_cons_of_mem _ hmem)) t
    have hsplit : assemble (outputs (emit codec) s (e :: events)) =
        partView.assemble ((emit codec s e).1.flatMap GeminiResponse.parts) ++
          assemble (outputs (emit codec) (emit codec s e).2 events) := by
      rw [assemble, outputs_cons, List.flatMap_append, View.assemble_append]
      rfl
    rw [hsplit, hrest]
    cases e with
    | toolCallDelta index delta =>
      simp only [emit, emitToolCallDelta, shownCalls, shownAgain]
      cases hfind : findCall index s.accumulatedToolCalls with
      | none =>
        rw [pushArguments_of_none hfind]
        simp [textOf]
      | some tc =>
        cases hread : codec.fromStr (tc.arguments ++ delta) with
        | none => simp [textOf, hread]
        | some args =>
          simp [textOf, hread, emitPart, makeStreamResponse, GeminiResponse.parts, partView,
            GeminiPart.functionCallWithId]
    | thinkingSignature signer delta =>
      cases signer with
      | gemini => exact absurd List.mem_cons_self (h delta)
      | _ => simp [emit, textOf, shownCalls]
    | _ =>
      simp [emit, emitPart, emitToolCallStart, emitDone, makeStreamResponse, GeminiResponse.parts,
        partView, GeminiPart.functionCallWithId, GeminiPart.ofText,
        GeminiPart.withThoughtSignature, textOf, shownCalls]

/-! ## The calls of a Claude reply -/

/-- What has been pushed onto the last call, when its index is new. -/
theorem findCall_last {calls : List AccumulatedToolCall} {tc : AccumulatedToolCall}
    (h : ∀ c ∈ calls, c.index < tc.index) :
    findCall tc.index (calls ++ [tc]) = some tc := by
  rw [findCall, List.find?_append, List.find?_eq_none.mpr fun c hc => by
    have hlt := h c hc
    simp
    omega]
  simp

/-- No piece of a call's arguments has text. -/
def NoArguments (events : List CanonicalStreamEvent) : Prop :=
  ∀ index delta, toolCallDelta index delta ∈ events → delta = ""

theorem shownCalls_append (codec : JsonCodec) (xs ys : List CanonicalStreamEvent)
    (calls : List AccumulatedToolCall) :
    shownCalls codec calls (xs ++ ys) = shownCalls codec calls xs ++
      shownCalls codec ((xs.flatMap fragment).foldl
        (collectStep (fun call calls => calls ++ [call]) pushArguments) calls) ys := by
  induction xs generalizing calls with
  | nil => rfl
  | cons e xs ih =>
    rw [List.cons_append, List.flatMap_cons, List.foldl_append]
    cases e with
    | toolCallStart index id name signature =>
      have hcalls : (fragment (toolCallStart index id name signature)).foldl
          (collectStep (fun call calls => calls ++ [call]) pushArguments) calls =
          calls ++ [⟨index, id, name, ""⟩] := pushArguments_empty _ _
      rw [hcalls, shownCalls, shownCalls, ih, List.cons_append]
    | toolCallDelta index delta =>
      have hcalls : (fragment (toolCallDelta index delta)).foldl
          (collectStep (fun call calls => calls ++ [call]) pushArguments) calls =
          pushArguments index delta calls := rfl
      rw [hcalls, shownCalls, shownCalls, ih, List.append_assoc]
    | _ => exact ih calls

/-- Of a reply: the text between its start and its end, and the calls as they are shown. -/
theorem assemble_reply (codec : JsonCodec) {body : List CanonicalStreamEvent}
    (h : ∀ delta, thinkingSignature .gemini delta ∉ body) (w : World) (id model : String)
    (reason : StopReason) (usage : Option Usage) :
    assemble (outputs (emit codec) (.fresh w) (start id model :: body ++ [done reason usage])) =
      ⟨String.join (body.map textOf), "", shownCalls codec [] body⟩ := by
  have hnone : ∀ delta, thinkingSignature .gemini delta ∉
      start id model :: body ++ [done reason usage] := by simp [h]
  have hcalls : shownCalls codec [] (start id model :: body ++ [done reason usage]) =
      shownCalls codec [] body := by
    show shownCalls codec [] (body ++ [done reason usage]) = _
    rw [shownCalls_append]
    exact List.append_nil _
  rw [assemble_emit codec hnone]
  show Assembled.mk _ _ (shownCalls codec [] _) = _
  rw [hcalls]
  simp [String.join_append, textOf]

/-- The pieces of the call that started last. -/
theorem shownCalls_pieces (codec : JsonCodec) (hcodec : codec.Lawful) (pieces : List String)
    {calls : List AccumulatedToolCall} {tc : AccumulatedToolCall}
    (h : ∀ c ∈ calls, c.index < tc.index) :
    (tc.arguments = "" → (∀ t ∈ pieces, t = "") →
      shownCalls codec (calls ++ [tc]) (pieces.map (toolCallDelta tc.index)) = []) ∧
    (pieces ≠ [] → ∀ args, codec.fromStr (tc.arguments ++ String.join pieces) = some args →
      shownCalls codec (calls ++ [tc]) (pieces.map (toolCallDelta tc.index)) ≠ []) := by
  induction pieces generalizing tc with
  | nil => simp [shownCalls]
  | cons piece pieces ih =>
    obtain ⟨hquiet, hreads⟩ := @ih { tc with arguments := tc.arguments ++ piece } h
    simp only [List.map_cons, shownCalls, shownAgain, findCall_last h, pushArguments_last h]
    constructor
    · intro hempty hpieces
      obtain rfl : piece = "" := hpieces piece List.mem_cons_self
      have hrest := hquiet (by simp [hempty]) fun t ht => hpieces t (List.mem_cons_of_mem _ ht)
      rw [hrest, hempty, String.append_empty, hcodec.read_empty]
      rfl
    · rintro - args hargs hnone
      rw [List.append_eq_nil_iff] at hnone
      by_cases hlast : pieces = []
      · subst hlast
        simp only [String.join_cons, String.join_nil, String.append_empty] at hargs
        simp [hargs] at hnone
      · rw [String.join_cons, ← String.append_assoc] at hargs
        exact hreads hlast args hargs hnone.2

/-- A block's calls are shown as they are when they have no arguments, otherwise more often. -/
theorem shownCalls_block {codec : JsonCodec} (hcodec : codec.Lawful) {n : Nat}
    {block : Claude.ClaudeContentBlock} {events : List CanonicalStreamEvent}
    (h : Claude.BlockSaid codec n block events) {calls : List AccumulatedToolCall}
    (hcalls : ∀ c ∈ calls, c.index < n) :
    (NoArguments events ∧ shownCalls codec calls events = Claude.blockView.calls block) ∨
      (¬ NoArguments events ∧
        (Claude.blockView.calls block).length < (shownCalls codec calls events).length) := by
  cases h with
  | text pieces hpieces =>
    refine .inl ⟨by simp [NoArguments], ?_⟩
    clear hpieces
    induction pieces with
    | nil => rfl
    | cons piece pieces ih => exact ih
  | thinking events hevents hthinking hsignature =>
    refine .inl ⟨?_, ?_⟩
    · intro index delta hmem
      rcases hevents _ hmem with ⟨t, ht⟩ | ⟨t, ht⟩ <;> cases ht
    · clear hthinking hsignature
      induction events with
      | nil => rfl
      | cons e events ih =>
        have hrest := ih fun x hx => hevents x (List.mem_cons_of_mem _ hx)
        rcases hevents e List.mem_cons_self with ⟨t, rfl⟩ | ⟨t, rfl⟩ <;> exact hrest
  | redactedThinking raw data => exact .inl ⟨by simp [NoArguments], rfl⟩
  | @toolUse id name pieces input hpieces =>
    obtain ⟨hquiet, hreads⟩ := @shownCalls_pieces codec hcodec pieces calls ⟨n, id, name, ""⟩ hcalls
    rw [shownCalls]
    by_cases hempty : ∀ t ∈ pieces, t = ""
    · have hjoin : String.join pieces = "" := by
        simpa using (@Text.join_map_empty_iff String (fun t => t) pieces).mpr hempty
      have hinput : input = .object [] := by
        rcases hpieces with ⟨-, hinput⟩ | hread
        · exact hinput
        · rw [hjoin, hcodec.read_empty] at hread
          cases hread
      refine .inl ⟨?_, ?_⟩
      · intro index delta hmem
        obtain ⟨t, ht, heq⟩ := List.mem_map.mp ((List.mem_cons.mp hmem).resolve_left (by simp))
        obtain ⟨-, rfl⟩ := CanonicalStreamEvent.toolCallDelta.inj heq
        exact hempty t ht
      · rw [hquiet rfl hempty, hinput]
        rfl
    · rw [not_forall] at hempty
      obtain ⟨t, ht⟩ := hempty
      rw [Classical.not_imp] at ht
      have hread : codec.fromStr (String.join pieces) = some input := by
        rcases hpieces with ⟨hjoin, -⟩ | hread
        · have hall := @Text.join_map_empty_iff String (fun t => t) pieces |>.mp (by simpa using hjoin)
          exact absurd (hall t ht.1) ht.2
        · exact hread
      refine .inr ⟨?_, ?_⟩
      · intro hnone
        exact ht.2 (hnone n t (List.mem_cons_of_mem _ (List.mem_map_of_mem ht.1)))
      · have hne := hreads (List.ne_nil_of_mem ht.1) input (by simpa using hread)
        exact Nat.succ_lt_succ (List.length_pos_iff.mpr hne)

/-- A Claude reply's calls are shown as they are when none has arguments. -/
theorem shownCalls_said_iff {codec : JsonCodec} (hcodec : codec.Lawful) {n : Nat}
    {content : List Claude.ClaudeContentBlock} {events : List CanonicalStreamEvent}
    (h : Claude.BlocksSaid codec n content events) {calls : List AccumulatedToolCall}
    (hcalls : ∀ c ∈ calls, c.index < n) :
    (NoArguments events ∧
        shownCalls codec calls events = content.flatMap Claude.blockView.calls) ∨
      (¬ NoArguments events ∧ (content.flatMap Claude.blockView.calls).length <
        (shownCalls codec calls events).length) := by
  induction h generalizing calls with
  | nil n => exact .inl ⟨by simp [NoArguments], rfl⟩
  | @cons n block blocks events rest hblock hrest ih =>
    obtain ⟨new, hnew, -, hindex⟩ := Claude.collect_blockSaid hcodec append_last hblock hcalls
    have hlt : ∀ c ∈ calls ++ new, c.index < n + (Claude.blockView.calls block).length := by
      intro c hc
      rcases List.mem_append.mp hc with hc | hc
      · have hc' := hcalls c hc
        omega
      · exact hindex c hc
    rw [shownCalls_append, hnew, List.flatMap_cons]
    rcases shownCalls_block hcodec hblock hcalls with ⟨hnone, hshown⟩ | ⟨hsome, hshown⟩
    · rcases ih hlt with ⟨hnone', hshown'⟩ | ⟨hsome', hshown'⟩
      · refine .inl ⟨?_, by rw [hshown, hshown']⟩
        intro index delta hmem
        rcases List.mem_append.mp hmem with hmem | hmem
        · exact hnone index delta hmem
        · exact hnone' index delta hmem
      · refine .inr ⟨fun h => hsome' fun i d hd => h i d (List.mem_append_right _ hd), ?_⟩
        rw [List.length_append, List.length_append, hshown]
        omega
    · refine .inr ⟨fun h => hsome fun i d hd => h i d (List.mem_append_left _ hd), ?_⟩
      rw [List.length_append, List.length_append]
      rcases ih hlt with ⟨-, hshown'⟩ | ⟨-, hshown'⟩
      · rw [hshown']
        omega
      · omega

/-! ## The calls of a Chat reply -/

/-- The calls that begin, as they are shown then. -/
def begunCall (tc : StreamToolCall) : List SeenCall :=
  match tc.begins with
  | some (id, name) => [⟨id, name, .object []⟩]
  | none => []

/-- The calls behind a fragment's start. -/
def withBegun (calls : List AccumulatedToolCall) (tc : StreamToolCall) :
    List AccumulatedToolCall :=
  match tc.begins with
  | some (id, name) => calls ++ [⟨tc.index, id, name, ""⟩]
  | none => calls

abbrev startStep : List AccumulatedToolCall → StreamToolCall → List AccumulatedToolCall :=
  collectStep (fun call calls => calls ++ [call]) pushArguments

theorem startStep_eq (calls : List AccumulatedToolCall) (tc : StreamToolCall) :
    startStep calls tc = pushArguments tc.index tc.piece (withBegun calls tc) := by
  unfold startStep collectStep withBegun
  cases tc.begins <;> rfl

theorem shownCalls_fragment (codec : JsonCodec) (calls : List AccumulatedToolCall)
    (tc : StreamToolCall) (events : List CanonicalStreamEvent) :
    shownCalls codec calls (parseToolCall tc ++ events) = begunCall tc ++
      (if tc.piece = "" then [] else shownAgain codec (withBegun calls tc) tc.index tc.piece) ++
      shownCalls codec (startStep calls tc) events := by
  have hrest := shownCalls_append codec (parseToolCall tc) events calls
  have hstep := @OpenAIChat.collect_read_one (fun call calls => calls ++ [call]) pushArguments
    pushArguments_empty tc calls
  unfold StreamToolCall.read at hstep
  rw [hrest, hstep]
  congr 1
  rw [OpenAIChat.parseToolCall_eq, begunCall, withBegun]
  by_cases hpiece : tc.piece = ""
  · cases tc.begins <;> simp [hpiece, shownCalls]
  · cases tc.begins <;> simp [hpiece, shownCalls]

/-- Text and reasoning leave the calls alone. -/
theorem shownCalls_silent (codec : JsonCodec) {xs : List CanonicalStreamEvent}
    (h : xs.flatMap fragment = []) (ys : List CanonicalStreamEvent)
    (calls : List AccumulatedToolCall) :
    shownCalls codec calls (xs ++ ys) = shownCalls codec calls ys := by
  induction xs with
  | nil => rfl
  | cons e xs ih =>
    rw [List.flatMap_cons, List.append_eq_nil_iff] at h
    cases e with
    | toolCallStart index id name signature => exact absurd h.1 (by simp [fragment])
    | toolCallDelta index delta => exact absurd h.1 (by simp [fragment])
    | _ => exact ih h.2

theorem shownCalls_deltas (codec : JsonCodec) (deltas : List OpenAIChat.Delta)
    (calls : List AccumulatedToolCall) :
    shownCalls codec calls (deltas.flatMap OpenAIChat.deltaEvents) =
      shownCalls codec calls
        ((deltas.flatMap OpenAIChat.Delta.fragments).flatMap parseToolCall) := by
  induction deltas generalizing calls with
  | nil => rfl
  | cons d deltas ih =>
    rw [List.flatMap_cons, List.flatMap_cons, List.flatMap_append, OpenAIChat.deltaEvents,
      shownCalls_append, shownCalls_silent codec (OpenAIChat.flatMap_fragment_said d),
      shownCalls_append, ih, List.flatMap_append, OpenAIChat.flatMap_fragment_said,
      List.nil_append]

/-- No call's arguments read as JSON. -/
def NoneReads (codec : JsonCodec) (calls : List AccumulatedToolCall) : Prop :=
  ∀ tc ∈ calls, codec.fromStr tc.arguments = none

/-- At no point of the stream do the arguments of a call read as JSON. -/
def NeverReads (codec : JsonCodec) (calls : List AccumulatedToolCall)
    (fragments : List StreamToolCall) : Prop :=
  ∀ pre post, fragments = pre ++ post → NoneReads codec (pre.foldl startStep calls)

theorem neverReads_cons {codec : JsonCodec} {calls : List AccumulatedToolCall} {tc : StreamToolCall}
    {fragments : List StreamToolCall} :
    NeverReads codec calls (tc :: fragments) ↔
      NoneReads codec calls ∧ NeverReads codec (startStep calls tc) fragments := by
  constructor
  · intro h
    refine ⟨h [] _ rfl, ?_⟩
    rintro pre post rfl
    exact h (tc :: pre) post rfl
  · rintro ⟨hhere, hrest⟩ pre post hsplit
    cases pre with
    | nil => exact hhere
    | cons x pre =>
      obtain ⟨rfl, rfl⟩ := List.cons.inj hsplit
      exact hrest pre post rfl

/-- Pushing changes the call that is found, and no other. -/
theorem mem_pushArguments_iff {index : Nat} {delta : String} {calls : List AccumulatedToolCall}
    {tc : AccumulatedToolCall} (h : findCall index calls = some tc) :
    { tc with arguments := tc.arguments ++ delta } ∈ pushArguments index delta calls ∧
      ∀ c ∈ pushArguments index delta calls,
        c ∈ calls ∨ c = { tc with arguments := tc.arguments ++ delta } := by
  induction calls with
  | nil => cases h
  | cons first calls ih =>
    simp only [findCall, List.find?_cons] at h ih
    unfold pushArguments
    by_cases hindex : first.index = index
    · obtain rfl : first = tc := by simpa [hindex] using h
      rw [if_pos hindex]
      refine ⟨List.mem_cons_self, ?_⟩
      intro c hc
      rcases List.mem_cons.mp hc with rfl | hc
      · exact .inr rfl
      · exact .inl (List.mem_cons_of_mem _ hc)
    · simp only [beq_eq_false_iff_ne.mpr hindex] at h
      obtain ⟨hmem, hall⟩ := ih h
      rw [if_neg hindex]
      refine ⟨List.mem_cons_of_mem _ hmem, ?_⟩
      intro c hc
      rcases List.mem_cons.mp hc with rfl | hc
      · exact .inl List.mem_cons_self
      · exact (hall c hc).imp (List.mem_cons_of_mem _) id

/-- A fragment shows a call again just when its arguments read then. -/
theorem shownAgain_cases {codec : JsonCodec} {calls : List AccumulatedToolCall}
    (h : NoneReads codec calls) (index : Nat) (delta : String) :
    (NoneReads codec (pushArguments index delta calls) ∧
        shownAgain codec calls index delta = []) ∨
      (¬ NoneReads codec (pushArguments index delta calls) ∧
        0 < (shownAgain codec calls index delta).length) := by
  unfold shownAgain
  cases hfind : findCall index calls with
  | none =>
    rw [pushArguments_of_none hfind]
    exact .inl ⟨h, rfl⟩
  | some tc =>
    obtain ⟨hmem, hall⟩ := @mem_pushArguments_iff index delta calls tc hfind
    cases hread : codec.fromStr (tc.arguments ++ delta) with
    | none =>
      refine .inl ⟨?_, by simp [hread]⟩
      intro c hc
      rcases hall c hc with hc | rfl
      · exact h c hc
      · exact hread
    | some args =>
      refine .inr ⟨?_, by simp [hread]⟩
      intro hnone
      have hbad := hnone _ hmem
      simp only [hread] at hbad
      cases hbad

theorem length_begun_le (codec : JsonCodec) (fragments : List StreamToolCall)
    (calls : List AccumulatedToolCall) :
    (fragments.flatMap begunCall).length ≤
      (shownCalls codec calls (fragments.flatMap parseToolCall)).length := by
  induction fragments generalizing calls with
  | nil => simp
  | cons tc fragments ih =>
    have hrest := ih (startStep calls tc)
    rw [List.flatMap_cons, List.flatMap_cons, shownCalls_fragment]
    simp only [List.length_append]
    omega

/-- The calls are shown once each when their arguments never read, otherwise more often. -/
theorem shownCalls_fragments {codec : JsonCodec} (hcodec : codec.Lawful)
    (fragments : List StreamToolCall) {calls : List AccumulatedToolCall}
    (hcalls : NoneReads codec calls) :
    (NeverReads codec calls fragments ∧
        shownCalls codec calls (fragments.flatMap parseToolCall) = fragments.flatMap begunCall) ∨
      (¬ NeverReads codec calls fragments ∧ (fragments.flatMap begunCall).length <
        (shownCalls codec calls (fragments.flatMap parseToolCall)).length) := by
  induction fragments generalizing calls with
  | nil =>
    refine .inl ⟨?_, rfl⟩
    intro pre post hsplit
    obtain ⟨rfl, -⟩ := List.append_eq_nil_iff.mp hsplit.symm
    exact hcalls
  | cons tc fragments ih =>
    have hbegun : NoneReads codec (withBegun calls tc) := by
      intro c hc
      unfold withBegun at hc
      split at hc
      · rcases List.mem_append.mp hc with hc | hc
        · exact hcalls c hc
        · rw [List.mem_singleton.mp hc]
          exact hcodec.read_empty
      · exact hcalls c hc
    have hagain : (NoneReads codec (startStep calls tc) ∧ (if tc.piece = "" then [] else
          shownAgain codec (withBegun calls tc) tc.index tc.piece) = []) ∨
        (¬ NoneReads codec (startStep calls tc) ∧ 0 < (if tc.piece = "" then [] else
          shownAgain codec (withBegun calls tc) tc.index tc.piece).length) := by
      rw [startStep_eq]
      by_cases hpiece : tc.piece = ""
      · rw [hpiece, pushArguments_empty, if_pos rfl]
        exact .inl ⟨hbegun, rfl⟩
      · rw [if_neg hpiece]
        exact shownAgain_cases hbegun tc.index tc.piece
    rw [neverReads_cons, List.flatMap_cons, List.flatMap_cons, shownCalls_fragment]
    rcases hagain with ⟨hnone, hshown⟩ | ⟨hreads, hshown⟩
    · rw [hshown, List.append_nil]
      rcases ih hnone with ⟨hnever, hrest⟩ | ⟨hreads, hrest⟩
      · exact .inl ⟨⟨hcalls, hnever⟩, by rw [hrest]⟩
      · refine .inr ⟨fun h => hreads h.2, ?_⟩
        simp only [List.length_append]
        omega
    · refine .inr ⟨fun h => hreads (h.2 [] fragments rfl), ?_⟩
      have hrest := length_begun_le codec fragments (startStep calls tc)
      simp only [List.length_append]
      omega

end AnyConverter.Gemini
