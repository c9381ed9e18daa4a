import AnyConverter.Converters.ClaudeFidelity
import AnyConverter.Converters.Reassembly.Reasoning

/-!
# Signed thinking for a Responses client

Claude signs every thinking block and wants each back as it came.  The Responses writer keeps the
text and the signature of the open block in one field, with a NUL between them, and seals what is
there when the reply ends.

* `opened_replyEvents`: what a client opens of a reply, one block at most;
* `opened_eq_iff`: where it is the blocks of the message.
-/

set_option autoImplicit false

namespace AnyConverter.OpenAIResponses

open Transducer CanonicalStreamEvent Claude

/-! ## Blocks and their seals -/

/-- The sealed reasoning of a finished item. -/
def sealedIn : StreamEvent → Option String
  | .outputItemDone _ (.reasoning _ _ _ encryptedContent) => encryptedContent
  | _ => none

/-- What a client opens of a stream. -/
def opened (codec : JsonCodec) (events : List StreamEvent) : List (Option Value) :=
  (events.filterMap sealedIn).map (openSeal codec)

/-- A thinking block, as Anthropic has it. -/
def thinkingBlock (text signature : String) : Value :=
  .object [("type", .string "thinking"), ("thinking", .string text),
    ("signature", .string signature)]

def pieceText : ThinkingPiece → String
  | .thinking t => t
  | .signature _ => ""

def pieceSignature : ThinkingPiece → String
  | .thinking _ => ""
  | .signature d => d

/-- The text of a block. -/
def fullText (pieces : List ThinkingPiece) : String := String.join (pieces.map pieceText)

/-- The signature of a block. -/
def fullSignature (pieces : List ThinkingPiece) : String := String.join (pieces.map pieceSignature)

def thinkingPieces : WireBlock → Option (List ThinkingPiece)
  | .thinking _ pieces => some pieces
  | _ => none

/-- The thinking blocks of a message. -/
def thinkingBlocks (m : WireMessage) : List (List ThinkingPiece) :=
  m.blocks.filterMap thinkingPieces

/-- Every thinking block of the message is signed, and nothing is sealed whole. -/
structure SignsThinking (m : WireMessage) : Prop where
  signed : ∀ pieces ∈ thinkingBlocks m, fullSignature pieces ≠ ""
  noneSealed : ∀ raw, WireBlock.redactedThinking raw ∉ m.blocks

/-- There is one block at most; its text is put together in order, and its signature has no NUL. -/
def KeepsBlocks : List (List ThinkingPiece) → Prop
  | [] => True
  | [pieces] => NulsInPlace (unsignedPieces (pieces.map ThinkingPiece.said)) ∧
      thinkingTextEnd ∉ (fullSignature pieces).toList
  | _ :: _ :: _ => False

/-! ## The seal of a reply -/

variable {codec : JsonCodec} {w : World} {id model : String}

/-- What is sealed in a state: the open thinking block, once it is signed. -/
def sealedParts (s : StreamState) : Option (String × String) :=
  if signedByClaude s then some (thinkingParts s) else none

theorem sealedIn_closeThinking (codec : JsonCodec) (s : AdapterState) :
    (closeThinking codec s).1.1.filterMap sealedIn =
      (sealedParts s.toStreamState).toList.map fun p => sealThinking codec p.1 p.2 := by
  unfold closeThinking sealedParts
  split <;> rfl

theorem sealedIn_emitDone {s : AdapterState} {rid : String} (hid : s.responseId = some rid)
    (reason : StopReason) (usage : Option Usage) :
    (emitDone codec s reason usage).1.filterMap sealedIn =
      (sealedParts s.toStreamState).toList.map fun p => sealThinking codec p.1 p.2 := by
  unfold emitDone
  simp only [hid, List.filterMap_append, sealedIn_closeThinking]
  have hmessage : (closeMessage s.toStreamState (rid ++ "_msg_0")).1.filterMap sealedIn = [] := by
    unfold closeMessage
    split <;> rfl
  have hcalls : (s.accumulatedToolCalls.flatMap (closeCall s.toStreamState)).filterMap sealedIn = [] := by
    refine List.filterMap_eq_nil_iff.mpr fun e he => ?_
    obtain ⟨tc, -, hmem⟩ := List.mem_flatMap.mp he
    rcases List.mem_pair.mp hmem with rfl | rfl <;> rfl
  rw [hmessage, hcalls]
  simp [sealedIn]

theorem sealedIn_emit (s : AdapterState) {e : CanonicalStreamEvent} (he : IsBody e)
    (hsealed : ∀ raw, e ≠ sealedThinking .claude raw) :
    ∀ o ∈ emitted (emit codec s e).1, sealedIn o = none := by
  cases e with
  | start id model => exact he.elim
  | done reason usage => exact he.elim
  | textDelta t =>
    simp only [emit, emitTextDelta, emitted_ok]
    split <;> simp [sealedIn]
  | sealedThinking signer raw =>
    cases signer with
    | claude => exact absurd rfl (hsealed raw)
    | _ => simp [emit]
  | toolCallDelta index delta =>
    simp only [emit, emitToolCallDelta]
    split <;> simp [sealedIn]
  | toolCallStart index callId name signature => simp [emit, emitToolCallStart, sealedIn]
  | _ => simp [emit]

/-- Of a reply, what is open behind its body is sealed, and nothing else. -/
theorem opened_replyEvents (hcodec : codec.Lawful) {body : List CanonicalStreamEvent}
    (hbody : ∀ e ∈ body, IsBody e) (hsealed : ∀ raw, sealedThinking .claude raw ∉ body)
    (reason : StopReason) (usage : Option Usage) :
    opened codec (replyEvents codec w id model body reason usage) =
      (sealedParts (stateAfter codec w id model body).toStreamState).toList.map fun p =>
        some (thinkingBlock p.1 p.2) := by
  have hnone : (bodyEvents codec w id model body).filterMap sealedIn = [] := by
    refine List.filterMap_eq_nil_iff.mpr fun o ho => ?_
    obtain ⟨pre, e, post, hsplit, ho⟩ := (mem_outputs_iff _).mp ho
    have hmem : e ∈ body := hsplit ▸ List.mem_append_right _ List.mem_cons_self
    exact sealedIn_emit _ (hbody e hmem) (fun raw heq => hsealed raw (heq ▸ hmem)) o ho
  have hid := (@stateAfter_frame codec w id model body hbody).1
  have hstart : (emitStart (.fresh w) id model).1.filterMap sealedIn = [] := rfl
  have hopen : ∀ p : String × String,
      openSeal codec (sealThinking codec p.1 p.2) = some (thinkingBlock p.1 p.2) :=
    fun p => openSeal_sealThinking hcodec p.1 p.2
  rw [opened, replyEvents_eq, List.filterMap_append, List.filterMap_append, hstart, hnone,
    sealedIn_emitDone hid, List.append_nil, List.nil_append, List.map_map]
  refine List.map_congr_left fun p _ => ?_
  rw [Function.comp_apply]
  exact hopen p

/-! ## The body of a message -/

theorem isBody_blocksSaid (blocks : List WireBlock) (n : Nat) :
    ∀ e ∈ blocksSaid n blocks, IsBody e := by
  induction blocks generalizing n with
  | nil => simp [blocksSaid]
  | cons block blocks ih =>
    intro e he
    rcases List.mem_append.mp he with he | he
    · cases block with
      | text pieces =>
        obtain ⟨t, -, rfl⟩ := List.mem_map.mp he
        trivial
      | thinking signed pieces =>
        obtain ⟨piece, -, rfl⟩ := List.mem_map.mp he
        cases piece <;> trivial
      | redactedThinking raw =>
        obtain rfl := List.mem_singleton.mp he
        trivial
      | toolUse id name input pieces =>
        rcases List.mem_cons.mp he with rfl | he
        · trivial
        · obtain ⟨t, -, rfl⟩ := List.mem_map.mp he
          trivial
    · exact ih _ e he

/-- The thinking of a body. -/
def isThinking : CanonicalStreamEvent → Bool
  | thinkingDelta _ => true
  | thinkingSignature .claude _ => true
  | _ => false

theorem thinking_said (n : Nat) (block : WireBlock) :
    (block.said n).filter isThinking = ((thinkingPieces block).getD []).map ThinkingPiece.said := by
  cases block with
  | thinking signed pieces =>
    refine List.filter_eq_self.mpr fun e he => ?_
    obtain ⟨piece, -, rfl⟩ := List.mem_map.mp he
    cases piece <;> rfl
  | text pieces =>
    refine List.filter_eq_nil_iff.mpr fun e he => ?_
    obtain ⟨t, -, rfl⟩ := List.mem_map.mp he
    simp [isThinking]
  | redactedThinking raw => rfl
  | toolUse id name input pieces =>
    refine List.filter_eq_nil_iff.mpr fun e he => ?_
    rcases List.mem_cons.mp he with rfl | he
    · simp [isThinking]
    · obtain ⟨t, -, rfl⟩ := List.mem_map.mp he
      simp [isThinking]

theorem thinking_blocksSaid (blocks : List WireBlock) (n : Nat) :
    (blocksSaid n blocks).filter isThinking =
      (blocks.filterMap thinkingPieces).flatten.map ThinkingPiece.said := by
  induction blocks generalizing n with
  | nil => rfl
  | cons block blocks ih =>
    rw [blocksSaid, List.filter_append, ih, thinking_said, List.filterMap_cons]
    cases thinkingPieces block <;> simp

theorem unsignedPieces_cons {xs ys : List CanonicalStreamEvent}
    (h : unsignedPieces xs = unsignedPieces ys) (e : CanonicalStreamEvent) :
    unsignedPieces (e :: xs) = unsignedPieces (e :: ys) := by
  cases e with
  | thinkingSignature signer d => cases signer <;> simp [unsignedPieces, h]
  | _ => simp [unsignedPieces, h]

theorem of_not_isThinking {e : CanonicalStreamEvent} (h : isThinking e = false) :
    thinkingOf e = "" ∧ signatureOf e = "" ∧
      ∀ body, unsignedPieces (e :: body) = unsignedPieces body := by
  cases e with
  | thinkingSignature signer d =>
    cases signer with
    | claude => cases h
    | _ => exact ⟨rfl, rfl, fun _ => rfl⟩
  | thinkingDelta t => cases h
  | _ => exact ⟨rfl, rfl, fun _ => rfl⟩

/-- The field depends on the thinking of a body alone. -/
theorem of_thinking (body : List CanonicalStreamEvent) :
    String.join (body.map thinkingOf) = String.join ((body.filter isThinking).map thinkingOf) ∧
    String.join (body.map signatureOf) = String.join ((body.filter isThinking).map signatureOf) ∧
    unsignedPieces body = unsignedPieces (body.filter isThinking) := by
  induction body with
  | nil => exact ⟨rfl, rfl, rfl⟩
  | cons e body ih =>
    obtain ⟨htext, hsignature, hpieces⟩ := ih
    cases he : isThinking e with
    | true =>
      rw [List.filter_cons_of_pos he]
      simp only [List.map_cons, String.join_cons, htext, hsignature, true_and]
      exact unsignedPieces_cons hpieces e
    | false =>
      obtain ⟨ht, hs, hp⟩ := of_not_isThinking he
      rw [List.filter_cons_of_neg (by simp [he]), hp]
      simp only [List.map_cons, String.join_cons, ht, hs, String.empty_append]
      exact ⟨htext, hsignature, hpieces⟩

theorem join_said (pieces : List ThinkingPiece) :
    String.join ((pieces.map ThinkingPiece.said).map thinkingOf) = fullText pieces ∧
    String.join ((pieces.map ThinkingPiece.said).map signatureOf) = fullSignature pieces := by
  rw [List.map_map, List.map_map]
  constructor
  · refine congrArg String.join (List.map_congr_left fun piece _ => ?_)
    cases piece <;> rfl
  · refine congrArg String.join (List.map_congr_left fun piece _ => ?_)
    cases piece <;> rfl

theorem sealed_not_mem_blocksSaid {blocks : List WireBlock}
    (h : ∀ raw, WireBlock.redactedThinking raw ∉ blocks) (n : Nat) (raw : Value) :
    sealedThinking .claude raw ∉ blocksSaid n blocks := by
  induction blocks generalizing n with
  | nil => simp [blocksSaid]
  | cons block blocks ih =>
    intro hmem
    rcases List.mem_append.mp hmem with hmem | hmem
    · cases block with
      | redactedThinking raw' => exact h raw' List.mem_cons_self
      | thinking signed pieces =>
        obtain ⟨piece, -, heq⟩ := List.mem_map.mp hmem
        cases piece <;> cases heq
      | text pieces => simp [WireBlock.said] at hmem
      | toolUse id name input pieces => simp [WireBlock.said] at hmem
    · exact ih (fun raw' hmem' => h raw' (List.mem_cons_of_mem _ hmem')) _ hmem

/-! ## One block -/

/-- Of one signed block, its text and its signature are sealed just where both are kept. -/
theorem sealedParts_eq_iff {body : List CanonicalStreamEvent} (hbody : ∀ e ∈ body, IsBody e)
    (hsigned : String.join (body.map signatureOf) ≠ "") :
    sealedParts (stateAfter codec w id model body).toStreamState =
        some (String.join (body.map thinkingOf), String.join (body.map signatureOf)) ↔
      NulsInPlace (unsignedPieces body) ∧
        thinkingTextEnd ∉ (String.join (body.map signatureOf)).toList := by
  have hreasoning := @reasoning_iff codec w id model body hbody
  have hmark := (@signed_stateAfter codec w id model body hbody).mark hsigned
  obtain ⟨text, htext⟩ := Text.rsplitOnce_of_mem hmark.1
  have hparts : (thinkingParts (stateAfter codec w id model body).toStreamState).2 =
      Text.afterLast thinkingTextEnd (String.join (body.map signatureOf)) := by
    rw [thinkingParts, splitThinking, htext]
    exact hmark.2
  unfold sealedParts
  rw [signedByClaude_stateAfter hbody]
  constructor
  · intro hseal
    by_cases hsigns : signs body = true
    · rw [if_pos hsigns] at hseal hreasoning
      have hsame := Option.some.inj hseal
      rw [if_pos hsigns] at hreasoning
      have hkept := hreasoning.mp (congrArg Prod.fst hsame)
      exact ⟨hkept.2, hkept.1⟩
    · rw [if_neg hsigns] at hseal
      cases hseal
  · rintro ⟨hplace, hnul⟩
    have hlast := Text.afterLast_of_not_mem hnul
    have hsigns : signs body = true := by
      unfold signs
      rw [hlast]
      simpa using hsigned
    rw [if_pos hsigns, if_pos hsigns] at hreasoning
    rw [if_pos hsigns]
    rw [hlast] at hparts
    exact congrArg some (Prod.ext (hreasoning.mpr ⟨hnul, hplace⟩) hparts)

/-- What a client opens of a message. -/
theorem opened_message (hcodec : codec.Lawful) (w : World) {m : WireMessage}
    (h : SignsThinking m) :
    opened codec (outputs (total (emit codec)) (.fresh w) m.said) =
      (sealedParts (stateAfter codec w m.message.id m.message.model
        (blocksSaid 0 m.blocks)).toStreamState).toList.map fun p => some (thinkingBlock p.1 p.2) :=
  opened_replyEvents hcodec (isBody_blocksSaid m.blocks 0) (sealed_not_mem_blocksSaid h.noneSealed 0)
    m.stopReason m.usage

theorem thinkingBlock_inj {text signature text' signature' : String}
    (h : thinkingBlock text signature = thinkingBlock text' signature') :
    text = text' ∧ signature = signature' := by
  simpa [thinkingBlock] using h

/-- The sealed items give the thinking blocks back just where there is one at most, whose text is
kept and whose signature has no NUL. -/
theorem opened_eq_iff {codec : JsonCodec} (hcodec : codec.Lawful) {w : World} {m : WireMessage}
    (h : SignsThinking m) :
    opened codec (outputs (total (emit codec)) (.fresh w) m.said) =
        (thinkingBlocks m).map (fun pieces =>
          some (thinkingBlock (fullText pieces) (fullSignature pieces))) ↔
      KeepsBlocks (thinkingBlocks m) := by
  have hbody := isBody_blocksSaid m.blocks 0
  obtain ⟨htext, hsignature, hpieces⟩ := of_thinking (blocksSaid 0 m.blocks)
  rw [thinking_blocksSaid] at htext hsignature hpieces
  rw [opened_message hcodec w h]
  have hsigned := h.signed
  unfold thinkingBlocks at hsigned ⊢
  cases hblocks : m.blocks.filterMap thinkingPieces with
  | nil =>
    have hunsigned := @signedByClaude_stateAfter codec w m.message.id m.message.model _ hbody
    rw [hblocks] at hsignature
    have hnone : signs (blocksSaid 0 m.blocks) = false := by
      unfold signs
      rw [hsignature]
      rfl
    rw [hnone] at hunsigned
    unfold sealedParts
    rw [if_neg (by simp [hunsigned])]
    exact iff_of_true rfl trivial
  | cons pieces rest =>
    cases rest with
    | nil =>
      rw [hblocks, List.flatten_singleton] at htext hsignature hpieces
      obtain ⟨hsaidText, hsaidSignature⟩ := join_said pieces
      rw [hsaidText] at htext
      rw [hsaidSignature] at hsignature
      have hne : String.join ((blocksSaid 0 m.blocks).map signatureOf) ≠ "" := by
        rw [hsignature]
        exact hsigned pieces (hblocks ▸ List.mem_cons_self)
      have hone := @sealedParts_eq_iff codec w m.message.id m.message.model _ hbody hne
      rw [htext, hsignature, hpieces] at hone
      refine Iff.trans ⟨fun heq => ?_, fun heq => ?_⟩ hone
      · cases hseal : sealedParts (stateAfter codec w m.message.id m.message.model
          (blocksSaid 0 m.blocks)).toStreamState with
        | none =>
          rw [hseal] at heq
          cases heq
        | some p =>
          rw [hseal] at heq
          obtain ⟨hp, hs⟩ := thinkingBlock_inj (Option.some.inj (List.singleton_inj.mp heq))
          rw [← hp, ← hs]
      · rw [heq]
        rfl
    | cons second rest =>
      refine iff_of_false (fun heq => ?_) id
      have hlength := congrArg List.length heq
      have hle := @Option.length_toList_le _ (sealedParts (stateAfter codec w m.message.id m.message.model
        (blocksSaid 0 m.blocks)).toStreamState)
      simp only [List.length_map, List.length_cons] at hlength
      omega

/-- One thought in two pieces, its signature in two pieces, and an answer. -/
def thoughtOnce : WireMessage where
  message := ⟨"msg_1", "m", none⟩
  blocks := [.thinking true [.thinking "Six times ", .thinking "seven", .signature "c2ln",
    .signature "bmF0"], .text ["42"]]
  last := none

theorem thoughtOnce_signs : SignsThinking thoughtOnce := ⟨by decide, by simp [thoughtOnce]⟩

theorem thoughtOnce_opened :
    opened JsonText.compactCodec
        (outputs (total (emit JsonText.compactCodec)) (.fresh .counting) thoughtOnce.said) =
      [some (thinkingBlock "Six times seven" "c2lnbmF0")] :=
  (opened_eq_iff JsonText.compactCodec_lawful thoughtOnce_signs).mpr ⟨trivial, by decide⟩

/-- Two thoughts, each with its signature, and a call between them. -/
def thoughtTwice : WireMessage where
  message := ⟨"msg_1", "m", none⟩
  blocks := [.thinking true [.thinking "Ask.", .signature "c2ln"],
    .toolUse "toolu_1" "clock" (.object []) [],
    .thinking true [.thinking "Answer.", .signature "bmF0"]]
  last := none

theorem thoughtTwice_signs : SignsThinking thoughtTwice := ⟨by decide, by simp [thoughtTwice]⟩

/-- Two blocks come back as one, with one signature behind the other. -/
theorem thoughtTwice_opened :
    SignsThinking thoughtTwice ∧
      opened JsonText.compactCodec
          (outputs (total (emit JsonText.compactCodec)) (.fresh .counting) thoughtTwice.said) =
        [some (thinkingBlock "Ask.Answer." "c2lnbmF0")] ∧
      opened JsonText.compactCodec
          (outputs (total (emit JsonText.compactCodec)) (.fresh .counting) thoughtTwice.said) ≠
        (thinkingBlocks thoughtTwice).map fun pieces =>
          some (thinkingBlock (fullText pieces) (fullSignature pieces)) := by
  have hopened : opened JsonText.compactCodec
      (outputs (total (emit JsonText.compactCodec)) (.fresh .counting) thoughtTwice.said) =
        [some (thinkingBlock "Ask.Answer." "c2lnbmF0")] := by
    rw [opened_message JsonText.compactCodec_lawful _ thoughtTwice_signs]
    rfl
  refine ⟨thoughtTwice_signs, hopened, fun heq => ?_⟩
  rw [hopened] at heq
  have hlength := congrArg List.length heq
  cases hlength

end AnyConverter.OpenAIResponses
