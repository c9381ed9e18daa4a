import AnyConverter.Converters.Reassembly.Streamed

/-!
# Signed reasoning in a Responses stream

The Responses writer holds the thinking of a reply in one field: the text, a NUL, the signature.
The field is read back at its last NUL.  A NUL of the reply's own therefore misplaces what comes
behind it, and one in the signature cuts it short.

* `reasoning_iff`: when the reasoning of the completed response is the reply's.
-/

set_option autoImplicit false

namespace AnyConverter.OpenAIResponses

open CanonicalStreamEvent

/-! ## The field -/

/-- The field with a piece of thinking added: in front of the last NUL, at the end without one. -/
def hold (held piece : String) : String :=
  match Text.rsplitOnce thinkingTextEnd held with
  | some (text, signature) => text ++ piece ++ String.singleton thinkingTextEnd ++ signature
  | none => held ++ piece

theorem hold_of_not_mem {held : String} (h : thinkingTextEnd ∉ held.toList) (piece : String) :
    hold held piece = held ++ piece := by
  rw [hold, Text.rsplitOnce_eq_none h]

theorem hold_mid {signature : String} (h : thinkingTextEnd ∉ signature.toList)
    (text piece : String) :
    hold (text ++ String.singleton thinkingTextEnd ++ signature) piece =
      text ++ piece ++ String.singleton thinkingTextEnd ++ signature := by
  rw [hold, Text.rsplitOnce_append h]

theorem length_hold (held piece : String) : (hold held piece).length = held.length + piece.length := by
  unfold hold
  split
  · rename_i text signature hsplit
    rw [(Text.rsplitOnce_eq_some hsplit).1]
    simp only [String.length_append]
    omega
  · simp

/-- What an event does to the field, and to the mark that a signature has begun. -/
def fieldStep (field : String × Bool) : CanonicalStreamEvent → String × Bool
  | thinkingDelta piece => (hold field.1 piece, field.2)
  | thinkingSignature .claude delta =>
    if delta = "" then field
    else if field.2 then (field.1 ++ delta, true)
    else (field.1 ++ String.singleton thinkingTextEnd ++ delta, true)
  | _ => field

def heldField (body : List CanonicalStreamEvent) : String × Bool := body.foldl fieldStep ("", false)

section
variable {codec : JsonCodec} {w : World} {id model : String} {body : List CanonicalStreamEvent}

theorem heldField_stateAfter (hbody : ∀ e ∈ body, IsBody e) :
    (stateAfter codec w id model body).thinkingSignature = (heldField body).1 ∧
      (stateAfter codec w id model body).thinkingSignatureBy =
        if (heldField body).2 then some .claude else none := by
  induction body using List.reverseRecOn with
  | nil => exact ⟨rfl, rfl⟩
  | append_singleton pre e ih =>
    obtain ⟨hfield, hby⟩ := ih fun x hx => hbody x (List.mem_append_left _ hx)
    have he : IsBody e := hbody e (by simp)
    rw [stateAfter_append, heldField, List.foldl_append, ← heldField]
    show _ = (fieldStep (heldField pre) e).1 ∧ _ = if (fieldStep (heldField pre) e).2 then _ else _
    generalize heldField pre = field at hfield hby
    generalize stateAfter codec w id model pre = s at hfield hby
    by_cases hdelta : ∃ t, e = thinkingDelta t
    · obtain ⟨t, rfl⟩ := hdelta
      refine ⟨?_, ?_⟩
      · simp only [emit, emitThinkingDelta, splitThinking, fieldStep, hold, hfield]
        cases Text.rsplitOnce thinkingTextEnd field.1 <;> rfl
      · show _ = if field.2 = true then some Format.claude else none
        rw [← hby]
        simp only [emit, emitThinkingDelta]
        split <;> rfl
    by_cases hsignature : ∃ by_ t, e = thinkingSignature by_ t
    · obtain ⟨by_, t, rfl⟩ := hsignature
      cases by_ with
      | claude =>
        by_cases ht : t = ""
        · simp [emit, emitThinkingSignature, fieldStep, ht, hfield, hby]
        · by_cases hmark : field.2 = true
          · simp [emit, emitThinkingSignature, fieldStep, ht, hfield, hby, hmark]
          · simp [emit, emitThinkingSignature, fieldStep, ht, hfield, hby, hmark]
      | _ => exact ⟨hfield, hby⟩
    rw [not_exists] at hdelta
    simp only [not_exists] at hsignature
    obtain ⟨hsame, hsameBy⟩ := @emit_thinking codec s e he hdelta hsignature
    have hskip : fieldStep field e = field := by
      cases e with
      | thinkingDelta t => exact absurd rfl (hdelta t)
      | thinkingSignature by_ t => exact absurd rfl (hsignature by_ t)
      | _ => rfl
    rw [hsame, hsameBy, hskip]
    exact ⟨hfield, hby⟩

end

/-! ## Before the signature -/

/-- The thinking that streams before the first piece of a signature. -/
def unsignedPieces : List CanonicalStreamEvent → List String
  | [] => []
  | thinkingDelta piece :: events => piece :: unsignedPieces events
  | thinkingSignature .claude delta :: events =>
    if delta = "" then unsignedPieces events else []
  | _ :: events => unsignedPieces events

/-- What is moved behind the later pieces: the last NUL of a piece and what follows it. -/
def nulTail (piece : String) : String :=
  String.singleton thinkingTextEnd ++ Text.afterLast thinkingTextEnd piece

/-- No NUL, or one that may stand behind the later pieces as well as in front of them. -/
def NulsInPlace : List String → Prop
  | [] => True
  | piece :: rest =>
    if thinkingTextEnd ∈ piece.toList then
      String.join rest ++ nulTail piece = nulTail piece ++ String.join rest
    else NulsInPlace rest

theorem split_nulTail {piece : String} (h : thinkingTextEnd ∈ piece.toList) :
    ∃ text, piece = text ++ nulTail piece ∧
      thinkingTextEnd ∉ (Text.afterLast thinkingTextEnd piece).toList := by
  obtain ⟨text, hsplit⟩ := Text.rsplitOnce_of_mem h
  obtain ⟨hpiece, hmem⟩ := Text.rsplitOnce_eq_some hsplit
  refine ⟨text, ?_, hmem⟩
  rw [nulTail, ← String.append_assoc]
  exact hpiece

/-- Behind a NUL, pieces go in front of it. -/
theorem foldl_hold_nul (pieces : List String) {signature : String}
    (h : thinkingTextEnd ∉ signature.toList) (text : String) :
    pieces.foldl hold (text ++ String.singleton thinkingTextEnd ++ signature) =
      text ++ String.join pieces ++ String.singleton thinkingTextEnd ++ signature := by
  induction pieces generalizing text with
  | nil => simp
  | cons piece pieces ih =>
    rw [List.foldl_cons, hold_mid h, ih]
    simp [String.append_assoc]

theorem foldl_hold_iff (pieces : List String) {held : String}
    (h : thinkingTextEnd ∉ held.toList) :
    pieces.foldl hold held = held ++ String.join pieces ↔ NulsInPlace pieces := by
  induction pieces generalizing held with
  | nil => simp [NulsInPlace]
  | cons piece pieces ih =>
    rw [List.foldl_cons, hold_of_not_mem h, NulsInPlace, String.join_cons, ← String.append_assoc]
    split
    · rename_i hmem
      obtain ⟨text, hpiece, htail⟩ := split_nulTail hmem
      have hheld : held ++ piece = held ++ text ++ String.singleton thinkingTextEnd ++
          Text.afterLast thinkingTextEnd piece := by
        conv_lhs => rw [hpiece, nulTail]
        simp only [String.append_assoc]
      rw [hheld, foldl_hold_nul pieces htail]
      simp only [nulTail, String.append_assoc, String.append_right_inj]
    · rename_i hmem
      exact ih (by simp [h, hmem])

/-! ## Behind the signature -/

/-- The pieces before the signature are held like any others; a signature closes them. -/
theorem heldField_unsigned {pre : List CanonicalStreamEvent}
    (hpre : ∀ e ∈ pre, signatureOf e = "") (held : String) :
    pre.foldl fieldStep (held, false) = ((unsignedPieces pre).foldl hold held, false) ∧
      String.join (unsignedPieces pre) = String.join (pre.map thinkingOf) := by
  induction pre generalizing held with
  | nil => exact ⟨rfl, rfl⟩
  | cons e pre ih =>
    have he := hpre e List.mem_cons_self
    have hrest := fun held => ih (fun x hx => hpre x (List.mem_cons_of_mem _ hx)) held
    cases e with
    | thinkingDelta piece =>
      obtain ⟨hfield, hjoin⟩ := hrest (hold held piece)
      simp [fieldStep, unsignedPieces, thinkingOf, hfield, hjoin]
    | thinkingSignature signer delta =>
      obtain ⟨hfield, hjoin⟩ := hrest held
      cases signer with
      | claude =>
        have hdelta : delta = "" := he
        simp [fieldStep, unsignedPieces, thinkingOf, hdelta, hfield, hjoin]
      | _ => simp [fieldStep, unsignedPieces, thinkingOf, hfield, hjoin]
    | _ =>
      obtain ⟨hfield, hjoin⟩ := hrest held
      simp [fieldStep, unsignedPieces, thinkingOf, hfield, hjoin]

theorem unsignedPieces_append {pre : List CanonicalStreamEvent}
    (hpre : ∀ e ∈ pre, signatureOf e = "") {delta : String} (hdelta : delta ≠ "")
    (post : List CanonicalStreamEvent) :
    unsignedPieces (pre ++ thinkingSignature .claude delta :: post) = unsignedPieces pre := by
  induction pre with
  | nil => simp [unsignedPieces, hdelta]
  | cons e pre ih =>
    have he := hpre e List.mem_cons_self
    have hrest := ih fun x hx => hpre x (List.mem_cons_of_mem _ hx)
    cases e with
    | thinkingDelta piece => simp [unsignedPieces, hrest]
    | thinkingSignature signer piece =>
      cases signer with
      | claude =>
        have hpiece : piece = "" := he
        simp [unsignedPieces, hpiece, hrest]
      | _ => simp [unsignedPieces, hrest]
    | _ => simp [unsignedPieces, hrest]

/-- While the signature has no NUL, later pieces find the NUL in front of it. -/
theorem heldField_signed {post : List CanonicalStreamEvent} {text signature : String}
    (h : thinkingTextEnd ∉ (signature ++ String.join (post.map signatureOf)).toList) :
    post.foldl fieldStep (text ++ String.singleton thinkingTextEnd ++ signature, true) =
      (text ++ String.join (post.map thinkingOf) ++ String.singleton thinkingTextEnd ++
        (signature ++ String.join (post.map signatureOf)), true) := by
  induction post generalizing text signature with
  | nil => simp
  | cons e post ih =>
    have hhere : thinkingTextEnd ∉ signature.toList := by
      intro hmem
      exact h (by simp [hmem])
    cases e with
    | thinkingDelta piece =>
      have hrest := @ih (text ++ piece) signature (by simpa [signatureOf] using h)
      rw [List.foldl_cons, fieldStep, hold_mid hhere, hrest]
      simp only [List.map_cons, String.join_cons, thinkingOf, signatureOf, String.empty_append,
        String.append_assoc]
    | thinkingSignature signer delta =>
      cases signer with
      | claude =>
        by_cases hdelta : delta = ""
        · subst hdelta
          have hrest := @ih text signature (by simpa [signatureOf] using h)
          simpa [fieldStep, thinkingOf, signatureOf] using hrest
        · have hrest := @ih text (signature ++ delta)
            (by simpa [signatureOf, String.append_assoc] using h)
          have hassoc : text ++ String.singleton thinkingTextEnd ++ (signature ++ delta) =
              text ++ String.singleton thinkingTextEnd ++ signature ++ delta := by
            simp only [String.append_assoc]
          rw [hassoc] at hrest
          rw [List.foldl_cons, fieldStep, if_neg hdelta, if_pos rfl, hrest]
          simp only [List.map_cons, String.join_cons, thinkingOf, signatureOf,
            String.empty_append, String.append_assoc]
      | _ =>
        have hrest := @ih text signature (by simpa [signatureOf] using h)
        simpa [fieldStep, thinkingOf, signatureOf] using hrest
    | _ =>
      have hrest := @ih text signature (by simpa [signatureOf] using h)
      simpa [fieldStep, thinkingOf, signatureOf] using hrest

/-- The field is as long as what went into it. -/
theorem length_heldField_signed (post : List CanonicalStreamEvent) (held : String) :
    (post.foldl fieldStep (held, true)).2 = true ∧
      (post.foldl fieldStep (held, true)).1.length = held.length +
        (String.join (post.map thinkingOf)).length +
        (String.join (post.map signatureOf)).length := by
  induction post generalizing held with
  | nil => simp
  | cons e post ih =>
    cases e with
    | thinkingDelta piece =>
      obtain ⟨hmark, hlength⟩ := ih (hold held piece)
      refine ⟨hmark, ?_⟩
      rw [List.foldl_cons, fieldStep, hlength, length_hold]
      simp only [List.map_cons, String.join_cons, thinkingOf, signatureOf, String.empty_append,
        String.length_append]
      omega
    | thinkingSignature signer delta =>
      cases signer with
      | claude =>
        by_cases hdelta : delta = ""
        · subst hdelta
          simpa [fieldStep, thinkingOf, signatureOf] using ih held
        · obtain ⟨hmark, hlength⟩ := ih (held ++ delta)
          rw [List.foldl_cons, fieldStep, if_neg hdelta, if_pos rfl]
          refine ⟨hmark, ?_⟩
          rw [hlength]
          simp only [List.map_cons, String.join_cons, thinkingOf, signatureOf,
            String.empty_append, String.length_append]
          omega
      | _ => simpa [fieldStep, thinkingOf, signatureOf] using ih held
    | _ => simpa [fieldStep, thinkingOf, signatureOf] using ih held

/-! ## The whole reply -/

theorem exists_first_signature {body : List CanonicalStreamEvent}
    (h : String.join (body.map signatureOf) ≠ "") :
    ∃ pre delta post, body = pre ++ thinkingSignature .claude delta :: post ∧ delta ≠ "" ∧
      ∀ e ∈ pre, signatureOf e = "" := by
  induction body with
  | nil => exact absurd rfl h
  | cons e body ih =>
    by_cases he : signatureOf e = ""
    · have hrest : String.join (body.map signatureOf) ≠ "" := by simpa [he] using h
      obtain ⟨pre, delta, post, rfl, hdelta, hpre⟩ := ih hrest
      refine ⟨e :: pre, delta, post, rfl, hdelta, ?_⟩
      intro x hx
      rcases List.mem_cons.mp hx with rfl | hx
      · exact he
      · exact hpre x hx
    · cases e with
      | thinkingSignature signer delta =>
        cases signer with
        | claude => exact ⟨[], delta, body, rfl, he, by simp⟩
        | _ => exact absurd rfl he
      | _ => exact absurd rfl he

theorem length_foldl_hold (pieces : List String) (held : String) :
    (pieces.foldl hold held).length = held.length + (String.join pieces).length := by
  induction pieces generalizing held with
  | nil => simp
  | cons piece pieces ih =>
    rw [List.foldl_cons, ih, length_hold, String.join_cons, String.length_append]
    omega

variable {codec : JsonCodec} {w : World} {id model : String} {body : List CanonicalStreamEvent}

/-- The completed response has the reasoning of the reply: when it is signed, the signature has no
NUL and those of the text are in place; otherwise when there is none. -/
theorem reasoning_iff (hbody : ∀ e ∈ body, IsBody e) :
    (if signs body then (thinkingParts (stateAfter codec w id model body).toStreamState).1 else "") =
        String.join (body.map thinkingOf) ↔
      if signs body then
        thinkingTextEnd ∉ (String.join (body.map signatureOf)).toList ∧
          NulsInPlace (unsignedPieces body)
      else String.join (body.map thinkingOf) = "" := by
  by_cases hsigns : signs body = true
  swap
  · rw [if_neg hsigns, if_neg hsigns]
    exact eq_comm
  rw [if_pos hsigns, if_pos hsigns]
  have hsignature : String.join (body.map signatureOf) ≠ "" := by
    intro hempty
    simp [signs, hempty, Text.afterLast_of_not_mem] at hsigns
  obtain ⟨hmark, hlast⟩ := (@signed_stateAfter codec w id model body hbody).mark hsignature
  have hfield := (@heldField_stateAfter codec w id model body hbody).1
  obtain ⟨pre, delta, post, rfl, hdelta, hpre⟩ := exists_first_signature hsignature
  obtain ⟨hheld, hjoin⟩ := heldField_unsigned hpre ""
  have hnone := Text.join_map_empty_iff.mpr hpre
  have hopen : heldField (pre ++ thinkingSignature .claude delta :: post) =
      post.foldl fieldStep ((unsignedPieces pre).foldl hold "" ++
        String.singleton thinkingTextEnd ++ delta, true) := by
    rw [heldField, List.foldl_append, hheld, List.foldl_cons, fieldStep, if_neg hdelta]
    rfl
  have hS : String.join ((pre ++ thinkingSignature .claude delta :: post).map signatureOf) =
      delta ++ String.join (post.map signatureOf) := by
    simp [String.join_append, hnone, signatureOf]
  have hR : String.join ((pre ++ thinkingSignature .claude delta :: post).map thinkingOf) =
      String.join (unsignedPieces pre) ++ String.join (post.map thinkingOf) := by
    simp [String.join_append, hjoin, thinkingOf]
  rw [hR, unsignedPieces_append hpre hdelta, thinkingParts, splitThinking, hfield]
  rw [hfield] at hmark hlast
  rw [hS] at hlast ⊢
  by_cases hnul : thinkingTextEnd ∈ (delta ++ String.join (post.map signatureOf)).toList
  · -- the field is cut behind a NUL of the signature, and what is left is too long
    obtain ⟨text, htext⟩ := Text.rsplitOnce_of_mem hmark
    obtain ⟨signed, hsigned⟩ := Text.rsplitOnce_of_mem hnul
    have hlong := (length_heldField_signed post ((unsignedPieces pre).foldl hold "" ++
      String.singleton thinkingTextEnd ++ delta)).2
    rw [← hopen, (Text.rsplitOnce_eq_some htext).1, hlast] at hlong
    have hcut := congrArg String.length (Text.rsplitOnce_eq_some hsigned).1
    simp only [String.length_append, length_foldl_hold] at hlong hcut
    rw [htext, Option.getD_some]
    refine ⟨fun heq => ?_, fun h => absurd hnul h.1⟩
    have hsame := congrArg String.length heq
    simp only [String.length_append] at hsame
    have hone : (String.singleton thinkingTextEnd).length = 1 := rfl
    have hzero : "".length = 0 := rfl
    omega
  · rw [hopen, heldField_signed hnul, Text.rsplitOnce_append hnul, Option.getD_some]
    have hplace := @foldl_hold_iff (unsignedPieces pre) "" (by simp)
    rw [String.empty_append] at hplace
    rw [String.append_left_inj, hplace]
    exact ⟨fun h => ⟨hnul, h⟩, fun h => h.2⟩

end AnyConverter.OpenAIResponses
