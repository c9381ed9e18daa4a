import Mathlib.Data.List.Chain
import AnyConverter.Lib.Text
import AnyConverter.Ir

/-!
# Helpers the formats share

Identifier prefixes, tool arguments, data URLs and the reasoning effort table.
-/

set_option autoImplicit false

namespace AnyConverter

/-! ## Identifiers -/

/-- An identifier under another vendor's prefix: kept when it has the prefix already, stripped of
the first of the other two prefixes it begins with otherwise. -/
def normalizeId (own fst snd id : String) : String :=
  if Text.startsWith id own then id
  else own ++ ((Text.stripPrefix fst id).or (Text.stripPrefix snd id)).getD id

/-- `normalizeId`, with a fresh identifier in place of an empty one. -/
def normalizeIdWith (own fst snd : String) (w : World) (id : String) : String × World :=
  if id = "" then (own ++ w.newUuid.1, w.newUuid.2) else (normalizeId own fst snd id, w)

def normalizeIdToChat : World → String → String × World :=
  normalizeIdWith "chatcmpl-" "msg_" "resp_"

def normalizeIdToClaude : World → String → String × World :=
  normalizeIdWith "msg_" "chatcmpl-" "resp_"

def normalizeIdToResp : World → String → String × World :=
  normalizeIdWith "resp_" "chatcmpl-" "msg_"

/-! ## Turns -/

/-- Add a message behind the others, to the last of them when that has the same role. -/
def extendLast (msg : IrMessage) : List IrMessage → List IrMessage
  | [] => [msg]
  | [last] =>
    if last.role = msg.role then [{ last with parts := last.parts ++ msg.parts }] else [last, msg]
  | first :: second :: rest => first :: extendLast msg (second :: rest)

/-- No two neighbours have the same role. -/
def Alternating (messages : List IrMessage) : Prop :=
  messages.IsChain fun a b => a.role ≠ b.role

/-- Messages before the last one are left alone. -/
theorem extendLast_append (msg : IrMessage) (before : List IrMessage) {messages : List IrMessage}
    (h : messages ≠ []) :
    extendLast msg (before ++ messages) = before ++ extendLast msg messages := by
  induction before with
  | nil => rfl
  | cons first before ih =>
    cases hrest : before ++ messages with
    | nil => exact absurd (List.append_eq_nil_iff.mp hrest).2 h
    | cons second rest => rw [List.cons_append, hrest, extendLast, ← hrest, ih, List.cons_append]

theorem extendLast_ne {msg : IrMessage} {messages : List IrMessage}
    (h : ∀ last ∈ messages.getLast?, last.role ≠ msg.role) :
    extendLast msg messages = messages ++ [msg] := by
  rcases List.eq_nil_or_concat messages with rfl | ⟨before, last, rfl⟩
  · rfl
  · rw [List.concat_eq_append, extendLast_append msg before (by simp), extendLast]
    rw [if_neg (h last (by simp)), List.append_assoc]
    rfl

theorem extendLast_eq {msg last : IrMessage} (before : List IrMessage)
    (h : last.role = msg.role) : extendLast msg (before ++ [last]) =
      before ++ [{ last with parts := last.parts ++ msg.parts }] := by
  rw [extendLast_append msg before (by simp), extendLast, if_pos h]

/-- Messages that take turns stay so, and the first of them keeps its role. -/
theorem alternating_extendLast {msg : IrMessage} {messages : List IrMessage}
    (h : Alternating messages) : Alternating (extendLast msg messages) := by
  rcases List.eq_nil_or_concat messages with rfl | ⟨before, last, rfl⟩
  · exact List.isChain_singleton _
  · rw [List.concat_eq_append] at h ⊢
    by_cases hrole : last.role = msg.role
    · rw [extendLast_eq before hrole]
      obtain ⟨hbefore, -, hlink⟩ := List.isChain_append.mp h
      refine List.isChain_append.mpr ⟨hbefore, List.isChain_singleton _, ?_⟩
      intro x hx y hy
      cases hy
      exact hlink x hx last rfl
    · rw [extendLast_ne (by simpa using hrole)]
      refine List.isChain_append.mpr ⟨h, List.isChain_singleton _, ?_⟩
      intro x hx y hy
      cases hy
      simp only [List.getLast?_append, List.getLast?_singleton, Option.some_or, Option.mem_def,
        Option.some.injEq] at hx
      subst hx
      exact hrole

theorem head?_extendLast {msg : IrMessage} {messages : List IrMessage} (h : messages ≠ []) :
    (extendLast msg messages).head?.map IrMessage.role = messages.head?.map IrMessage.role := by
  match messages, h with
  | [last], _ =>
    unfold extendLast
    split <;> rfl
  | first :: second :: rest, _ => rfl

theorem extendLast_ne_nil (msg : IrMessage) (messages : List IrMessage) :
    extendLast msg messages ≠ [] := by
  match messages with
  | [] => simp [extendLast]
  | [last] =>
    unfold extendLast
    split <;> simp
  | first :: second :: rest => simp [extendLast]

/-! ## What a content shows -/

/-- A character or an image of a content, whatever blocks the content is cut into. -/
inductive Glyph (Image : Type) where
  | char (c : Char)
  | image (image : Image)
  deriving DecidableEq, Repr

/-- The glyphs of a text. -/
def Glyph.ofText {Image : Type} (text : String) : List (Glyph Image) := text.toList.map .char

@[simp] theorem Glyph.ofText_empty {Image : Type} : (Glyph.ofText "" : List (Glyph Image)) = [] := rfl

@[simp] theorem Glyph.ofText_append {Image : Type} (s t : String) :
    (Glyph.ofText (s ++ t) : List (Glyph Image)) = Glyph.ofText s ++ Glyph.ofText t := by
  simp [Glyph.ofText]

theorem Glyph.ofText_join {Image : Type} (texts : List String) :
    (Glyph.ofText (String.join texts) : List (Glyph Image)) = texts.flatMap Glyph.ofText := by
  have hfold (acc : String) (texts : List String) :
      (Glyph.ofText (texts.foldl (· ++ ·) acc) : List (Glyph Image)) =
        Glyph.ofText acc ++ texts.flatMap Glyph.ofText := by
    induction texts generalizing acc with
    | nil => simp
    | cons t texts ih => rw [List.foldl_cons, ih]; simp
  simpa [String.join] using hfold "" texts

theorem Glyph.ofText_eq_nil {Image : Type} {text : String} :
    (Glyph.ofText text : List (Glyph Image)) = [] ↔ text = "" := by
  simp [Glyph.ofText]

/-! ## Tool arguments -/

/-- The arguments of a tool call, an empty object when they do not read as JSON. -/
def parseArguments (codec : JsonCodec) (args : String) : Value :=
  if args = "" then .object [] else (codec.fromStr args).getD (.object [])

/-- The text a Gemini function response stands for. -/
def extractFunctionResponseText (codec : JsonCodec) (response : Value) : String :=
  match response.asStr with
  | some text => text
  | none =>
    match response.asObject with
    | some obj =>
      match (obj.lookup "result").or (obj.lookup "output") with
      | some result => codec.toText result
      | none => codec.toText response
    | none => codec.toText response

/-! ## Images -/

/-- The media type and the payload of a base64 `data:` URL. -/
def parseDataUrl (url : String) : Option (String × String) :=
  match Text.stripPrefix "data:" url with
  | none => none
  | some rest =>
    match Text.splitOnce ";" rest with
    | none => none
    | some (mime, tail) => (Text.stripPrefix "base64," tail).map fun data => (mime, data)

/-- The URL of a Claude image block. -/
def imageBlockToUrl (obj : List (String × Value)) : Except ConvertError String :=
  match (obj.lookup "source").bind Value.asObject with
  | none => .error (.missingField "image.source")
  | some source =>
    match (source.lookup "type").bind Value.asStr with
    | none => .error (.missingField "image.source.type")
    | some sourceType =>
      if sourceType = "base64" then
        match (source.lookup "media_type").bind Value.asStr with
        | none => .error (.missingField "image.source.media_type")
        | some mediaType =>
          match (source.lookup "data").bind Value.asStr with
          | none => .error (.missingField "image.source.data")
          | some data => .ok ("data:" ++ mediaType ++ ";base64," ++ data)
      else if sourceType = "url" then
        match (source.lookup "url").bind Value.asStr with
        | none => .error (.missingField "image.source.url")
        | some url => .ok url
      else .error (.unsupportedContentType ("image source: " ++ sourceType))

/-! ## Fields of an object -/

/-- The text under a key, the empty text when there is none. -/
def takeString (obj : List (String × Value)) (key : String) : String :=
  match obj.lookup key with
  | some (.string text) => text
  | _ => ""

/-- The text under a key, if there is one. -/
def takeOptString (obj : List (String × Value)) (key : String) : Option String :=
  match obj.lookup key with
  | some (.string text) => some text
  | _ => none

/-- The text of a `type` field. -/
def typeOf (obj : List (String × Value)) : Option String := (obj.lookup "type").bind Value.asStr

/-! ## Reasoning effort -/

structure ThinkingConfig where
  type : String
  budgetTokens : Nat
  deriving DecidableEq, Repr

def reasoningEffortToThinking (effort : Option String) (maxTokens : Nat) : Option ThinkingConfig :=
  match effort with
  | none => none
  | some effort =>
    if effort = "none" then none
    else if effort = "low" then some ⟨"enabled", 1024⟩
    else if effort = "high" then some ⟨"enabled", max maxTokens 4096⟩
    else some ⟨"enabled", max maxTokens 2048⟩

def thinkingToReasoningEffort (thinking : ThinkingConfig) : Option String :=
  if thinking.type ≠ "enabled" then some "none"
  else if thinking.budgetTokens ≤ 1024 then some "low"
  else if 4096 ≤ thinking.budgetTokens then some "high"
  else some "medium"

def thinkingToReasoningJson (thinking : ThinkingConfig) : Option Value :=
  (thinkingToReasoningEffort thinking).map fun effort => .object [("effort", .string effort)]

end AnyConverter
