import AnyConverter.Lib.JsonText
import AnyConverter.Lib.Utf8

/-!
# Redaction

A body is logged with the values of its sensitive keys replaced, at any depth; but one that is longer
than the capture limit is cut and logged as it is, and so is one the JSON reader does not read.

* `sanitizeJsonValue_eq`: values that differ in secrets alone are logged alike;
* `text_eq_iff`: the bodies that are.
-/

set_option autoImplicit false

namespace AnyConverter.RequestLog

/-! ## Bodies -/

def sensitiveBodyKeys : List String := ["api_key", "apiKey", "authorization", "x-api-key", "secret"]

/-- A body that has been sanitized for logging. -/
structure SanitizedBody where
  text : String
  truncated : Bool
  deriving DecidableEq

mutual
def sanitizeJsonValue : Value → Value
  | .object fields =>
    .object ((sanitizeFields fields).foldl (fun map f => Value.insertField f.1 f.2 map) [])
  | .array items => .array (sanitizeItems items)
  | other => other
def sanitizeItems : List Value → List Value
  | [] => []
  | item :: items => sanitizeJsonValue item :: sanitizeItems items
/-- The entries that go into the new map, in the order of the old one. -/
def sanitizeFields : List (String × Value) → List (String × Value)
  | [] => []
  | (key, val) :: fields =>
    (key, if key ∈ sensitiveBodyKeys then .string "[REDACTED]" else sanitizeJsonValue val) ::
      sanitizeFields fields
end

variable (json : JsonCodec)

def sanitizeBody (body : List UInt8) (maxBytes : Nat) : SanitizedBody :=
  if maxBytes < body.length then ⟨Utf8.fromUtf8Lossy (body.take maxBytes), true⟩
  else
    match json.fromSlice body with
    | some value => ⟨json.toText (sanitizeJsonValue value), false⟩
    | none => ⟨Utf8.fromUtf8Lossy body, false⟩

/-- The bodies of a record. -/
structure LoggedBodies where
  requestBody : SanitizedBody
  upstreamRequestBody : SanitizedBody
  responseBody : String
  truncated : Bool
  deriving DecidableEq

/-- `log_non_streaming`, as far as it is about bodies. -/
def logNonStreaming (requestBody upstreamRequestBody responseBody : List UInt8)
    (maxCaptureBytes : Nat) : LoggedBodies :=
  let request := sanitizeBody json requestBody maxCaptureBytes
  let upstream := sanitizeBody json upstreamRequestBody maxCaptureBytes
  let response := sanitizeBody json responseBody maxCaptureBytes
  ⟨request, upstream, response.text, request.truncated || upstream.truncated || response.truncated⟩

/-! ## Bodies that differ in secrets alone -/

mutual
/-- The same but for the values of sensitive keys. -/
inductive Alike : Value → Value → Prop
  | refl (v : Value) : Alike v v
  | array {xs ys : List Value} (h : AlikeItems xs ys) : Alike (.array xs) (.array ys)
  | object {fs gs : List (String × Value)} (h : AlikeFields fs gs) : Alike (.object fs) (.object gs)
inductive AlikeItems : List Value → List Value → Prop
  | nil : AlikeItems [] []
  | cons {x y : Value} {xs ys : List Value} (h : Alike x y) (hs : AlikeItems xs ys) :
    AlikeItems (x :: xs) (y :: ys)
inductive AlikeFields : List (String × Value) → List (String × Value) → Prop
  | nil : AlikeFields [] []
  | secret {key : String} (h : key ∈ sensitiveBodyKeys) (x y : Value)
    {fs gs : List (String × Value)} (hs : AlikeFields fs gs) :
    AlikeFields ((key, x) :: fs) ((key, y) :: gs)
  | cons (key : String) {x y : Value} (h : Alike x y) {fs gs : List (String × Value)}
    (hs : AlikeFields fs gs) : AlikeFields ((key, x) :: fs) ((key, y) :: gs)
end

mutual
/-- What is logged of a value does not depend on its secrets. -/
theorem sanitizeJsonValue_eq : ∀ {v w : Value}, Alike v w → sanitizeJsonValue v = sanitizeJsonValue w
  | _, _, .refl _ => rfl
  | _, _, .array h => congrArg Value.array (sanitizeItems_eq h)
  | _, _, .object h => by
    unfold sanitizeJsonValue
    rw [sanitizeFields_eq h]
theorem sanitizeItems_eq : ∀ {xs ys : List Value}, AlikeItems xs ys → sanitizeItems xs = sanitizeItems ys
  | _, _, .nil => rfl
  | _, _, .cons h hs => by
    unfold sanitizeItems
    rw [sanitizeJsonValue_eq h, sanitizeItems_eq hs]
theorem sanitizeFields_eq : ∀ {fs gs : List (String × Value)}, AlikeFields fs gs →
    sanitizeFields fs = sanitizeFields gs
  | _, _, .nil => rfl
  | _, _, .secret h _ _ hs => by
    unfold sanitizeFields
    rw [if_pos h, if_pos h, sanitizeFields_eq hs]
  | _, _, .cons _ h hs => by
    unfold sanitizeFields
    rw [sanitizeJsonValue_eq h, sanitizeFields_eq hs]
end

/-- The text of a body that is logged as it is: cut at the limit, or not read. -/
def rawText (body : List UInt8) (maxBytes : Nat) : Option String :=
  if maxBytes < body.length then some (Utf8.fromUtf8Lossy (body.take maxBytes))
  else if json.fromSlice body = none then some (Utf8.fromUtf8Lossy body)
  else none

variable {json}
variable {body : List UInt8} {maxBytes : Nat} {v w : Value} {text : String}

theorem text_of_rawText (h : rawText json body maxBytes = some text) :
    (sanitizeBody json body maxBytes).text = text := by
  unfold rawText at h
  unfold sanitizeBody
  split
  · rename_i hlong
    rw [if_pos hlong] at h
    exact Option.some.inj h
  · rename_i hshort
    rw [if_neg hshort] at h
    split at h
    · rename_i hnone
      rw [hnone]
      exact Option.some.inj h
    · cases h

theorem text_of_redacted (h : rawText json body maxBytes = none)
    (hread : ∀ value, json.fromSlice body = some value → value = v) :
    (sanitizeBody json body maxBytes).text = json.toText (sanitizeJsonValue v) := by
  unfold rawText at h
  unfold sanitizeBody
  split
  · rename_i hlong
    rw [if_pos hlong] at h
    cases h
  · rename_i hshort
    rw [if_neg hshort] at h
    cases hvalue : json.fromSlice body with
    | none =>
      rw [if_pos hvalue] at h
      cases h
    | some value =>
      rw [← hread value hvalue]

/-- Two bodies show no difference where they are logged as they are. -/
def ShowsNothing (json : JsonCodec) (maxBytes : Nat) (v : Value) (a b : List UInt8) : Prop :=
  match rawText json a maxBytes, rawText json b maxBytes with
  | none, none => True
  | some s, some t => s = t
  | some t, none | none, some t => t = json.toText (sanitizeJsonValue v)

/-- Two JSON bodies that differ in secrets alone are logged with the same text exactly when they show
no difference where they are logged as they are.  `parse` is what a body says as JSON, which is all
the reader may read. -/
theorem text_eq_iff (json : JsonCodec) (parse : List UInt8 → Option Value)
    (hread : ∀ body value, json.fromSlice body = some value → parse body = some value)
    (maxBytes : Nat) {a b : List UInt8} {v w : Value} (ha : parse a = some v) (hb : parse b = some w)
    (h : Alike v w) :
    (sanitizeBody json a maxBytes).text = (sanitizeBody json b maxBytes).text ↔
      ShowsNothing json maxBytes v a b := by
  have hra : ∀ value, json.fromSlice a = some value → value = v := by
    intro value hvalue
    exact Option.some.inj ((hread a value hvalue).symm.trans ha)
  have hrb : ∀ value, json.fromSlice b = some value → value = w := by
    intro value hvalue
    exact Option.some.inj ((hread b value hvalue).symm.trans hb)
  have hsame := sanitizeJsonValue_eq h
  unfold ShowsNothing
  cases hta : rawText json a maxBytes with
  | none =>
    rw [text_of_redacted hta hra]
    cases htb : rawText json b maxBytes with
    | none =>
      rw [text_of_redacted htb hrb, hsame]
      exact iff_true_intro rfl
    | some t =>
      rw [text_of_rawText htb]
      exact eq_comm
  | some s =>
    rw [text_of_rawText hta]
    cases htb : rawText json b maxBytes with
    | none => rw [text_of_redacted htb hrb, hsame]
    | some t => rw [text_of_rawText htb]

/-- A body that is read and not too long is redacted. -/
theorem sanitizeBody_eq (hlen : body.length ≤ maxBytes) (hread : json.fromSlice body = some v) :
    sanitizeBody json body maxBytes = ⟨json.toText (sanitizeJsonValue v), false⟩ := by
  unfold sanitizeBody
  rw [if_neg (Nat.not_lt.mpr hlen), hread]

/-- Records of bodies that are read, and not too long, do not depend on secrets. -/
theorem logNonStreaming_eq {a b : Fin 3 → List UInt8} {vs ws : Fin 3 → Value}
    (hlen : ∀ i, (a i).length ≤ maxBytes ∧ (b i).length ≤ maxBytes)
    (hread : ∀ i, json.fromSlice (a i) = some (vs i) ∧ json.fromSlice (b i) = some (ws i))
    (h : ∀ i, Alike (vs i) (ws i)) :
    logNonStreaming json (a 0) (a 1) (a 2) maxBytes =
      logNonStreaming json (b 0) (b 1) (b 2) maxBytes := by
  have hsame : ∀ i, sanitizeBody json (a i) maxBytes = sanitizeBody json (b i) maxBytes := by
    intro i
    rw [sanitizeBody_eq (hlen i).1 (hread i).1, sanitizeBody_eq (hlen i).2 (hread i).2,
      sanitizeJsonValue_eq (h i)]
  unfold logNonStreaming
  rw [hsame 0, hsame 1, hsame 2]

/-- A request with a key. -/
def login (key : String) : Value := .object [("api_key", .string key), ("model", .string "m")]

theorem login_alike (key key' : String) : Alike (login key) (login key') :=
  .object (.secret (by decide) _ _ (.cons _ (.refl _) .nil))

def loginBody (key : String) : List UInt8 := utf8 (JsonText.compactCodec.toText (login key))

theorem read_loginBody (key : String) :
    JsonText.compactCodec.fromSlice (loginBody key) = some (login key) :=
  JsonText.compactCodec_lawful.read_print (login key)

theorem text_eq_iff_login :
    (sanitizeBody JsonText.compactCodec (loginBody "sk-1") 64).text =
        (sanitizeBody JsonText.compactCodec (loginBody "sk-2") 64).text ↔
      ShowsNothing JsonText.compactCodec 64 (login "sk-1") (loginBody "sk-1") (loginBody "sk-2") :=
  text_eq_iff JsonText.compactCodec JsonText.compactCodec.fromSlice (fun _ _ h => h) 64
    (read_loginBody "sk-1") (read_loginBody "sk-2") (login_alike "sk-1" "sk-2")

/-- Cut after 20 bytes, a request tells its key. -/
theorem login_tells_key :
    JsonText.compactCodec.fromSlice (loginBody "sk-1") = some (login "sk-1") ∧
    JsonText.compactCodec.fromSlice (loginBody "sk-2") = some (login "sk-2") ∧
    Alike (login "sk-1") (login "sk-2") ∧
    (sanitizeBody JsonText.compactCodec (loginBody "sk-1") 20).text =
      "\x7b\"api_key\":\"sk-1\",\"m" ∧
    (sanitizeBody JsonText.compactCodec (loginBody "sk-2") 20).text =
      "\x7b\"api_key\":\"sk-2\",\"m" :=
  ⟨read_loginBody _, read_loginBody _, login_alike _ _, by decide +kernel, by decide +kernel⟩

end AnyConverter.RequestLog
