import AnyConverter.Shared
import AnyConverter.Lib.JsonText

/-!
# Sealed Claude blocks

Claude signs each thinking block and wants it back as it came.  A Responses client keeps only what
a reasoning item carries, so the block rides in the item's `encrypted_content`: the JSON of the
block, in base64, behind a mark.

* `base64Decode_base64Encode`: the bytes come back;
* `openSeal_sealBlock`, `openSeal_sealThinking`: so does the block;
* `seals_open`: all of these.
-/

set_option autoImplicit false

namespace AnyConverter.OpenAIResponses

/-! ## Base64 -/

def base64Alphabet : List Char :=
  "ABCDEFGHIJKLMNOPQRSTUVWXYZabcdefghijklmnopqrstuvwxyz0123456789+/".toList

/-- The character of six bits. -/
def base64Char (n : Nat) : Char := (base64Alphabet[n % 64]?).getD '='

/-- Up to three bytes as four characters, padded. -/
def encodeChunk : List UInt8 → List Char
  | [a] =>
    let n := a.toNat * 65536
    [base64Char (n / 262144), base64Char (n / 4096), '=', '=']
  | [a, b] =>
    let n := a.toNat * 65536 + b.toNat * 256
    [base64Char (n / 262144), base64Char (n / 4096), base64Char (n / 64), '=']
  | [a, b, c] =>
    let n := a.toNat * 65536 + b.toNat * 256 + c.toNat
    [base64Char (n / 262144), base64Char (n / 4096), base64Char (n / 64), base64Char n]
  | _ => []

def encodeChunks : List UInt8 → List Char
  | a :: b :: c :: rest => encodeChunk [a, b, c] ++ encodeChunks rest
  | chunk => encodeChunk chunk

def base64Encode (bytes : List UInt8) : String := String.ofList (encodeChunks bytes)

/-- The six bits of a character. -/
def base64Value (c : Char) : Option Nat :=
  let n := c.toNat
  if 65 ≤ n ∧ n ≤ 90 then some (n - 65)
  else if 97 ≤ n ∧ n ≤ 122 then some (n - 97 + 26)
  else if 48 ≤ n ∧ n ≤ 57 then some (n - 48 + 52)
  else if c = '+' then some 62
  else if c = '/' then some 63
  else none

/-- The loop over the characters: `acc` is a 32-bit register, `bits` of which are pending. -/
def decodeLoop : List Char → Nat → Nat → Option (List UInt8)
  | [], _, _ => some []
  | c :: cs, acc, bits =>
    match base64Value c with
    | none => none
    | some value =>
      let acc := (acc * 64 + value) % 2 ^ 32
      if 8 ≤ bits + 6 then
        (decodeLoop cs acc (bits - 2)).map fun out => UInt8.ofNat (acc / 2 ^ (bits - 2)) :: out
      else decodeLoop cs acc (bits + 6)

def base64Decode (text : String) : Option (List UInt8) :=
  decodeLoop (Text.trimEndMatches '=' text).toList 0 0

/-! ## The envelope -/

/-- Begins the `encrypted_content` of a reasoning item that carries Claude's block. -/
def claudeSealMark : String := "magpie-claude1:"

def sealBytes (block : String) : String := claudeSealMark ++ base64Encode (utf8 block)

/-- A thinking block with its signature; the fields are in Anthropic's order. -/
def sealThinking (codec : JsonCodec) (text signature : String) : String :=
  sealBytes ("\x7b\"type\":\"thinking\",\"thinking\":" ++ codec.toText (.string text) ++
    ",\"signature\":" ++ codec.toText (.string signature) ++ "\x7d")

/-- A block sealed whole, as the upstream wrote it. -/
def sealBlock (codec : JsonCodec) (raw : Value) : String := sealBytes (codec.toText raw)

/-- The block an `encrypted_content` carries. -/
def openSeal (codec : JsonCodec) (encrypted : String) : Option Value :=
  (Text.stripPrefix claudeSealMark encrypted).bind fun b64 =>
    (base64Decode b64).bind codec.fromSlice

/-- Whether an `encrypted_content` is a sealed one, readable or not. -/
def isSealed (encrypted : String) : Bool := Text.startsWith encrypted claudeSealMark

/-! ## Round trips -/

theorem base64Value_base64Char : ∀ n < 64, base64Value (base64Char n) = some n := by
  decide +kernel

theorem base64Value_char (n : Nat) : base64Value (base64Char n) = some (n % 64) := by
  have h := base64Value_base64Char (n % 64) (Nat.mod_lt _ (by decide))
  rwa [base64Char, Nat.mod_mod] at h

theorem base64Char_ne_pad : ∀ n < 64, base64Char n ≠ '=' := by decide +kernel

theorem base64Char_ne (n : Nat) : base64Char n ≠ '=' := by
  have h := base64Char_ne_pad (n % 64) (Nat.mod_lt _ (by decide))
  rwa [base64Char, Nat.mod_mod] at h

/-- The characters of an encoding before its padding. -/
def unpadded : List UInt8 → List Char
  | a :: b :: c :: rest => encodeChunk [a, b, c] ++ unpadded rest
  | [a, b] =>
    let n := a.toNat * 65536 + b.toNat * 256
    [base64Char (n / 262144), base64Char (n / 4096), base64Char (n / 64)]
  | [a] =>
    let n := a.toNat * 65536
    [base64Char (n / 262144), base64Char (n / 4096)]
  | [] => []

theorem unpadded_ne_pad : ∀ bytes : List UInt8, ∀ c ∈ unpadded bytes, c ≠ '='
  | a :: b :: c :: rest, x, hx => by
    rw [unpadded, List.mem_append] at hx
    rcases hx with hx | hx
    · simp only [encodeChunk, List.mem_cons, List.not_mem_nil, or_false] at hx
      rcases hx with rfl | rfl | rfl | rfl <;> exact base64Char_ne _
    · exact unpadded_ne_pad rest x hx
  | [a, b], x, hx => by
    simp only [unpadded, List.mem_cons, List.not_mem_nil, or_false] at hx
    rcases hx with rfl | rfl | rfl <;> exact base64Char_ne _
  | [a], x, hx => by
    simp only [unpadded, List.mem_cons, List.not_mem_nil, or_false] at hx
    rcases hx with rfl | rfl <;> exact base64Char_ne _
  | [], x, hx => by simp [unpadded] at hx

theorem encodeChunks_eq : ∀ bytes : List UInt8,
    ∃ k, encodeChunks bytes = unpadded bytes ++ List.replicate k '='
  | a :: b :: c :: rest => by
    obtain ⟨k, hk⟩ := encodeChunks_eq rest
    exact ⟨k, by rw [encodeChunks, unpadded, hk, List.append_assoc]⟩
  | [_, _] => ⟨1, rfl⟩
  | [_] => ⟨2, rfl⟩
  | [] => ⟨0, rfl⟩

/-- The register forgets what left it. -/
theorem register_step (acc value : Nat) :
    (acc % 2 ^ 32 * 64 + value) % 2 ^ 32 = (acc * 64 + value) % 2 ^ 32 := by
  omega

theorem decodeLoop_unpadded : ∀ (bytes : List UInt8) (acc : Nat),
    decodeLoop (unpadded bytes) acc 0 = some bytes
  | a :: b :: c :: rest, acc => by
    have ha := a.toNat_lt
    have hb := b.toNat_lt
    have hc := c.toNat_lt
    simp only [unpadded, encodeChunk, List.cons_append, List.nil_append, decodeLoop,
      base64Value_char, register_step]
    simp only [Nat.reduceAdd, Nat.reduceLeDiff, if_true, if_false, Nat.reduceSub,
      decodeLoop_unpadded rest, Option.map_some, Option.some.injEq, List.cons.injEq, and_true]
    refine ⟨?_, ?_, ?_⟩ <;> apply UInt8.toNat_inj.mp <;> rw [UInt8.toNat_ofNat'] <;> omega
  | [a, b], acc => by
    have ha := a.toNat_lt
    have hb := b.toNat_lt
    simp only [unpadded, decodeLoop, base64Value_char, register_step]
    simp only [Nat.reduceAdd, Nat.reduceLeDiff, if_true, if_false, Nat.reduceSub,
      Option.map_some, Option.some.injEq, List.cons.injEq, and_true]
    refine ⟨?_, ?_⟩ <;> apply UInt8.toNat_inj.mp <;> rw [UInt8.toNat_ofNat'] <;> omega
  | [a], acc => by
    have ha := a.toNat_lt
    simp only [unpadded, decodeLoop, base64Value_char, register_step]
    simp only [Nat.reduceAdd, Nat.reduceLeDiff, if_true, if_false, Nat.reduceSub,
      Option.map_some, Option.some.injEq, List.cons.injEq, and_true]
    apply UInt8.toNat_inj.mp
    rw [UInt8.toNat_ofNat']
    omega
  | [], _ => rfl

theorem trimEndMatches_pad {cs : List Char} (h : ∀ c ∈ cs, c ≠ '=') (k : Nat) :
    Text.trimEndMatches '=' (String.ofList (cs ++ List.replicate k '=')) = String.ofList cs := by
  have hcs : ∀ xs : List Char, (∀ c ∈ xs, c ≠ '=') → xs.dropWhile (· == '=') = xs := by
    intro xs hx
    cases xs with
    | nil => rfl
    | cons x xs => simp [hx x List.mem_cons_self]
  have hpad : ∀ (k : Nat) (xs : List Char),
      (List.replicate k '=' ++ xs).dropWhile (· == '=') = xs.dropWhile (· == '=') := by
    intro k xs
    induction k with
    | zero => rfl
    | succ k ih => simp [List.replicate_succ, ih]
  have hrev := hcs cs.reverse fun c hc => h c (List.mem_reverse.mp hc)
  simp [Text.trimEndMatches, hpad, hrev]

/-- **Base64 gives the bytes back.** -/
theorem base64Decode_base64Encode (bytes : List UInt8) :
    base64Decode (base64Encode bytes) = some bytes := by
  obtain ⟨k, hk⟩ := encodeChunks_eq bytes
  rw [base64Decode, base64Encode, hk, trimEndMatches_pad (unpadded_ne_pad bytes)]
  simp [decodeLoop_unpadded]

theorem openSeal_sealBytes (codec : JsonCodec) (block : String) :
    openSeal codec (sealBytes block) = codec.fromStr block := by
  rw [openSeal, sealBytes, Text.stripPrefix_append, Option.bind_some, base64Decode_base64Encode]
  rfl

theorem openSeal_sealBlock {codec : JsonCodec} (h : codec.Lawful) (raw : Value) :
    openSeal codec (sealBlock codec raw) = some raw := by
  rw [sealBlock, openSeal_sealBytes, h.read_print]

/-- The text a thinking block is sealed as is the compact text of an object. -/
theorem sealThinking_eq {codec : JsonCodec} (h : codec.Lawful) (text signature : String) :
    sealThinking codec text signature = sealBlock codec (.object [("type", .string "thinking"),
      ("thinking", .string text), ("signature", .string signature)]) := by
  have ht := @JsonCodec.Lawful.print_word codec h "type" rfl
  have hk := @JsonCodec.Lawful.print_word codec h "thinking" rfl
  have hs := @JsonCodec.Lawful.print_word codec h "signature" rfl
  rw [sealThinking, sealBlock, h.print_object]
  congr 1
  simp only [List.map_cons, List.map_nil, ht, hk, hs, String.intercalate_cons_cons,
    String.intercalate_singleton]
  apply String.toList_inj.mp
  simp

theorem openSeal_sealThinking {codec : JsonCodec} (h : codec.Lawful) (text signature : String) :
    openSeal codec (sealThinking codec text signature) = some (.object
      [("type", .string "thinking"), ("thinking", .string text),
        ("signature", .string signature)]) := by
  rw [sealThinking_eq h, openSeal_sealBlock h]

/-- **What is sealed comes back**: bytes from base64, a block from its seal, and a thinking block with
its text and its signature. -/
theorem seals_open {codec : JsonCodec} (h : codec.Lawful) :
    (∀ bytes : List UInt8, base64Decode (base64Encode bytes) = some bytes) ∧
      (∀ v : Value, openSeal codec (sealBlock codec v) = some v) ∧
      ∀ text signature : String, openSeal codec (sealThinking codec text signature) = some (.object
        [("type", .string "thinking"), ("thinking", .string text),
          ("signature", .string signature)]) :=
  ⟨base64Decode_base64Encode, openSeal_sealBlock h, openSeal_sealThinking h⟩

/-- With the compact printer and its reader. -/
theorem seals_open_compact :
    (∀ bytes : List UInt8, base64Decode (base64Encode bytes) = some bytes) ∧
      (∀ v : Value, openSeal JsonText.compactCodec (sealBlock JsonText.compactCodec v) = some v) ∧
      ∀ text signature : String,
        openSeal JsonText.compactCodec (sealThinking JsonText.compactCodec text signature) =
          some (.object [("type", .string "thinking"), ("thinking", .string text),
            ("signature", .string signature)]) :=
  seals_open JsonText.compactCodec_lawful

end AnyConverter.OpenAIResponses
