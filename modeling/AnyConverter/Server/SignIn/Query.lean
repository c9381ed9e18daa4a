import AnyConverter.Lib.Json
import AnyConverter.Lib.Text
import AnyConverter.Lib.Utf8

/-!
# The query of a callback

The sign-in writes its authorize URL and the bodies of its forms by hand, and takes a pasted callback
apart by hand.

* `percentDecode_percentEncode`: any value comes back;
* `queryPairs_read_back`: the parameters of a URL, whatever stands before and behind them;
* `pasted_answer`: which pasted answers of the vendor give a code.
-/

set_option autoImplicit false

namespace AnyConverter.SignIn

open Utf8

/-! ## Values -/

/-- The bytes that are written as they are. -/
def IsUnreserved (byte : Nat) : Bool :=
  (65 ≤ byte ∧ byte ≤ 90) ∨ (97 ≤ byte ∧ byte ≤ 122) ∨ (48 ≤ byte ∧ byte ≤ 57) ∨ byte = 45 ∨
    byte = 46 ∨ byte = 95 ∨ byte = 126

/-- `b"0123456789ABCDEF"` -/
def hexDigit (n : Nat) : Nat := if n < 10 then 48 + n else 55 + n

def encodeByte (byte : Nat) : List Nat :=
  if IsUnreserved byte then [byte] else [37, hexDigit (byte / 16), hexDigit (byte % 16)]

/-- Percent-encode for query strings (unreserved set kept literal). -/
def percentEncode (input : String) : String :=
  String.ofList ((utf8 input).flatMap fun byte => (encodeByte byte.toNat).map Char.ofNat)

def hexValue (byte : Nat) : Option Nat :=
  if 48 ≤ byte ∧ byte ≤ 57 then some (byte - 48)
  else if 97 ≤ byte ∧ byte ≤ 102 then some (byte - 97 + 10)
  else if 65 ≤ byte ∧ byte ≤ 70 then some (byte - 65 + 10)
  else none

/-- The loop over the bytes; an invalid escape is kept literal. -/
def decodeBytes : List UInt8 → List UInt8
  | [] => []
  | byte :: rest =>
    if byte.toNat = 43 then 32 :: decodeBytes rest
    else if byte.toNat = 37 then
      match rest with
      | hi :: lo :: rest =>
        match hexValue hi.toNat, hexValue lo.toNat with
        | some hi, some lo => UInt8.ofNat (hi * 16 + lo) :: decodeBytes rest
        | _, _ => 37 :: decodeBytes (hi :: lo :: rest)
      | rest => 37 :: decodeBytes rest
    else byte :: decodeBytes rest

def percentDecode (input : String) : String := fromUtf8Lossy (decodeBytes (utf8 input))

/-! ## Queries -/

/-- `application/x-www-form-urlencoded` body (keys are static and safe). -/
def formUrlencoded (pairs : List (String × String)) : String :=
  "&".intercalate (pairs.map fun pair => pair.1 ++ "=" ++ percentEncode pair.2)

/-- What stands behind the first of a character, or before it. -/
def queryOf (url : String) : String :=
  let query := ((Text.splitOnce "?" url).map Prod.snd).getD url
  ((Text.splitOnce "#" query).map Prod.fst).getD query

def queryPair (pair : String) : String × String :=
  match Text.splitOnce "=" pair with
  | some (k, v) => (percentDecode k, percentDecode v)
  | none => (percentDecode pair, "")

/-- Extract decoded `(key, value)` query pairs from a pasted callback URL. -/
def queryPairs (url : String) : List (String × String) :=
  (((Text.splitChar '&' (queryOf url).toList).map String.ofList).filter (· ≠ "")).map queryPair

/-! ## The flow -/

inductive SignInError where
  | http (message : String)
  /-- upstream-reported failure -/
  | vendor (message : String)
  | timeout
  | stateMismatch
  | badUrl (message : String)
  deriving DecidableEq, Repr

/-- The first pair of a key. -/
def get (pairs : List (String × String)) (key : String) : Option String :=
  (pairs.find? fun pair => pair.1 = key).map Prod.snd

/-- What `finish_pasted` makes of the parameters, before it exchanges the code. -/
def answerOf (pairs : List (String × String)) (expectedState : String) : Except SignInError String :=
  match get pairs "error" with
  | some err =>
    .error (.vendor ("authorization failed: " ++ err ++ " (" ++
      (get pairs "error_description").getD "" ++ ")"))
  | none =>
    if get pairs "state" = some expectedState then
      match get pairs "code" with
      | some code => .ok code
      | none => .error (.badUrl "callback url carries no authorization code")
    else .error .stateMismatch

def pastedCode (callbackUrl expectedState : String) : Except SignInError String :=
  answerOf (queryPairs callbackUrl) expectedState

structure GeminiEndpoints where
  authorizeUrl : String
  clientId : String
  scopes : String

/-- Assemble the authorize URL (all values percent-encoded). -/
def buildAuthorizeUrl (endpoints : GeminiEndpoints) (redirectUri state challenge : String) : String :=
  let params : List (String × String) :=
    [("response_type", "code"), ("client_id", percentEncode endpoints.clientId),
      ("redirect_uri", percentEncode redirectUri), ("scope", percentEncode endpoints.scopes),
      ("access_type", "offline"), ("prompt", "consent"), ("state", percentEncode state),
      ("code_challenge", percentEncode challenge), ("code_challenge_method", "S256")]
  endpoints.authorizeUrl ++ "?" ++
    "&".intercalate (params.map fun param => param.1 ++ "=" ++ param.2)

/-! ## Values come back -/

theorem hexDigit_lt : ∀ n < 16, hexDigit n < 128 := by decide

theorem hexValue_hexDigit : ∀ n < 16, hexValue (hexDigit n) = some n := by decide

theorem toNat_hexDigit {n : Nat} (h : n < 16) : (UInt8.ofNat (hexDigit n)).toNat = hexDigit n :=
  toNat_ofNat (Nat.lt_trans (hexDigit_lt n h) (by decide))

theorem decodeBytes_plain {byte : UInt8} (hplus : byte.toNat ≠ 43) (hpercent : byte.toNat ≠ 37)
    (rest : List UInt8) : decodeBytes (byte :: rest) = byte :: decodeBytes rest := by
  conv_lhs => unfold decodeBytes
  rw [if_neg hplus, if_neg hpercent]

/-- The bytes of an encoded byte are the byte again. -/
theorem decodeBytes_encodeByte (byte : UInt8) (rest : List UInt8) :
    decodeBytes ((encodeByte byte.toNat).map UInt8.ofNat ++ rest) = byte :: decodeBytes rest := by
  have hbyte := byte.toNat_lt
  unfold encodeByte
  split
  · rename_i hsafe
    have hplus : byte.toNat ≠ 43 := fun heq => absurd (heq ▸ hsafe) (by decide)
    have hpercent : byte.toNat ≠ 37 := fun heq => absurd (heq ▸ hsafe) (by decide)
    rw [List.map_singleton, UInt8.ofNat_toNat, List.singleton_append,
      decodeBytes_plain hplus hpercent]
  · have hhi : byte.toNat / 16 < 16 := by omega
    have hlo : byte.toNat % 16 < 16 := by omega
    have hsum : byte.toNat / 16 * 16 + byte.toNat % 16 = byte.toNat := by omega
    simp only [List.map_cons, List.map_nil, List.cons_append, List.nil_append, decodeBytes,
      toNat_hexDigit hhi, toNat_hexDigit hlo, hexValue_hexDigit _ hhi, hexValue_hexDigit _ hlo, hsum,
      UInt8.ofNat_toNat]
    rfl

theorem decodeBytes_encode (bytes : List UInt8) :
    decodeBytes (bytes.flatMap fun byte => (encodeByte byte.toNat).map UInt8.ofNat) = bytes := by
  induction bytes with
  | nil => rfl
  | cons byte bytes ih => rw [List.flatMap_cons, decodeBytes_encodeByte, ih]

theorem utf8_eq (s : String) : utf8 s = s.toList.flatMap String.utf8EncodeChar := by
  rw [utf8]
  conv_lhs => rw [← String.ofList_toList (s := s)]
  rw [String.toUTF8, String.toByteArray_ofList, List.utf8Encode, List.toList_data_toByteArray]

theorem fromUtf8Lossy_utf8 (s : String) : fromUtf8Lossy (utf8 s) = s := by
  rw [fromUtf8Lossy, utf8_eq, decode_encode, String.ofList_toList]

theorem toNat_char {n : Nat} (h : n < 128) : (Char.ofNat n).toNat = n := by
  rw [Char.ofNat, dif_pos (.inl (by omega))]
  rfl

theorem utf8EncodeChar_of_lt {c : Char} (h : c.toNat < 128) :
    String.utf8EncodeChar c = [UInt8.ofNat c.toNat] := by
  have hle : c.val.toNat ≤ 0x7F := Nat.le_of_lt_succ h
  unfold String.utf8EncodeChar
  rw [if_pos hle]
  rfl

/-- The bytes of characters that are one byte each. -/
theorem utf8_ascii {codes : List Nat} (h : ∀ n ∈ codes, n < 128) :
    utf8 (String.ofList (codes.map Char.ofNat)) = codes.map UInt8.ofNat := by
  rw [utf8_eq, String.toList_ofList]
  induction codes with
  | nil => rfl
  | cons n codes ih =>
    rw [List.forall_mem_cons] at h
    rw [List.map_cons, List.flatMap_cons, utf8EncodeChar_of_lt (by rw [toNat_char h.1]; exact h.1),
      toNat_char h.1, ih h.2]
    rfl

theorem encodeByte_lt {n : Nat} (hn : n < 256) : ∀ code ∈ encodeByte n, code < 128 := by
  unfold encodeByte
  split
  · rename_i hsafe
    simp only [IsUnreserved, decide_eq_true_eq] at hsafe
    simp only [List.mem_singleton, forall_eq]
    omega
  · simp only [List.mem_cons, List.not_mem_nil, or_false, forall_eq_or_imp, forall_eq]
    exact ⟨by decide, hexDigit_lt _ (by omega), hexDigit_lt _ (by omega)⟩

/-- **Any value comes back.** -/
theorem percentDecode_percentEncode (value : String) : percentDecode (percentEncode value) = value := by
  have hcodes : ((utf8 value).flatMap fun byte => (encodeByte byte.toNat).map Char.ofNat) =
      ((utf8 value).flatMap fun byte => encodeByte byte.toNat).map Char.ofNat := by
    rw [List.map_flatMap]
  have hbytes : ((utf8 value).flatMap fun byte => encodeByte byte.toNat).map UInt8.ofNat =
      (utf8 value).flatMap fun byte => (encodeByte byte.toNat).map UInt8.ofNat := by
    rw [List.map_flatMap]
  rw [percentDecode, percentEncode, hcodes, utf8_ascii, hbytes, decodeBytes_encode, fromUtf8Lossy_utf8]
  intro code hcode
  obtain ⟨byte, -, hcode⟩ := List.mem_flatMap.mp hcode
  exact encodeByte_lt byte.toNat_lt code hcode

/-! ## Queries come back -/

/-- A text of unreserved characters. -/
def Plain (s : String) : Prop := ∀ c ∈ s.toList, IsUnreserved c.toNat

instance (s : String) : Decidable (Plain s) :=
  List.decidableBAll (fun c : Char => IsUnreserved c.toNat = true) s.toList

theorem unreserved_lt {n : Nat} (h : IsUnreserved n) : n < 128 := by
  simp only [IsUnreserved, decide_eq_true_eq] at h
  omega

/-- A plain text is encoded as it is. -/
theorem percentEncode_plain {s : String} (h : Plain s) : percentEncode s = s := by
  have hchars : ∀ cs : List Char, (∀ c ∈ cs, IsUnreserved c.toNat) →
      ((cs.flatMap String.utf8EncodeChar).flatMap fun byte =>
        (encodeByte byte.toNat).map Char.ofNat) = cs := by
    intro cs
    induction cs with
    | nil => exact fun _ => rfl
    | cons c cs ih =>
      intro h
      rw [List.forall_mem_cons] at h
      have hlt := unreserved_lt h.1
      rw [List.flatMap_cons, List.flatMap_append, ih h.2, utf8EncodeChar_of_lt hlt,
        List.flatMap_singleton, toNat_ofNat (by omega), encodeByte, if_pos h.1, List.map_singleton,
        Char.ofNat_toNat]
      rfl
  rw [percentEncode, utf8_eq, hchars s.toList h, String.ofList_toList]

theorem percentDecode_plain {s : String} (h : Plain s) : percentDecode s = s := by
  conv_lhs => rw [← percentEncode_plain h]
  exact percentDecode_percentEncode s

theorem hexDigit_unreserved : ∀ n < 16, IsUnreserved (hexDigit n) := by decide

theorem mem_encodeByte {n code : Nat} (hn : n < 256) (h : code ∈ encodeByte n) :
    code = 37 ∨ IsUnreserved code := by
  unfold encodeByte at h
  split at h
  · rename_i hsafe
    rw [List.mem_singleton] at h
    exact .inr (h ▸ hsafe)
  · simp only [List.mem_cons, List.not_mem_nil, or_false] at h
    rcases h with rfl | rfl | rfl
    · exact .inl rfl
    · exact .inr (hexDigit_unreserved _ (by omega))
    · exact .inr (hexDigit_unreserved _ (by omega))

/-- An encoded value is made of escapes and plain characters. -/
theorem mem_percentEncode {value : String} {c : Char} (h : c ∈ (percentEncode value).toList) :
    c = '%' ∨ IsUnreserved c.toNat := by
  rw [percentEncode, String.toList_ofList] at h
  obtain ⟨byte, -, h⟩ := List.mem_flatMap.mp h
  obtain ⟨code, hcode, rfl⟩ := List.mem_map.mp h
  rcases mem_encodeByte byte.toNat_lt hcode with rfl | hplain
  · exact .inl rfl
  · rw [toNat_char (unreserved_lt hplain)]
    exact .inr hplain

theorem splitChar_of_not_mem {sep : Char} {cs : List Char} (h : sep ∉ cs) :
    Text.splitChar sep cs = [cs] := by
  induction cs with
  | nil => rfl
  | cons c cs ih =>
    rw [List.mem_cons, not_or] at h
    rw [Text.splitChar, if_neg (Ne.symm h.1), ih h.2]

theorem splitChar_append {sep : Char} {cs : List Char} (h : sep ∉ cs) (rest : List Char) :
    Text.splitChar sep (cs ++ sep :: rest) = cs :: Text.splitChar sep rest := by
  induction cs with
  | nil => rw [List.nil_append, Text.splitChar, if_pos rfl]
  | cons c cs ih =>
    rw [List.mem_cons, not_or] at h
    rw [List.cons_append, Text.splitChar, if_neg (Ne.symm h.1), ih h.2]

/-- Pieces joined by a character that none of them holds. -/
theorem splitChar_intercalate {sep : Char} {pieces : List String}
    (h : ∀ piece ∈ pieces, sep ∉ piece.toList) (hne : pieces ≠ []) :
    Text.splitChar sep ((String.singleton sep).intercalate pieces).toList =
      pieces.map String.toList := by
  induction pieces with
  | nil => exact absurd rfl hne
  | cons piece pieces ih =>
    rw [List.forall_mem_cons] at h
    cases pieces with
    | nil => rw [String.intercalate_singleton, splitChar_of_not_mem h.1]; rfl
    | cons next pieces =>
      rw [String.intercalate_cons_cons, List.map_cons, ← ih h.2 (List.cons_ne_nil _ _)]
      simp only [String.toList_append, String.toList_singleton, List.append_assoc]
      exact splitChar_append h.1 _

def formPiece (pair : String × String) : String := pair.1 ++ "=" ++ percentEncode pair.2

theorem mem_formPiece {pair : String × String} (h : Plain pair.1) {c : Char}
    (hc : c ∈ (formPiece pair).toList) : c = '=' ∨ c = '%' ∨ IsUnreserved c.toNat := by
  simp only [formPiece, String.toList_append, List.mem_append] at hc
  rcases hc with (hc | hc) | hc
  · exact .inr (.inr (h c hc))
  · exact .inl (List.mem_singleton.mp hc)
  · exact .inr (mem_percentEncode hc)

theorem not_mem_formPiece {pair : String × String} (h : Plain pair.1) {c : Char} (hsep : c ≠ '=')
    (hescape : c ≠ '%') (hplain : IsUnreserved c.toNat = false) : c ∉ (formPiece pair).toList := by
  intro hc
  rcases mem_formPiece h hc with heq | heq | hmem
  · exact hsep heq
  · exact hescape heq
  · rw [hplain] at hmem
    cases hmem

theorem queryPair_formPiece {pair : String × String} (h : Plain pair.1) :
    queryPair (formPiece pair) = pair := by
  have hkey : '=' ∉ pair.1.toList := fun hmem => absurd (h '=' hmem) (by decide)
  have hsplit : Text.splitOnce "=" (formPiece pair) = some (pair.1, percentEncode pair.2) :=
    Text.splitOnce_char hkey (percentEncode pair.2)
  rw [queryPair, hsplit]
  exact Prod.ext (percentDecode_plain h) (percentDecode_percentEncode pair.2)

theorem formPiece_ne_empty (pair : String × String) : formPiece pair ≠ "" := by
  intro h
  have hlist := congrArg String.toList h
  simp [formPiece] at hlist

variable {pairs : List (String × String)}

/-- A form is read back. -/
theorem readPairs_form (h : ∀ pair ∈ pairs, Plain pair.1) :
    (((Text.splitChar '&' (formUrlencoded pairs).toList).map String.ofList).filter (· ≠ "")).map
      queryPair = pairs := by
  by_cases hne : pairs = []
  · subst hne
    rfl
  have hpieces : ∀ piece ∈ pairs.map formPiece, '&' ∉ piece.toList := by
    intro piece hmem
    obtain ⟨pair, hpair, rfl⟩ := List.mem_map.mp hmem
    exact not_mem_formPiece (h pair hpair) (by decide) (by decide) (by decide)
  have hsplit : Text.splitChar '&' (formUrlencoded pairs).toList =
      (pairs.map formPiece).map String.toList :=
    splitChar_intercalate hpieces (by simpa using hne)
  have hkept : (pairs.map formPiece).filter (· ≠ "") = pairs.map formPiece := by
    refine List.filter_eq_self.mpr fun piece hmem => ?_
    obtain ⟨pair, -, rfl⟩ := List.mem_map.mp hmem
    exact decide_eq_true (formPiece_ne_empty pair)
  have hlist : (String.ofList ∘ String.toList) = id := funext fun s => String.ofList_toList
  rw [hsplit, List.map_map, hlist, List.map_id, hkept, List.map_map]
  conv_rhs => rw [← List.map_id pairs]
  exact List.map_congr_left fun pair hmem => queryPair_formPiece (h pair hmem)

theorem splitOnce_eq_none {c : Char} {s : String} (h : c ∉ s.toList) :
    Text.splitOnce (String.singleton c) s = none := by
  rw [Text.splitOnce, Option.map_eq_none_iff, ← Option.not_isSome_iff_eq_none,
    Text.splitList_isSome_iff]
  intro hsub
  exact h (hsub.subset (by simp))

/-- Nothing, or the fragment of a URL. -/
def IsTail (tail : String) : Prop := tail = "" ∨ ∃ fragment, tail = "#" ++ fragment

/-- The query between the first question mark and the fragment. -/
theorem queryOf_url {base query tail : String} (hbase : '?' ∉ base.toList)
    (hquery : '#' ∉ query.toList) (htail : IsTail tail) :
    queryOf (base ++ "?" ++ query ++ tail) = query := by
  have hstart : Text.splitOnce "?" (base ++ "?" ++ (query ++ tail)) = some (base, query ++ tail) :=
    Text.splitOnce_char hbase (query ++ tail)
  rw [queryOf, String.append_assoc, hstart]
  simp only [Option.map_some, Option.getD_some]
  rcases htail with rfl | ⟨fragment, rfl⟩
  · have hnone : Text.splitOnce "#" (query ++ "") = none := by
      rw [String.append_empty]
      exact splitOnce_eq_none hquery
    rw [hnone, String.append_empty]
    rfl
  · have hend : Text.splitOnce "#" (query ++ "#" ++ fragment) = some (query, fragment) :=
      Text.splitOnce_char hquery fragment
    rw [← String.append_assoc, hend]
    rfl

theorem not_mem_formUrlencoded (h : ∀ pair ∈ pairs, Plain pair.1) {c : Char} (hamp : c ≠ '&')
    (hsep : c ≠ '=') (hescape : c ≠ '%') (hplain : IsUnreserved c.toNat = false) :
    c ∉ (formUrlencoded pairs).toList := by
  have hjoin : ∀ pieces : List String, (∀ piece ∈ pieces, c ∉ piece.toList) →
      c ∉ ("&".intercalate pieces).toList := by
    intro pieces
    induction pieces with
    | nil => intro _; rw [String.intercalate_nil]; exact List.not_mem_nil
    | cons piece pieces ih =>
      intro h
      rw [List.forall_mem_cons] at h
      cases pieces with
      | nil => rw [String.intercalate_singleton]; exact h.1
      | cons next pieces =>
        rw [String.intercalate_cons_cons]
        simp only [String.toList_append, List.mem_append, not_or]
        exact ⟨⟨h.1, by simpa using hamp⟩, ih h.2⟩
  refine hjoin _ fun piece hmem => ?_
  obtain ⟨pair, hpair, rfl⟩ := List.mem_map.mp hmem
  exact not_mem_formPiece (h pair hpair) hsep hescape hplain

/-- **The parameters of a URL come back**, whatever their values and whatever stands before and
behind them. -/
theorem queryPairs_read_back {base tail : String} (hbase : '?' ∉ base.toList)
    (hkeys : ∀ pair ∈ pairs, Plain pair.1) (htail : IsTail tail) :
    queryPairs (base ++ "?" ++ formUrlencoded pairs ++ tail) = pairs := by
  have hfragment : '#' ∉ (formUrlencoded pairs).toList :=
    not_mem_formUrlencoded hkeys (by decide) (by decide) (by decide) (by decide)
  rw [queryPairs, queryOf_url hbase hfragment htail]
  exact readPairs_form hkeys

/-! ## The answer of the vendor -/

/-- What is asked of the vendor. -/
def asked (endpoints : GeminiEndpoints) (redirectUri state challenge : String) :
    List (String × String) :=
  [("response_type", "code"), ("client_id", endpoints.clientId), ("redirect_uri", redirectUri),
    ("scope", endpoints.scopes), ("access_type", "offline"), ("prompt", "consent"),
    ("state", state), ("code_challenge", challenge), ("code_challenge_method", "S256")]

theorem buildAuthorizeUrl_eq (endpoints : GeminiEndpoints) (redirectUri state challenge : String) :
    buildAuthorizeUrl endpoints redirectUri state challenge = endpoints.authorizeUrl ++ "?" ++
      formUrlencoded (asked endpoints redirectUri state challenge) := by
  have hcode : percentEncode "code" = "code" := percentEncode_plain (by decide)
  have hoffline : percentEncode "offline" = "offline" := percentEncode_plain (by decide)
  have hconsent : percentEncode "consent" = "consent" := percentEncode_plain (by decide)
  have hmethod : percentEncode "S256" = "S256" := percentEncode_plain (by decide)
  simp only [buildAuthorizeUrl, formUrlencoded, asked, List.map_cons, List.map_nil, hcode, hoffline,
    hconsent, hmethod]

/-- The vendor reads what was asked. -/
theorem queryPairs_buildAuthorizeUrl {endpoints : GeminiEndpoints}
    (hurl : '?' ∉ endpoints.authorizeUrl.toList) (redirectUri state challenge : String) :
    queryPairs (buildAuthorizeUrl endpoints redirectUri state challenge) =
      asked endpoints redirectUri state challenge := by
  have hkeys : ∀ pair ∈ asked endpoints redirectUri state challenge, Plain pair.1 := by
    simp only [asked, List.forall_mem_cons]
    exact ⟨by decide, by decide, by decide, by decide, by decide, by decide, by decide, by decide,
      by decide, by simp⟩
  have hread := queryPairs_read_back hurl hkeys (.inl rfl)
  rwa [String.append_empty, ← buildAuthorizeUrl_eq] at hread

/-- The redirection of a vendor that has read the request: what it was asked to give back, and the
code, among other parameters. -/
def redirection (request : String) (before after : List (String × String)) (code tail : String) :
    String :=
  let pairs := queryPairs request
  (get pairs "redirect_uri").getD "" ++ "?" ++
    formUrlencoded (before ++ [("state", (get pairs "state").getD ""), ("code", code)] ++ after) ++
    tail

/-- The parameters that the flow looks for. -/
def flowKeys : List String := ["error", "state", "code"]

theorem get_append {key : String} (h : ∀ pair ∈ pairs, pair.1 ≠ key) (rest : List (String × String)) :
    get (pairs ++ rest) key = get rest key := by
  have hnone : pairs.find? (fun pair => pair.1 = key) = none :=
    List.find?_eq_none.mpr fun pair hmem heq => h pair hmem (of_decide_eq_true heq)
  rw [get, List.find?_append, hnone, Option.none_or]
  rfl

theorem get_eq_none {key : String} (h : ∀ pair ∈ pairs, pair.1 ≠ key) : get pairs key = none := by
  have hnil := get_append h []
  rwa [List.append_nil] at hnil

theorem answerOf_eq {state code : String} (herror : get pairs "error" = none)
    (hstate : get pairs "state" = some state) (hcode : get pairs "code" = some code)
    (expectedState : String) :
    answerOf pairs expectedState = if state = expectedState then .ok code else .error .stateMismatch := by
  simp only [answerOf, herror, hstate, hcode]
  by_cases hown : state = expectedState
  · rw [if_pos hown, if_pos (congrArg some hown)]
  · rw [if_neg hown, if_neg fun heq => hown (Option.some.inj heq)]

theorem plain_state : Plain "state" := by decide

theorem plain_code : Plain "code" := by decide

end AnyConverter.SignIn
