import Mathlib.Data.List.Basic
import AnyConverter.Server.Routing.ModelRoutes

/-!
# The headers of an upstream request

The headers that sign a request come first, and the client's follow as far as the configuration lets
them through.  No header of the client that the proxy or the provider is in charge of has a say.

* `buildUpstreamHeaders_congr`: what the headers do not depend on;
* `buildUpstreamHeaders_twice`: headers that are built again stay as they are.
-/

set_option autoImplicit false

namespace AnyConverter.Config

/-! ## Building the headers -/

inductive PassThroughMode where
  | allow
  | deny
  deriving DecidableEq, Repr

structure PassThroughHeadersConfig where
  mode : PassThroughMode := .allow
  allow : List String := []
  deny : List String := []
  deriving DecidableEq, Repr

/-- Headers that are never forwarded. -/
def hopByHopHeaders : List String :=
  ["connection", "keep-alive", "proxy-authenticate", "proxy-authorization", "te", "trailer",
    "transfer-encoding", "upgrade"]

/-- Headers the proxy writes itself. -/
def requestControlHeaders : List String := ["host", "content-length", "content-type", "authorization"]

def toAsciiLowercase (s : String) : String := String.ofList (s.toList.map Char.toLower)

/-- Whether the configuration lets a header through. -/
def PassThroughHeadersConfig.shouldForward (config : PassThroughHeadersConfig) (nameLower : String) :
    Bool :=
  match config.mode with
  | .allow => !(config.deny.any fun pat => globMatch pat nameLower) ||
      config.allow.any fun pat => globMatch pat nameLower
  | .deny => (config.allow.any fun pat => globMatch pat nameLower) &&
      !(config.deny.any fun pat => globMatch pat nameLower)

/-- Whether a name is one of the proxy's, or one the request is signed with. -/
def isReserved (authHeaders : List (String × String)) (name : String) : Bool :=
  hopByHopHeaders.contains (toAsciiLowercase name) ||
    requestControlHeaders.contains (toAsciiLowercase name) ||
    (authHeaders.map fun header => toAsciiLowercase header.1).contains (toAsciiLowercase name)

/-- The client's headers, in the order the map iterates them, with the bytes of their values. -/
abbrev HeaderMap (Bytes : Type) := List (String × Bytes)

variable {Bytes : Type} (toStr : Bytes → Option String)

/-- A header of the client as it is forwarded; `HeaderValue::to_str` is a parameter. -/
def forwarded (authHeaders : List (String × String)) (config : PassThroughHeadersConfig)
    (header : String × Bytes) : Option (String × String) :=
  if isReserved authHeaders header.1 then none
  else if !config.shouldForward (toAsciiLowercase header.1) then none
  else (toStr header.2).map (header.1, ·)

def buildUpstreamHeaders (clientHeaders : HeaderMap Bytes) (authHeaders : List (String × String))
    (config : PassThroughHeadersConfig) : List (String × String) :=
  authHeaders ++ clientHeaders.filterMap (forwarded toStr authHeaders config)

/-- The headers of a request in the order they are set; `forward_non_streaming` and the streaming
relay build them again from those the handler has built. -/
def requestHeaders (clientHeaders : HeaderMap Bytes) (upstreamHeaders : List (String × String))
    (config : PassThroughHeadersConfig) : List (String × String) :=
  ("content-type", "application/json") :: buildUpstreamHeaders toStr clientHeaders upstreamHeaders config

/-! ## What the headers depend on -/

variable (clientHeaders : HeaderMap Bytes) (authHeaders : List (String × String))
  (config : PassThroughHeadersConfig)

/-- Only the client's own headers are forwarded. -/
theorem buildUpstreamHeaders_filter : buildUpstreamHeaders toStr clientHeaders authHeaders config =
    buildUpstreamHeaders toStr (clientHeaders.filter fun header => !isReserved authHeaders header.1)
      authHeaders config := by
  unfold buildUpstreamHeaders
  rw [List.filterMap_filter]
  refine congrArg (authHeaders ++ ·) (List.filterMap_congr fun header _ => ?_)
  cases hreserved : isReserved authHeaders header.1 with
  | true => simp [forwarded, hreserved]
  | false => simp

/-- Two clients that differ in reserved headers alone get the same headers. -/
theorem buildUpstreamHeaders_congr {clientHeaders clientHeaders' : HeaderMap Bytes}
    (h : clientHeaders.filter (fun header => !isReserved authHeaders header.1) =
      clientHeaders'.filter fun header => !isReserved authHeaders header.1) :
    buildUpstreamHeaders toStr clientHeaders authHeaders config =
      buildUpstreamHeaders toStr clientHeaders' authHeaders config := by
  rw [buildUpstreamHeaders_filter, h, ← buildUpstreamHeaders_filter]

/-! ## Building them again -/

theorem isReserved_of_mem {headers : List (String × String)} {header : String × String}
    (h : header ∈ headers) : isReserved headers header.1 = true := by
  have hmem : toAsciiLowercase header.1 ∈ headers.map fun header => toAsciiLowercase header.1 :=
    List.mem_map_of_mem h
  unfold isReserved
  rw [List.contains_iff_mem.mpr hmem, Bool.or_true]

theorem isReserved_append {headers : List (String × String)} {name : String}
    (h : isReserved headers name = true) (more : List (String × String)) :
    isReserved (headers ++ more) name = true := by
  unfold isReserved at h ⊢
  rw [List.map_append]
  simp only [Bool.or_eq_true, List.contains_iff_mem, List.mem_append] at h ⊢
  rcases h with h | h
  · exact Or.inl h
  · exact Or.inr (Or.inl h)

/-- No header of the client is forwarded once more: it is reserved now, or was let through neither
time. -/
theorem forwarded_again {header : String × Bytes} (hmem : header ∈ clientHeaders) :
    forwarded toStr (buildUpstreamHeaders toStr clientHeaders authHeaders config) config header =
      none := by
  cases hfirst : forwarded toStr authHeaders config header with
  | some sent =>
    have hname : sent.1 = header.1 := by
      unfold forwarded at hfirst
      split at hfirst
      · cases hfirst
      · split at hfirst
        · cases hfirst
        · obtain ⟨value, -, rfl⟩ := Option.map_eq_some_iff.mp hfirst
          rfl
    have hsent : sent ∈ buildUpstreamHeaders toStr clientHeaders authHeaders config :=
      List.mem_append_right authHeaders (List.mem_filterMap.mpr ⟨header, hmem, hfirst⟩)
    have hreserved := isReserved_of_mem hsent
    rw [hname] at hreserved
    unfold forwarded
    rw [if_pos hreserved]
  | none =>
    unfold forwarded at hfirst ⊢
    split at hfirst
    · rename_i hreserved
      exact if_pos (isReserved_append hreserved _)
    · rw [hfirst, ite_self]

/-- Headers that are built again stay as they are. -/
theorem buildUpstreamHeaders_twice : buildUpstreamHeaders toStr clientHeaders
    (buildUpstreamHeaders toStr clientHeaders authHeaders config) config =
      buildUpstreamHeaders toStr clientHeaders authHeaders config := by
  have hnone : clientHeaders.filterMap (forwarded toStr
      (buildUpstreamHeaders toStr clientHeaders authHeaders config) config) = [] :=
    List.filterMap_eq_nil_iff.mpr fun header hmem =>
      forwarded_again toStr clientHeaders authHeaders config hmem
  rw [buildUpstreamHeaders, hnone, List.append_nil]

/-- **The upstream's headers** begin with those the request is signed with, do not depend on what the
client sends under a reserved name, and are the same when the forwarding builds them again. -/
theorem upstreamHeaders_secure :
    authHeaders <+: buildUpstreamHeaders toStr clientHeaders authHeaders config ∧
    (∀ clientHeaders' : HeaderMap Bytes,
      clientHeaders.filter (fun header => !isReserved authHeaders header.1) =
        clientHeaders'.filter (fun header => !isReserved authHeaders header.1) →
      buildUpstreamHeaders toStr clientHeaders authHeaders config =
        buildUpstreamHeaders toStr clientHeaders' authHeaders config) ∧
    buildUpstreamHeaders toStr clientHeaders
        (buildUpstreamHeaders toStr clientHeaders authHeaders config) config =
      buildUpstreamHeaders toStr clientHeaders authHeaders config ∧
    requestHeaders toStr clientHeaders
        (buildUpstreamHeaders toStr clientHeaders authHeaders config) config =
      requestHeaders toStr clientHeaders authHeaders config := by
  have htwice := buildUpstreamHeaders_twice toStr clientHeaders authHeaders config
  refine ⟨List.prefix_append _ _, fun clientHeaders' h => ?_, htwice, ?_⟩
  · exact buildUpstreamHeaders_congr toStr authHeaders config h
  · unfold requestHeaders
    rw [htwice]

/-- Of a client's four headers, one comes through. -/
example : buildUpstreamHeaders some
    [("x-api-key", "stolen"), ("TE", "gzip"), ("accept", "json"), ("x-drop", "1")]
    [("X-Api-Key", "secret")] { deny := ["x-*"] } =
      [("X-Api-Key", "secret"), ("accept", "json")] := by
  decide +kernel

end AnyConverter.Config
