import AnyConverter.Wiring.Spec.Agents
import AnyConverter.Wiring.Wiring

/-!
# What is seen of an agent

Whether an agent is installed, whether its files point at the gateway, and whether they still hold
what was written into them.
-/

set_option autoImplicit false

namespace AnyConverter

/-! ## The gateway in a URL -/

/-- The host and the port of a URL. -/
def authority (url : String) : Option String :=
  let trimmed := Text.trim url
  if trimmed = "" then none
  else
    let afterScheme := ((Text.splitOnce "://" trimmed).map Prod.snd).getD trimmed
    let host := afterScheme.toList.takeWhile fun c => c ≠ '/' ∧ c ≠ '?' ∧ c ≠ '#'
    if host = [] then none else some (String.ofList host)

/-- `str::eq_ignore_ascii_case`. -/
def eqIgnoreAsciiCase (a b : String) : Bool := a.toList.map Char.toLower == b.toList.map Char.toLower

def gwBaseMatch (value gatewayUrl : String) : Bool :=
  match authority gatewayUrl, authority value with
  | some gateway, some candidate => eqIgnoreAsciiCase gateway candidate
  | _, _ => false

/-! ## Probes -/

inductive WiredState where
  | connected
  | drifted
  | disconnected
  deriving DecidableEq

/-- An agent, what it is recognized by, and where its files name a gateway and a key. -/
structure AgentProbe where
  spec : AgentSpec
  configDir : String
  detectFiles : List String
  gateway : (String → Option String) → Option String × Option String

namespace AgentProbe

variable (probe : AgentProbe)

/-- `AgentSpec::detect`; `isDir` says what directories there are. -/
def detect (isDir : String → Bool) (d : Disk) : Bool :=
  isDir probe.configDir || probe.detectFiles.any fun path => (d.file path).isSome

/-- `AgentSpec::read_state`. -/
def readState (text : String → Option String) (gatewayUrl : String) : WiredState :=
  let (base, key) := probe.gateway text
  let gateway := base.any fun value => gwBaseMatch value gatewayUrl
  let key := key.any fun value => value ≠ ""
  match gateway, key with
  | true, true => .connected
  | false, false => .disconnected
  | _, _ => .drifted

end AgentProbe

def ClaudeSpec.probe (libs : Libraries) (ctx : HomeCtx) : AgentProbe where
  spec := spec libs ctx
  configDir := join ctx.home ".claude"
  detectFiles := [settingsPath ctx]
  gateway text :=
    let get (key : String) := (text (settingsPath ctx)).bind fun t => JsonEdit.get libs.codec t key
    (get "env.ANTHROPIC_BASE_URL", get "env.ANTHROPIC_AUTH_TOKEN")

def CodexSpec.probe (libs : Libraries) (ctx : HomeCtx) : AgentProbe where
  spec := spec libs ctx
  configDir := dir ctx
  detectFiles := [configPath ctx, authPath ctx]
  gateway text :=
    ((text (configPath ctx)).bind fun t => TomlEdit.get libs.toml t (providerTable ++ ".base_url"),
      (text (authPath ctx)).bind fun t => JsonEdit.get libs.codec t "OPENAI_API_KEY")

def GeminiSpec.probe (libs : Libraries) (ctx : HomeCtx) : AgentProbe where
  spec := spec libs ctx
  configDir := dir ctx
  detectFiles := [envPath ctx, settingsPath ctx]
  gateway text :=
    let get (key : String) := (text (envPath ctx)).bind fun t => EnvEdit.get t key
    (get "GOOGLE_GEMINI_BASE_URL", get "GEMINI_API_KEY")

def PiSpec.probe (libs : Libraries) (ctx : HomeCtx) : AgentProbe where
  spec := spec libs ctx
  configDir := dir ctx
  detectFiles := [settingsPath ctx, modelsPath ctx]
  gateway text :=
    let get (key : String) := (text (modelsPath ctx)).bind fun t => JsonEdit.get libs.codec t key
    (get "providers.any-converter.baseUrl", get "providers.any-converter.apiKey")

/-- Every supported agent, as it is probed. -/
def allProbes (libs : Libraries) (ctx : HomeCtx) : List AgentProbe :=
  [ClaudeSpec.probe libs ctx, CodexSpec.probe libs ctx, GeminiSpec.probe libs ctx,
    PiSpec.probe libs ctx]

theorem allProbes_spec (libs : Libraries) (ctx : HomeCtx) :
    (allProbes libs ctx).map AgentProbe.spec = allSpecs libs ctx := rfl

/-! ## The applied values -/

namespace Applied

/-- `Applied::recorded`, with the times. -/
def recorded (applied : Applied) (agent : String) : List (String × Entry) :=
  (applied.lookup agent).getD []

/-- The recorded keys whose value is another one now, or none. -/
def driftedKeys (applied : Applied) (agent : String) (current : Values) : List String :=
  ((applied.recorded agent).filter fun e => current.lookup e.1 ≠ some e.2.value).map Prod.fst

end Applied

/-- Whether the files of a connected agent no longer hold what was written into them; where nothing
is recorded, whether they no longer point at the gateway. -/
def AgentProbe.drifted (probe : AgentProbe) (gatewayUrl : String) (applied : Applied)
    (text : String → Option String) : Bool :=
  if (applied.recorded probe.spec.id).isEmpty then
    probe.readState text gatewayUrl ≠ .connected
  else !(applied.driftedKeys probe.spec.id (probe.spec.appliedValues text)).isEmpty

end AnyConverter
