import AnyConverter.Wiring.Spec.Basic

/-!
# The four agents

Claude Code, Codex, the Gemini CLI and Pi: where each keeps its configuration, which keys of it are
ours, and what they are set to.
-/

set_option autoImplicit false

namespace AnyConverter

/-- The values a text has under some keys, by the name they are stashed under. -/
def valuesUnder (get : String → Option String) (stashKey : String → String) (keys : List String) :
    Values :=
  keys.filterMap fun key => (get key).map fun value => (stashKey key, value)

/-! ## Claude Code -/

namespace ClaudeSpec

def ourKeys : List String :=
  ["env.ANTHROPIC_BASE_URL", "env.ANTHROPIC_AUTH_TOKEN", "env.ANTHROPIC_MODEL",
    "env.ANTHROPIC_DEFAULT_HAIKU_MODEL", "env.ANTHROPIC_DEFAULT_SONNET_MODEL",
    "env.ANTHROPIC_DEFAULT_OPUS_MODEL", "env.ANTHROPIC_API_KEY"]

def settingsPath (ctx : HomeCtx) : String := join (join ctx.home ".claude") "settings.json"

/-- A model tier, when the catalog has one. -/
def tierKV (path : String) (model : Option CatalogModel) : List KV :=
  (model.map fun m => KV.mk path (.string m.id)).toList

def settings (wiring : WiringCtx) : List KV :=
  [⟨"env.ANTHROPIC_BASE_URL", .string wiring.gatewayUrl⟩,
    ⟨"env.ANTHROPIC_AUTH_TOKEN", .string wiring.agentKey⟩,
    ⟨"env.ANTHROPIC_MODEL", .string wiring.defaultModel⟩] ++
  tierKV "env.ANTHROPIC_DEFAULT_SONNET_MODEL" (findTier wiring.catalog "sonnet") ++
  tierKV "env.ANTHROPIC_DEFAULT_HAIKU_MODEL" (findTier wiring.catalog "haiku") ++
  tierKV "env.ANTHROPIC_DEFAULT_OPUS_MODEL" (findTier wiring.catalog "opus")

def connectPlan (codec : JsonCodec) (path : String) (wiring : WiringCtx) (text : String → String) :
    Except WiringError ConnectPlan := do
  let current := text path
  if (JsonEdit.get codec current "apiKeyHelper").isSome then
    .error (.refused "apiKeyHelper is configured; remove it before connecting")
  let next ← edited (JsonEdit.set codec current (settings wiring))
  let next ← edited (JsonEdit.del codec next ["env.ANTHROPIC_API_KEY"])
  return {
    old := valuesUnder (JsonEdit.get codec current) id ourKeys
    writes := [.ok (path, next)] }

def extract (codec : JsonCodec) (old : Values) (current : String) : Except WiringError String := do
  let text ← edited (JsonEdit.set codec current (restoreSets id ourKeys old))
  edited (JsonEdit.del codec text (restoreDeletes id ourKeys old))

def spec (libs : Libraries) (ctx : HomeCtx) : AgentSpec where
  id := "claude-code"
  configFiles := [settingsPath ctx]
  reads := [settingsPath ctx]
  connectPlan := connectPlan libs.codec (settingsPath ctx)
  disconnectSteps := [.edit (settingsPath ctx) (extract libs.codec)]
  appliedValues text := ((text (settingsPath ctx)).map fun current =>
    valuesUnder (JsonEdit.get libs.codec current) id ourKeys).getD []

end ClaudeSpec

/-! ## Codex -/

namespace CodexSpec

def dir (ctx : HomeCtx) : String := envDir ctx "CODEX_HOME" (join ctx.home ".codex")

def configPath (ctx : HomeCtx) : String := join (dir ctx) "config.toml"

def authPath (ctx : HomeCtx) : String := join (dir ctx) "auth.json"

def catalogPath (ctx : HomeCtx) : String := join (dir ctx) "any-converter-models.json"

def provider : String := "any-converter"

def providerTable : String := "model_providers.any-converter"

def configKeys : List String := ["model_provider", "model", "model_catalog_json"]

def configStash (key : String) : String := "config." ++ key

def absolute (ctx : HomeCtx) (path : String) : String :=
  if Text.startsWith path "/" then path
  else
    match ctx.currentDir with
    | some dir => join dir path
    | none => path

def renderCatalog (libs : Libraries) (wiring : WiringCtx) : String :=
  libs.pretty (.object [("models", .array (wiring.catalog.map fun m =>
    .object [("display_name", .string m.name), ("slug", .string m.id)]))]) ++ "\n"

def connectPlan (libs : Libraries) (ctx : HomeCtx) (wiring : WiringCtx) (text : String → String) :
    Except WiringError ConnectPlan := do
  let config := text (configPath ctx)
  let auth := text (authPath ctx)
  let configText ← edited (TomlEdit.set libs.toml config
    [⟨"model_provider", .string provider⟩, ⟨"model", .string wiring.defaultModel⟩,
      ⟨"model_catalog_json", .string (absolute ctx (catalogPath ctx))⟩])
  let configText ← edited (TomlEdit.setTable libs.toml configText providerTable
    [⟨"name", .string provider⟩, ⟨"base_url", .string (gatewayPath wiring.gatewayUrl "v1")⟩,
      ⟨"wire_api", .string "responses"⟩, ⟨"requires_openai_auth", .bool true⟩])
  let authText ← edited (JsonEdit.set libs.codec auth [⟨"OPENAI_API_KEY", .string wiring.agentKey⟩])
  return {
    old := valuesUnder (TomlEdit.get libs.toml config) configStash configKeys ++
      valuesUnder (JsonEdit.get libs.codec auth) ("auth." ++ ·) ["OPENAI_API_KEY"]
    writes := [.ok (configPath ctx, configText), .ok (authPath ctx, authText),
      .ok (catalogPath ctx, renderCatalog libs wiring)] }

def extractConfig (libs : Libraries) (old : Values) (config : String) :
    Except WiringError String := do
  let text ← edited (TomlEdit.set libs.toml config (restoreSets configStash configKeys old))
  let text ← edited (TomlEdit.del libs.toml text (restoreDeletes configStash configKeys old))
  edited (TomlEdit.del libs.toml text [providerTable])

def extractAuth (libs : Libraries) (old : Values) (auth : String) : Except WiringError String :=
  match restoreSets ("auth." ++ ·) ["OPENAI_API_KEY"] old with
  | [] => edited (JsonEdit.del libs.codec auth ["OPENAI_API_KEY"])
  | sets => edited (JsonEdit.set libs.codec auth sets)

def spec (libs : Libraries) (ctx : HomeCtx) : AgentSpec where
  id := "codex"
  configFiles := [configPath ctx, authPath ctx, catalogPath ctx]
  reads := [configPath ctx, authPath ctx]
  connectPlan := connectPlan libs ctx
  disconnectSteps := [.edit (configPath ctx) (extractConfig libs),
    .edit (authPath ctx) (extractAuth libs), .remove (catalogPath ctx)]
  appliedValues text :=
    ((text (configPath ctx)).map fun config =>
      valuesUnder (TomlEdit.get libs.toml config) configStash
        (configKeys ++ [providerTable ++ ".base_url"])).getD [] ++
    ((text (authPath ctx)).map fun auth =>
      valuesUnder (JsonEdit.get libs.codec auth) ("auth." ++ ·) ["OPENAI_API_KEY"]).getD []

end CodexSpec

/-! ## Gemini CLI -/

namespace GeminiSpec

def dir (ctx : HomeCtx) : String := join ctx.home ".gemini"

def envPath (ctx : HomeCtx) : String := join (dir ctx) ".env"

def settingsPath (ctx : HomeCtx) : String := join (dir ctx) "settings.json"

def selectedType : String := "security.auth.selectedType"

def geminiApiKeyType : String := "GEMINI_API_KEY"

def envKeys : List String :=
  ["GOOGLE_GEMINI_BASE_URL", "GEMINI_API_KEY", "GEMINI_MODEL", "GOOGLE_API_KEY"]

def envStash (key : String) : String := "env." ++ key

def settingsStash (key : String) : String := "settings." ++ key

/-- The settings are written when they select another way to sign in. -/
def settingsWrite (codec : JsonCodec) (path settings : String) :
    List (Except WiringError (String × String)) :=
  match JsonEdit.get codec settings selectedType with
  | none => []
  | some selected =>
    if selected = geminiApiKeyType then []
    else
      [(edited (JsonEdit.set codec settings [⟨selectedType, .string geminiApiKeyType⟩])).map
        fun text => (path, text)]

def connectPlan (codec : JsonCodec) (ctx : HomeCtx) (wiring : WiringCtx) (text : String → String) :
    Except WiringError ConnectPlan :=
  let env := text (envPath ctx)
  let settings := text (settingsPath ctx)
  let next := EnvEdit.set codec env
    [⟨"GOOGLE_GEMINI_BASE_URL", .string wiring.gatewayUrl⟩,
      ⟨"GEMINI_API_KEY", .string wiring.agentKey⟩, ⟨"GEMINI_MODEL", .string wiring.defaultModel⟩]
  .ok {
    old := valuesUnder (EnvEdit.get env) envStash envKeys ++
      valuesUnder (JsonEdit.get codec settings) settingsStash [selectedType]
    writes := .ok (envPath ctx, EnvEdit.del next ["GOOGLE_API_KEY"]) ::
      settingsWrite codec (settingsPath ctx) settings }

def extractEnv (codec : JsonCodec) (old : Values) (current : String) : Except WiringError String :=
  .ok (EnvEdit.del (EnvEdit.set codec current (restoreSets envStash envKeys old))
    (restoreDeletes envStash envKeys old))

def extractSettings (codec : JsonCodec) (old : Values) (current : String) :
    Except WiringError String :=
  match restoreSets settingsStash [selectedType] old with
  | [] => edited (JsonEdit.del codec current [selectedType])
  | sets => edited (JsonEdit.set codec current sets)

def spec (libs : Libraries) (ctx : HomeCtx) : AgentSpec where
  id := "gemini-cli"
  configFiles := [envPath ctx, settingsPath ctx]
  reads := [envPath ctx, settingsPath ctx]
  connectPlan := connectPlan libs.codec ctx
  disconnectSteps := [.edit (envPath ctx) (extractEnv libs.codec),
    .edit (settingsPath ctx) (extractSettings libs.codec)]
  appliedValues text :=
    ((text (envPath ctx)).map fun env => valuesUnder (EnvEdit.get env) envStash envKeys).getD [] ++
    ((text (settingsPath ctx)).map fun settings =>
      valuesUnder (JsonEdit.get libs.codec settings) settingsStash [selectedType]).getD []

end GeminiSpec

/-! ## Pi -/

namespace PiSpec

def dir (ctx : HomeCtx) : String :=
  envDir ctx "PI_CODING_AGENT_DIR" (join (join ctx.home ".pi") "agent")

def settingsPath (ctx : HomeCtx) : String := join (dir ctx) "settings.json"

def modelsPath (ctx : HomeCtx) : String := join (dir ctx) "models.json"

def provider : String := "any-converter"

def settingsKeys : List String := ["defaultProvider", "defaultModel", "enabledModels"]

def settingsStash (key : String) : String := "settings." ++ key

def modelEntry (m : CatalogModel) : Value :=
  .object ((m.contextTokens.map fun n => ("context", Value.nat n)).toList ++
    [("name", .string m.name), ("reasoning", .bool m.reasoning)])

def providerModels (wiring : WiringCtx) : Value :=
  .object (wiring.catalog.foldl (fun models m => Value.insertField m.id (modelEntry m) models) [])

def providerValue (wiring : WiringCtx) : Value :=
  .object [("apiKey", .string wiring.agentKey),
    ("baseUrl", .string (gatewayPath wiring.gatewayUrl "v1")), ("models", providerModels wiring),
    ("name", .string provider)]

/-- The models a settings text enables, when they are a list. -/
def enabledModels (codec : JsonCodec) (settings : String) : Option (List Value) :=
  ((JsonEdit.get codec settings "enabledModels").bind codec.fromStr).bind Value.asArray

def appendEnabledModel (codec : JsonCodec) (settings defaultModel : String) :
    Except WiringError String :=
  match enabledModels codec settings with
  | none => .ok settings
  | some items =>
    let reference := provider ++ "/" ++ defaultModel
    if items.any fun item => item.asStr == some reference then .ok settings
    else
      edited (JsonEdit.set codec settings
        [⟨"enabledModels", .array (items ++ [.string reference])⟩])

/-- A model of ours. -/
def isOurs (item : Value) : Bool :=
  match item.asStr with
  | some value => Text.startsWith value (provider ++ "/")
  | none => false

def stripEnabledModels (codec : JsonCodec) (settings : String) : Except WiringError String :=
  match enabledModels codec settings with
  | none => .ok settings
  | some items =>
    let kept := items.filter fun item => !isOurs item
    if kept.isEmpty then edited (JsonEdit.del codec settings ["enabledModels"])
    else edited (JsonEdit.set codec settings [⟨"enabledModels", .array kept⟩])

def connectPlan (codec : JsonCodec) (ctx : HomeCtx) (wiring : WiringCtx) (text : String → String) :
    Except WiringError ConnectPlan := do
  let settings := text (settingsPath ctx)
  let models := text (modelsPath ctx)
  let modelsText ← edited (JsonEdit.set codec models
    [⟨"providers.any-converter", providerValue wiring⟩])
  let settingsText ← edited (JsonEdit.set codec settings
    [⟨"defaultProvider", .string provider⟩, ⟨"defaultModel", .string wiring.defaultModel⟩])
  let settingsText ← appendEnabledModel codec settingsText wiring.defaultModel
  return {
    old := valuesUnder (JsonEdit.get codec settings) settingsStash settingsKeys
    writes := [.ok (modelsPath ctx, modelsText), .ok (settingsPath ctx, settingsText)] }

def extractModels (codec : JsonCodec) (_old : Values) (current : String) :
    Except WiringError String :=
  edited (JsonEdit.del codec current ["providers.any-converter"])

def extractSettings (codec : JsonCodec) (old : Values) (current : String) :
    Except WiringError String := do
  let text ← edited (JsonEdit.set codec current
    (restoreSets settingsStash ["defaultProvider", "defaultModel"] old))
  let text ← edited (JsonEdit.del codec text
    (restoreDeletes settingsStash ["defaultProvider", "defaultModel"] old))
  stripEnabledModels codec text

def spec (libs : Libraries) (ctx : HomeCtx) : AgentSpec where
  id := "pi"
  configFiles := [settingsPath ctx, modelsPath ctx]
  reads := [settingsPath ctx, modelsPath ctx]
  connectPlan := connectPlan libs.codec ctx
  disconnectSteps := [.edit (modelsPath ctx) (extractModels libs.codec),
    .edit (settingsPath ctx) (extractSettings libs.codec)]
  appliedValues text :=
    ((text (settingsPath ctx)).map fun settings =>
      valuesUnder (JsonEdit.get libs.codec settings) settingsStash settingsKeys).getD [] ++
    ((text (modelsPath ctx)).map fun models =>
      valuesUnder (JsonEdit.get libs.codec models) ("models." ++ ·)
        ["providers.any-converter.baseUrl", "providers.any-converter.apiKey"]).getD []

end PiSpec

/-- Every supported agent. -/
def allSpecs (libs : Libraries) (ctx : HomeCtx) : List AgentSpec :=
  [ClaudeSpec.spec libs ctx, CodexSpec.spec libs ctx, GeminiSpec.spec libs ctx, PiSpec.spec libs ctx]

end AnyConverter
