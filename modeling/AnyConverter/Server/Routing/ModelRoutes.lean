import AnyConverter.Lib.Text

/-!
# Model routes

A client asks for a model by its name, or by the name of a provider and a slash before it.  A route
names the models it takes by a pattern, and the name sent upstream comes from the route, from the
provider's own map, or is the client's.

* `choice_configured`, `choice_other`: which route answers, and under which spelling of the model;
* `resolveProvider_answers`: what it answers;
* `obeys_iff`: when the rules that the routes are listed under hold.
-/

set_option autoImplicit false

namespace AnyConverter.Config

/-! ## Patterns -/

/-- The parts of a pattern with several stars, each looked for behind the one before it. -/
def matchParts (first : Bool) : List (List Char) → List Char → Bool
  | [], _ => true
  | part :: parts, rest =>
    if part = [] then matchParts false parts rest
    else if first then
      match Text.stripList part rest with
      | some rest => matchParts false parts rest
      | none => false
    else if parts = [] then part.isSuffixOf rest
    else
      match Text.splitList part rest with
      | some (_, rest) => matchParts false parts rest
      | none => false

def globMatch (pattern value : String) : Bool :=
  if pattern = "*" then true
  else if '*' ∉ pattern.toList then pattern = value
  else
    match Text.splitChar '*' pattern.toList with
    | [front, back] => front.isPrefixOf value.toList && back.isSuffixOf value.toList &&
        decide (front.length + back.length ≤ value.toList.length)
    | parts => matchParts true parts value.toList

/-! ## The configuration -/

inductive RouteStrategy where
  | priority
  | roundRobin
  deriving DecidableEq, Repr

structure ModelRouteConfig where
  pattern : String
  provider : Option String
  providers : List String
  upstreamModel : Option String
  strategy : RouteStrategy
  deriving DecidableEq, Repr

structure ProviderConfig where
  name : String
  /-- the client's names for the provider's models, in the order the map iterates them -/
  modelMap : List (String × String)
  deriving DecidableEq, Repr

structure ServerConfig where
  providers : List ProviderConfig
  modelRoutes : List ModelRouteConfig
  deriving DecidableEq, Repr

structure ResolvedRoute where
  providerNames : List String
  upstreamModel : String
  strategy : RouteStrategy
  deriving DecidableEq, Repr

namespace ModelRouteConfig

def providerNames (route : ModelRouteConfig) : List String := route.provider.toList ++ route.providers

def isWildcard (route : ModelRouteConfig) : Bool :=
  route.pattern.toList.contains '*' || route.pattern.toList.contains '?'

end ModelRouteConfig

/-- The entry with the longest pattern that matches; the first of these in the map. -/
def longestMatch (model : String) (entries : List (String × String)) : Option (String × String) :=
  entries.foldl (fun best entry =>
    if entry.1 = "*" then best
    else if globMatch entry.1 model &&
        best.all fun b => decide (b.1.utf8ByteSize < entry.1.utf8ByteSize) then some entry
    else best) none

/-- Exact match, longest wildcard, `*`, and at last the name itself. -/
def ProviderConfig.resolveModel (provider : ProviderConfig) (model : String) : String :=
  match provider.modelMap.lookup model with
  | some mapped => mapped
  | none =>
    match longestMatch model provider.modelMap with
    | some (_, target) => target
    | none => (provider.modelMap.lookup "*").getD model

namespace ServerConfig

def findProvider (cfg : ServerConfig) (name : String) : Option ProviderConfig :=
  cfg.providers.find? (·.name = name)

/-! ## Resolving a model -/

def resolveProviderForm (cfg : ServerConfig) (clientModel : String) (allowWildcards : Bool) :
    Option ResolvedRoute :=
  cfg.modelRoutes.findSome? fun route =>
    if route.isWildcard && !allowWildcards then none
    else if globMatch route.pattern clientModel then
      match route.providerNames with
      | [] => none
      | first :: rest =>
        some
          { providerNames := first :: rest
            upstreamModel := route.upstreamModel.getD
              (match cfg.findProvider first with
              | some provider => provider.resolveModel clientModel
              | none => clientModel)
            strategy := route.strategy }
    else none

/-- The upstream never wants the name of a provider before the model. -/
def rebaseUpstream (resolved : ResolvedRoute) (clientModel bareModel : String) : ResolvedRoute :=
  if resolved.upstreamModel = clientModel then { resolved with upstreamModel := bareModel }
  else resolved

/-- The form without the name of a configured provider. -/
def resolveBareForm (cfg : ServerConfig) (clientModel : String) (allowWildcards : Bool) :
    Option ResolvedRoute :=
  match Text.splitOnce "/" clientModel with
  | some (name, bare) =>
    if (cfg.findProvider name).isSome then
      (cfg.resolveProviderForm bare allowWildcards).map (rebaseUpstream · clientModel bare)
    else none
  | none => none

def resolveProvider (cfg : ServerConfig) (clientModel : String) : Option ResolvedRoute :=
  match cfg.resolveProviderForm clientModel false with
  | some resolved => some resolved
  | none =>
    match cfg.resolveBareForm clientModel false with
    | some resolved => some resolved
    | none =>
      match cfg.resolveProviderForm clientModel true with
      | some resolved => some ((cfg.resolveBareForm clientModel true).getD resolved)
      | none =>
        match Text.splitOnce "/" clientModel with
        | some (_, bare) => cfg.resolveProviderForm bare true
        | none => none

/-! ## The route that answers -/

/-- The first route that takes a name; one without a provider takes none. -/
def routeFor (cfg : ServerConfig) (name : String) (allowWildcards : Bool) : Option ModelRouteConfig :=
  cfg.modelRoutes.find? fun route => !(route.isWildcard && !allowWildcards) &&
    globMatch route.pattern name && !route.providerNames.isEmpty

/-- The name a route sends upstream for a name it takes. -/
def upstreamFor (cfg : ServerConfig) (route : ModelRouteConfig) (name : String) : String :=
  route.upstreamModel.getD
    (match route.providerNames.head?.bind cfg.findProvider with
    | some provider => provider.resolveModel name
    | none => name)

def resolved (cfg : ServerConfig) (name : String) (route : ModelRouteConfig) : ResolvedRoute :=
  ⟨route.providerNames, cfg.upstreamFor route name, route.strategy⟩

/-- The route and the spelling without the name of a configured provider. -/
def bareChoice (cfg : ServerConfig) (clientModel : String) (allowWildcards : Bool) :
    Option (ModelRouteConfig × String) :=
  match Text.splitOnce "/" clientModel with
  | some (name, bare) =>
    if (cfg.findProvider name).isSome then (cfg.routeFor bare allowWildcards).map (·, bare) else none
  | none => none

/-- The route that answers, and the spelling of the model it takes. -/
def choice (cfg : ServerConfig) (clientModel : String) : Option (ModelRouteConfig × String) :=
  match cfg.routeFor clientModel false with
  | some route => some (route, clientModel)
  | none =>
    match cfg.bareChoice clientModel false with
    | some chosen => some chosen
    | none =>
      match cfg.routeFor clientModel true with
      | some route => some ((cfg.bareChoice clientModel true).getD (route, clientModel))
      | none =>
        match Text.splitOnce "/" clientModel with
        | some (_, bare) => (cfg.routeFor bare true).map (·, bare)
        | none => none

/-- Whether a name is a model of a configured provider, with the provider's name before it. -/
def Prefixed (cfg : ServerConfig) (clientModel name bare : String) : Prop :=
  Text.splitOnce "/" clientModel = some (name, bare) ∧ (cfg.findProvider name).isSome = true

section
variable {cfg : ServerConfig} {clientModel name bare spelling : String} {allowWildcards : Bool}
  {route : ModelRouteConfig}

theorem resolveProviderForm_eq (cfg : ServerConfig) (name : String) (allowWildcards : Bool) :
    cfg.resolveProviderForm name allowWildcards =
      (cfg.routeFor name allowWildcards).map (cfg.resolved name) := by
  unfold resolveProviderForm routeFor
  induction cfg.modelRoutes with
  | nil => rfl
  | cons route routes ih =>
    rw [List.findSome?_cons, List.find?_cons]
    by_cases hwild : (route.isWildcard && !allowWildcards) = true
    · simp only [hwild, if_true, Bool.not_true, Bool.false_and]
      exact ih
    · rw [Bool.not_eq_true] at hwild
      cases hmatch : globMatch route.pattern name with
      | false =>
        simp only [hwild, Bool.false_eq_true, if_false, Bool.not_false, Bool.true_and, Bool.false_and]
        exact ih
      | true =>
        cases hnames : route.providerNames with
        | nil =>
          simp only [hwild, Bool.false_eq_true, if_false, if_true, Bool.not_false, Bool.true_and,
            List.isEmpty_nil, Bool.not_true]
          exact ih
        | cons first rest =>
          simp only [hwild, Bool.false_eq_true, if_false, if_true, Bool.not_false, Bool.true_and,
            List.isEmpty_cons, Option.map_some, resolved, upstreamFor, hnames, List.head?_cons,
            Option.bind_some]

theorem resolveBareForm_eq (cfg : ServerConfig) (clientModel : String) (allowWildcards : Bool) :
    cfg.resolveBareForm clientModel allowWildcards =
      (cfg.bareChoice clientModel allowWildcards).map fun chosen =>
        rebaseUpstream (cfg.resolved chosen.2 chosen.1) clientModel chosen.2 := by
  unfold resolveBareForm bareChoice
  cases Text.splitOnce "/" clientModel with
  | none => rfl
  | some parts =>
    dsimp only
    split
    · rw [resolveProviderForm_eq, Option.map_map, Option.map_map]
      rfl
    · rfl

theorem routeFor_spec (h : cfg.routeFor name allowWildcards = some route) :
    (route.isWildcard = true → allowWildcards = true) ∧ globMatch route.pattern name = true ∧
      route.providerNames ≠ [] ∧ route ∈ cfg.modelRoutes := by
  have hfound := List.find?_some h
  simp only [Bool.and_eq_true, Bool.not_eq_true', Bool.and_eq_false_iff, Bool.not_eq_false'] at hfound
  refine ⟨fun hwild => ?_, hfound.1.2, ?_, List.mem_of_find?_eq_some h⟩
  · rcases hfound.1.1 with hnot | hallow
    · rw [hwild] at hnot
      cases hnot
    · exact hallow
  · intro hnil
    rw [hnil] at hfound
    cases hfound.2

theorem isSome_routeFor (hmem : route ∈ cfg.modelRoutes) (hnames : route.providerNames ≠ [])
    (hmatch : globMatch route.pattern name = true)
    (hallow : route.isWildcard = true → allowWildcards = true) :
    ∃ found, cfg.routeFor name allowWildcards = some found := by
  apply Option.isSome_iff_exists.mp
  unfold routeFor
  rw [List.find?_isSome]
  refine ⟨route, hmem, ?_⟩
  cases hwild : route.isWildcard with
  | false => simp [hmatch, hnames]
  | true => simp [hmatch, hnames, hallow hwild]

theorem routeFor_eq_none (h : cfg.routeFor name true = none) : cfg.routeFor name false = none := by
  cases hfound : cfg.routeFor name false with
  | none => rfl
  | some route =>
    obtain ⟨-, hmatch, hnames, hmem⟩ := routeFor_spec hfound
    obtain ⟨found, hfound'⟩ := isSome_routeFor hmem hnames hmatch fun _ => rfl
    rw [h] at hfound'
    cases hfound'

/-- A pattern without stars and question marks takes the name it is. -/
theorem globMatch_self (hwild : route.isWildcard = false) : globMatch route.pattern route.pattern = true := by
  unfold ModelRouteConfig.isWildcard at hwild
  rw [Bool.or_eq_false_iff] at hwild
  have hstar : '*' ∉ route.pattern.toList := by simpa using hwild.1
  unfold globMatch
  by_cases hall : route.pattern = "*"
  · rw [if_pos hall]
  · rw [if_neg hall, if_pos hstar]
    exact decide_eq_true rfl

theorem ne_of_splitOnce (h : Text.splitOnce "/" clientModel = some (name, bare)) : bare ≠ clientModel := by
  intro heq
  have hlength := congrArg String.length (Text.splitOnce_eq_some h)
  rw [heq, String.length_append, String.length_append] at hlength
  have hslash : ("/" : String).length = 1 := by decide
  omega

/-- **The order of a configured provider's models**: by name before by wildcard, and among the
wildcards without the provider's name first. -/
theorem choice_configured (h : cfg.Prefixed clientModel name bare) :
    cfg.choice clientModel =
      ((cfg.routeFor clientModel false).map (·, clientModel)).or
        (((cfg.routeFor bare false).map (·, bare)).or
          (((cfg.routeFor bare true).map (·, bare)).or
            ((cfg.routeFor clientModel true).map (·, clientModel)))) := by
  obtain ⟨hsplit, hfound⟩ := h
  unfold choice bareChoice
  rw [hsplit]
  dsimp only
  rw [if_pos hfound, if_pos hfound]
  cases cfg.routeFor clientModel false with
  | some route => rfl
  | none =>
    cases cfg.routeFor bare false with
    | some route => rfl
    | none =>
      cases cfg.routeFor clientModel true with
      | some route => cases cfg.routeFor bare true <;> rfl
      | none => cases cfg.routeFor bare true <;> rfl

/-- The order of all other names: without what stands before a slash only when nothing else is left. -/
theorem choice_other (h : ∀ name bare, ¬cfg.Prefixed clientModel name bare) :
    cfg.choice clientModel =
      ((cfg.routeFor clientModel false).map (·, clientModel)).or
        (((cfg.routeFor clientModel true).map (·, clientModel)).or
          ((Text.splitOnce "/" clientModel).bind fun parts =>
            (cfg.routeFor parts.2 true).map (·, parts.2))) := by
  have hbare : ∀ allowWildcards, cfg.bareChoice clientModel allowWildcards = none := by
    intro allowWildcards
    unfold bareChoice
    cases hsplit : Text.splitOnce "/" clientModel with
    | none => rfl
    | some parts =>
      dsimp only
      rw [if_neg fun hfound => h parts.1 parts.2 ⟨hsplit, hfound⟩]
  unfold choice
  rw [hbare, hbare]
  cases cfg.routeFor clientModel false with
  | some route => rfl
  | none =>
    cases cfg.routeFor clientModel true with
    | some route => rfl
    | none => cases Text.splitOnce "/" clientModel <;> rfl

/-- What a route answers for the spelling it takes; a name that would be sent upstream as the client
wrote it loses the provider's name, where the route took the name without it. -/
def Answers (cfg : ServerConfig) (clientModel : String) (chosen : ModelRouteConfig × String)
    (answer : ResolvedRoute) : Prop :=
  answer.providerNames = chosen.1.providerNames ∧ answer.strategy = chosen.1.strategy ∧
    (answer.upstreamModel = cfg.upstreamFor chosen.1 chosen.2 ∨
      (chosen.2 ≠ clientModel ∧ answer.upstreamModel = chosen.2))

theorem answers_resolved (cfg : ServerConfig) (clientModel : String) (route : ModelRouteConfig)
    (spelling : String) : cfg.Answers clientModel (route, spelling) (cfg.resolved spelling route) :=
  ⟨rfl, rfl, .inl rfl⟩

theorem answers_bare {chosen : ModelRouteConfig × String}
    (h : cfg.bareChoice clientModel allowWildcards = some chosen) :
    cfg.Answers clientModel chosen
      (rebaseUpstream (cfg.resolved chosen.2 chosen.1) clientModel chosen.2) := by
  unfold bareChoice at h
  split at h
  · rename_i hsplit
    split at h
    · obtain ⟨route, -, rfl⟩ := Option.map_eq_some_iff.mp h
      unfold rebaseUpstream
      split
      · exact ⟨rfl, rfl, .inr ⟨ne_of_splitOnce hsplit, rfl⟩⟩
      · exact answers_resolved cfg clientModel route _
    · cases h
  · cases h

/-- **What is answered is what the chosen route answers**, and nothing is where no route is chosen. -/
theorem resolveProvider_answers (cfg : ServerConfig) (clientModel : String) :
    Option.Rel (cfg.Answers clientModel) (cfg.choice clientModel) (cfg.resolveProvider clientModel) := by
  unfold choice resolveProvider
  simp only [resolveProviderForm_eq, resolveBareForm_eq]
  cases cfg.routeFor clientModel false with
  | some route => exact .some (answers_resolved cfg clientModel route clientModel)
  | none =>
    cases hspecific : cfg.bareChoice clientModel false with
    | some chosen => exact .some (answers_bare hspecific)
    | none =>
      cases cfg.routeFor clientModel true with
      | some route =>
        cases hbare : cfg.bareChoice clientModel true with
        | some chosen => exact .some (answers_bare hbare)
        | none => exact .some (answers_resolved cfg clientModel route clientModel)
      | none =>
        cases Text.splitOnce "/" clientModel with
        | none => exact .none
        | some parts =>
          dsimp only [Option.map_none]
          cases cfg.routeFor parts.2 true with
          | none => exact .none
          | some route => exact .some (answers_resolved cfg clientModel route parts.2)

theorem resolveProvider_of_choice {chosen : ModelRouteConfig × String}
    (h : cfg.choice clientModel = some chosen) :
    ∃ answer, cfg.resolveProvider clientModel = some answer ∧ cfg.Answers clientModel chosen answer := by
  have hrel := resolveProvider_answers cfg clientModel
  rw [h] at hrel
  generalize cfg.resolveProvider clientModel = answered at hrel
  cases hrel with
  | @some _ answer hanswers => exact ⟨answer, rfl, hanswers⟩

end

/-! ## The rules of the table -/

/-- Neither the route nor the map of its first provider gives the model another name. -/
def Unrenamed (cfg : ServerConfig) (route : ModelRouteConfig) (clientModel bare : String) : Prop :=
  route.upstreamModel = none ∧
    ∀ provider, route.providerNames.head?.bind cfg.findProvider = some provider →
      provider.resolveModel clientModel = clientModel ∧ provider.resolveModel bare = bare

/-- The rules the routes are listed under, for one name. -/
structure Obeys (cfg : ServerConfig) (clientModel : String) : Prop where
  /-- what is answered is the chosen route's -/
  answered : (cfg.resolveProvider clientModel).map (fun answer => (answer.providerNames, answer.strategy)) =
    (cfg.choice clientModel).map fun chosen => (chosen.1.providerNames, chosen.1.strategy)
  /-- a route that names the model wins over every wildcard, wherever it is listed -/
  specific : ∀ route ∈ cfg.modelRoutes, route.providerNames ≠ [] → route.isWildcard = false →
    (route.pattern = clientModel ∨ ∃ name, cfg.Prefixed clientModel name route.pattern) →
      ∃ chosen spelling, cfg.choice clientModel = some (chosen, spelling) ∧ chosen.isWildcard = false
  /-- without a configured provider's name before it, the model is matched in full -/
  full : (∀ name bare, ¬cfg.Prefixed clientModel name bare) → ∀ chosen spelling,
    cfg.choice clientModel = some (chosen, spelling) → globMatch chosen.pattern clientModel = true
  /-- a wildcard takes the model without the provider's name, where one does -/
  bareFirst : ∀ name bare, cfg.Prefixed clientModel name bare →
    (∃ route ∈ cfg.modelRoutes, route.providerNames ≠ [] ∧ route.isWildcard = true ∧
      globMatch route.pattern bare = true) →
    ∀ chosen spelling, cfg.choice clientModel = some (chosen, spelling) →
      chosen.isWildcard = true → spelling = bare
  /-- the upstream gets the model without the provider's name, where nobody renames it -/
  bareUpstream : ∀ name bare, cfg.Prefixed clientModel name bare → ∀ chosen spelling answer,
    cfg.choice clientModel = some (chosen, spelling) → cfg.resolveProvider clientModel = some answer →
      cfg.Unrenamed chosen clientModel bare → answer.upstreamModel = bare

/-- What stands before the slash is no configured provider, no route takes the model in full, and one
takes what stands behind the slash. -/
def StripsUnknown (cfg : ServerConfig) (clientModel : String) : Prop :=
  ∃ name bare, Text.splitOnce "/" clientModel = some (name, bare) ∧ cfg.findProvider name = none ∧
    cfg.routeFor clientModel true = none ∧ cfg.routeFor bare true ≠ none

/-- A route takes the model with the provider's name before it, by name or because no route takes it
without, and nobody renames it. -/
def KeepsPrefix (cfg : ServerConfig) (clientModel : String) : Prop :=
  ∃ name bare route, cfg.Prefixed clientModel name bare ∧
    (cfg.routeFor clientModel false = some route ∨
      (cfg.routeFor clientModel false = none ∧ cfg.routeFor bare true = none ∧
        cfg.routeFor clientModel true = some route)) ∧
    cfg.Unrenamed route clientModel bare

section
variable (cfg : ServerConfig) (clientModel : String)

theorem answered_choice :
    (cfg.resolveProvider clientModel).map (fun answer => (answer.providerNames, answer.strategy)) =
      (cfg.choice clientModel).map fun chosen => (chosen.1.providerNames, chosen.1.strategy) := by
  have hrel := resolveProvider_answers cfg clientModel
  generalize cfg.resolveProvider clientModel = answered, cfg.choice clientModel = chosen at hrel
  cases hrel with
  | none => rfl
  | some hanswers => rw [Option.map_some, Option.map_some, hanswers.1, hanswers.2.1]

/-- A route that names the model is chosen before every wildcard. -/
theorem choice_specific {route : ModelRouteConfig} (hmem : route ∈ cfg.modelRoutes)
    (hnames : route.providerNames ≠ []) (hwild : route.isWildcard = false)
    (h : route.pattern = clientModel ∨ ∃ name, cfg.Prefixed clientModel name route.pattern) :
    ∃ chosen spelling, cfg.choice clientModel = some (chosen, spelling) ∧ chosen.isWildcard = false := by
  have hplain : ∀ {name found}, cfg.routeFor name false = some found → found.isWildcard = false := by
    intro name found hfound
    by_contra hnot
    exact absurd ((routeFor_spec hfound).1 (by simpa using hnot)) Bool.false_ne_true
  have htakes : ∃ found, cfg.routeFor route.pattern false = some found := by
    refine isSome_routeFor hmem hnames (globMatch_self hwild) fun h => ?_
    rw [hwild] at h
    cases h
  obtain ⟨found, hfound⟩ := htakes
  cases hfull : cfg.routeFor clientModel false with
  | some full =>
    refine ⟨full, clientModel, ?_, hplain hfull⟩
    unfold choice
    rw [hfull]
  | none =>
    rcases h with rfl | ⟨name, hprefixed⟩
    · rw [hfound] at hfull
      cases hfull
    · refine ⟨found, route.pattern, ?_, hplain hfound⟩
      rw [choice_configured hprefixed, hfull, hfound]
      rfl

/-- The rule of the full match fails only for a name whose unknown provider is dropped. -/
theorem full_iff : ((∀ name bare, ¬cfg.Prefixed clientModel name bare) → ∀ chosen spelling,
    cfg.choice clientModel = some (chosen, spelling) → globMatch chosen.pattern clientModel = true) ↔
      ¬cfg.StripsUnknown clientModel := by
  constructor
  · rintro hfull ⟨name, bare, hsplit, hunknown, hnone, hsome⟩
    obtain ⟨route, hroute⟩ := Option.ne_none_iff_exists'.mp hsome
    have hother : ∀ name bare, ¬cfg.Prefixed clientModel name bare := by
      rintro name' bare' ⟨hsplit', hfound⟩
      rw [hsplit] at hsplit'
      cases hsplit'
      rw [hunknown] at hfound
      cases hfound
    have hchoice : cfg.choice clientModel = some (route, bare) := by
      rw [choice_other hother, routeFor_eq_none hnone, hnone, hsplit]
      simp [hroute]
    obtain ⟨-, -, hnames, hmem⟩ := routeFor_spec hroute
    obtain ⟨found, hfound⟩ := isSome_routeFor hmem hnames (hfull hother route bare hchoice) fun _ => rfl
    rw [hnone] at hfound
    cases hfound
  · intro hstrips hother chosen spelling hchoice
    rw [choice_other hother] at hchoice
    cases hfull : cfg.routeFor clientModel false with
    | some route =>
      rw [hfull] at hchoice
      cases hchoice
      exact (routeFor_spec hfull).2.1
    | none =>
      cases hwild : cfg.routeFor clientModel true with
      | some route =>
        rw [hfull, hwild] at hchoice
        cases hchoice
        exact (routeFor_spec hwild).2.1
      | none =>
        rw [hfull, hwild] at hchoice
        obtain ⟨⟨name, bare⟩, hsplit, hbare⟩ := Option.bind_eq_some_iff.mp hchoice
        obtain ⟨route, hroute, -⟩ := Option.map_eq_some_iff.mp hbare
        refine absurd ⟨name, bare, hsplit, ?_, hwild, ?_⟩ hstrips
        · by_contra hfound
          exact hother name bare ⟨hsplit, Option.isSome_iff_ne_none.mpr hfound⟩
        · exact fun hnone => by rw [hnone] at hroute; cases hroute

/-- Among the wildcards, one that takes the model without the provider's name comes first. -/
theorem choice_bareFirst {name bare : String} (hprefixed : cfg.Prefixed clientModel name bare)
    (htakes : ∃ route ∈ cfg.modelRoutes, route.providerNames ≠ [] ∧ route.isWildcard = true ∧
      globMatch route.pattern bare = true) {chosen : ModelRouteConfig} {spelling : String}
    (hchoice : cfg.choice clientModel = some (chosen, spelling)) (hwild : chosen.isWildcard = true) :
    spelling = bare := by
  have hnot : ∀ {name}, cfg.routeFor name false = some chosen → False := by
    intro name hfound
    exact absurd ((routeFor_spec hfound).1 hwild) Bool.false_ne_true
  obtain ⟨route, hmem, hnames, -, hmatch⟩ := htakes
  obtain ⟨found, hfound⟩ := isSome_routeFor hmem hnames hmatch fun _ => rfl
  rw [choice_configured hprefixed, hfound] at hchoice
  cases hfull : cfg.routeFor clientModel false with
  | some full =>
    rw [hfull] at hchoice
    cases hchoice
    exact (hnot hfull).elim
  | none =>
    cases hspecific : cfg.routeFor bare false with
    | some specific =>
      rw [hfull, hspecific] at hchoice
      cases hchoice
      exact (hnot hspecific).elim
    | none =>
      rw [hfull, hspecific] at hchoice
      cases hchoice
      rfl

end

theorem upstreamFor_unrenamed {cfg : ServerConfig} {route : ModelRouteConfig} {clientModel bare : String}
    (h : cfg.Unrenamed route clientModel bare) :
    cfg.upstreamFor route clientModel = clientModel ∧ cfg.upstreamFor route bare = bare := by
  obtain ⟨hroute, hmap⟩ := h
  unfold upstreamFor
  rw [hroute]
  cases hprovider : route.providerNames.head?.bind cfg.findProvider with
  | none => exact ⟨rfl, rfl⟩
  | some provider => exact hmap provider hprovider

section
variable (cfg : ServerConfig) (clientModel : String)

/-- The spelling the chosen route takes: in full, or without the provider's name. -/
theorem choice_spelling {name bare : String} (hprefixed : cfg.Prefixed clientModel name bare)
    {chosen : ModelRouteConfig} {spelling : String}
    (hchoice : cfg.choice clientModel = some (chosen, spelling)) :
    spelling = bare ∨ (spelling = clientModel ∧
      (cfg.routeFor clientModel false = some chosen ∨
        (cfg.routeFor clientModel false = none ∧ cfg.routeFor bare true = none ∧
          cfg.routeFor clientModel true = some chosen))) := by
  rw [choice_configured hprefixed] at hchoice
  cases hfull : cfg.routeFor clientModel false with
  | some full =>
    rw [hfull] at hchoice
    cases hchoice
    exact .inr ⟨rfl, .inl rfl⟩
  | none =>
    rw [hfull] at hchoice
    cases hbare : cfg.routeFor bare true with
    | some found =>
      rw [hbare] at hchoice
      cases hspecific : cfg.routeFor bare false with
      | some specific =>
        rw [hspecific] at hchoice
        cases hchoice
        exact .inl rfl
      | none =>
        rw [hspecific] at hchoice
        cases hchoice
        exact .inl rfl
    | none =>
      rw [routeFor_eq_none hbare, hbare] at hchoice
      obtain ⟨route, hroute, heq⟩ := Option.map_eq_some_iff.mp hchoice
      obtain ⟨rfl, rfl⟩ := Prod.mk.inj heq
      exact .inr ⟨rfl, .inr ⟨rfl, rfl, hroute⟩⟩

/-- The rule of the upstream's name fails only where a route takes the model in full. -/
theorem bareUpstream_iff : (∀ name bare, cfg.Prefixed clientModel name bare →
    ∀ chosen spelling answer, cfg.choice clientModel = some (chosen, spelling) →
      cfg.resolveProvider clientModel = some answer → cfg.Unrenamed chosen clientModel bare →
        answer.upstreamModel = bare) ↔ ¬cfg.KeepsPrefix clientModel := by
  constructor
  · rintro hupstream ⟨name, bare, route, hprefixed, htakes, hunrenamed⟩
    have hne := ne_of_splitOnce hprefixed.1
    have hchoice : cfg.choice clientModel = some (route, clientModel) := by
      rw [choice_configured hprefixed]
      rcases htakes with hfull | ⟨hfull, hbare, hwild⟩
      · rw [hfull]
        rfl
      · rw [hfull, routeFor_eq_none hbare, hbare, hwild]
        rfl
    obtain ⟨answer, hanswer, -, -, hname⟩ := resolveProvider_of_choice hchoice
    have hbare := hupstream name bare hprefixed route clientModel answer hchoice hanswer hunrenamed
    rcases hname with hname | ⟨hother, -⟩
    · rw [hname, (upstreamFor_unrenamed hunrenamed).1] at hbare
      exact hne hbare.symm
    · exact hother rfl
  · intro hkeeps name bare hprefixed chosen spelling answer hchoice hanswer hunrenamed
    obtain ⟨answer', hanswer', -, -, hname⟩ := resolveProvider_of_choice hchoice
    rw [hanswer] at hanswer'
    cases hanswer'
    rcases choice_spelling cfg clientModel hprefixed hchoice with rfl | ⟨-, htakes⟩
    · rcases hname with hname | ⟨-, hname⟩
      · rw [hname, (upstreamFor_unrenamed hunrenamed).2]
      · exact hname
    · exact absurd ⟨name, bare, chosen, hprefixed, htakes, hunrenamed⟩ hkeeps

/-- **The rules of the routes hold for a name** exactly when no unknown provider is dropped from it,
and no route takes it in full with a configured provider's name before it, to send it on as it is. -/
theorem obeys_iff :
    cfg.Obeys clientModel ↔ ¬cfg.StripsUnknown clientModel ∧ ¬cfg.KeepsPrefix clientModel := by
  constructor
  · intro hobeys
    exact ⟨(full_iff cfg clientModel).mp hobeys.full, (bareUpstream_iff cfg clientModel).mp hobeys.bareUpstream⟩
  · rintro ⟨hstrips, hkeeps⟩
    exact
      { answered := answered_choice cfg clientModel
        specific := fun route hmem hnames hwild h => choice_specific cfg clientModel hmem hnames hwild h
        full := (full_iff cfg clientModel).mpr hstrips
        bareFirst := fun name bare hprefixed htakes chosen spelling hchoice hwild =>
          choice_bareFirst cfg clientModel hprefixed htakes hchoice hwild
        bareUpstream := (bareUpstream_iff cfg clientModel).mpr hkeeps }

end

/-- One provider with one wildcard route. -/
def oneRoute (pattern : String) : ServerConfig :=
  ⟨[⟨"deepseek", []⟩], [⟨pattern, some "deepseek", [], none, .priority⟩]⟩

/-- An unknown provider is dropped from the name; and a known one is sent upstream. -/
theorem rules_broken : ¬(oneRoute "gpt-*").Obeys "nope/gpt-4o" ∧
    ¬(oneRoute "deepseek/*").Obeys "deepseek/deepseek-chat" := by
  constructor
  · intro h
    have hbroken : (oneRoute "gpt-*").StripsUnknown "nope/gpt-4o" :=
      ⟨"nope", "gpt-4o", by decide +kernel, by decide +kernel, by decide +kernel, by decide +kernel⟩
    exact (full_iff _ _).mp h.full hbroken
  · intro h
    have hbroken : (oneRoute "deepseek/*").KeepsPrefix "deepseek/deepseek-chat" := by
      refine ⟨"deepseek", "deepseek-chat", ⟨"deepseek/*", some "deepseek", [], none, .priority⟩,
        ⟨by decide +kernel, by decide +kernel⟩,
        .inr ⟨by decide +kernel, by decide +kernel, by decide +kernel⟩, rfl, ?_⟩
      intro provider hprovider
      obtain rfl := Option.some.inj (hprovider.symm.trans
        (by decide +kernel : _ = some (⟨"deepseek", []⟩ : ProviderConfig)))
      exact ⟨rfl, rfl⟩
    exact (bareUpstream_iff _ _).mp h.bareUpstream hbroken

end ServerConfig

end AnyConverter.Config
