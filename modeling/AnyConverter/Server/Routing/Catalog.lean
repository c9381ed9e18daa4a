import Mathlib.Data.String.Basic
import AnyConverter.Server.Routing.ModelMap
import AnyConverter.Wiring.Spec.Basic

/-!
# The models on offer

Agents are offered the models of the configuration under the name of a provider and a slash; the
list of models that any client may ask for has them without it.

* `choice_offered`: which route a model of a route is answered by;
* `catalog_routed`: what is offered, that it is answered, and when it goes where it is offered from.
-/

set_option autoImplicit false

namespace AnyConverter.Config

namespace ServerConfig

/-! ## What is offered -/

/-- A pattern is not a model an agent can pick. -/
def isPattern (name : String) : Bool := name.toList.contains '*' || name.toList.contains '?'

/-- A model under the name of its provider. -/
def offer (provider name : String) : CatalogModel := ⟨provider ++ "/" ++ name, name, false, none⟩

/-- The models of a provider's map, by name. -/
def mapOffers (provider : ProviderConfig) : List CatalogModel :=
  let names := (provider.modelMap.map Prod.fst).mergeSort fun a b => a ≤ b
  (names.filter fun name => !isPattern name).map (offer provider.name)

def routeOffer (route : ModelRouteConfig) : Option CatalogModel :=
  if isPattern route.pattern then none
  else (route.provider.or route.providers.head?).map (offer · route.pattern)

/-- Puts what has a new key behind the others. -/
def pushNew {α β : Type} [DecidableEq β] (key : α → β) (seen : List α) (x : α) : List α :=
  if seen.any fun y => key y = key x then seen else seen ++ [x]

def catalogFromConfig (cfg : ServerConfig) : List CatalogModel :=
  (cfg.providers.flatMap mapOffers ++ cfg.modelRoutes.filterMap routeOffer).foldl
    (pushNew CatalogModel.id) []

/-- The models any client may ask for. -/
def availableModels (cfg : ServerConfig) : List String :=
  let patterns := (cfg.modelRoutes.map ModelRouteConfig.pattern).filter fun pattern =>
    pattern ≠ "*" && !pattern.toList.contains '*'
  let keys := (cfg.providers.flatMap fun provider => provider.modelMap.map Prod.fst).filter fun key =>
    key ≠ "*"
  (patterns ++ keys).foldl (pushNew id) []

/-- What `validate` finds wrong with the routes. -/
def validateRoutes (cfg : ServerConfig) : List String :=
  cfg.modelRoutes.zipIdx.flatMap fun (route, i) =>
    let place := "model_routes[" ++ toString i ++ "] (pattern=\"" ++ route.pattern ++ "\"): "
    let unknown := route.providerNames.filter fun name =>
      !(cfg.providers.map ProviderConfig.name).contains name
    unknown.map (fun name => place ++ "provider \"" ++ name ++ "\" not found") ++
      if route.providerNames.isEmpty then [place ++ "no provider specified"] else []

/-! ## What the offers promise -/

/-- A route that an agent is offered the model of, by its own name. -/
def Offered (cfg : ServerConfig) (route : ModelRouteConfig) : Prop :=
  route ∈ cfg.modelRoutes ∧ route.isWildcard = false

/-- The id that the model of a route is offered under. -/
def offeredId (route : ModelRouteConfig) : String :=
  route.providerNames.head?.getD "" ++ "/" ++ route.pattern

/-- The routes that name a model of a route are this route alone, under any of its names. -/
def Unshared (cfg : ServerConfig) (route : ModelRouteConfig) : Prop :=
  ∀ other, cfg.Offered other →
    other.pattern ≠ offeredId route ∧ (other.pattern = route.pattern → other = route)

/-! ## Lists without repetition -/

theorem pushNew_spec {α β : Type} [DecidableEq β] {key : α → β} {seen : List α} (x : α)
    (h : (seen.map key).Nodup) :
    ((pushNew key seen x).map key).Nodup ∧ (∀ y, y ∈ pushNew key seen x → y ∈ seen ∨ y = x) ∧
      (∀ y ∈ seen, y ∈ pushNew key seen x) ∧ ∃ y ∈ pushNew key seen x, key y = key x := by
  unfold pushNew
  split
  · rename_i hany
    obtain ⟨y, hy, hkey⟩ := List.any_eq_true.mp hany
    exact ⟨h, fun y hy => Or.inl hy, fun y hy => hy, y, hy, of_decide_eq_true hkey⟩
  · rename_i hany
    refine ⟨?_, by simp, fun y hy => List.mem_append_left _ hy, x, by simp, rfl⟩
    rw [List.map_append, List.nodup_append]
    refine ⟨h, by simp, ?_⟩
    intro k hk k' hk' heq
    obtain ⟨y, hy, rfl⟩ := List.mem_map.mp hk
    rw [List.map_singleton, List.mem_singleton] at hk'
    exact hany (List.any_eq_true.mpr ⟨y, hy, decide_eq_true (heq.trans hk')⟩)

/-- Every key is kept once, with one of those that have it. -/
theorem foldl_pushNew {α β : Type} [DecidableEq β] (key : α → β) (seen xs : List α)
    (h : (seen.map key).Nodup) :
    ((xs.foldl (pushNew key) seen).map key).Nodup ∧
      (∀ y, y ∈ xs.foldl (pushNew key) seen → y ∈ seen ∨ y ∈ xs) ∧
      (∀ y ∈ seen, y ∈ xs.foldl (pushNew key) seen) ∧
      ∀ x ∈ xs, ∃ y ∈ xs.foldl (pushNew key) seen, key y = key x := by
  induction xs generalizing seen with
  | nil => exact ⟨h, fun y hy => Or.inl hy, fun y hy => hy, fun x hx => by cases hx⟩
  | cons x xs ih =>
    rw [List.foldl_cons]
    obtain ⟨hnodup, honly, hkept, y, hy, hkey⟩ := pushNew_spec x h
    obtain ⟨hnodup', honly', hkept', hall⟩ := ih (pushNew key seen x) hnodup
    refine ⟨hnodup', fun z hz => ?_, fun z hz => hkept' z (hkept z hz), fun z hz => ?_⟩
    · rcases honly' z hz with hz | hz
      · rcases honly z hz with hz | rfl
        · exact Or.inl hz
        · exact Or.inr List.mem_cons_self
      · exact Or.inr (List.mem_cons_of_mem x hz)
    · rcases List.mem_cons.mp hz with rfl | hz
      · exact ⟨y, hkept' y hy, hkey⟩
      · exact hall z hz

section
variable {cfg : ServerConfig} {route : ModelRouteConfig}

/-! ## Valid routes -/

/-- Every route of a valid configuration has providers, and all of them are configured. -/
theorem valid_route (hvalid : cfg.validateRoutes = []) (hmem : route ∈ cfg.modelRoutes) :
    route.providerNames ≠ [] ∧ ∀ name ∈ route.providerNames, (cfg.findProvider name).isSome = true := by
  obtain ⟨i, hi, rfl⟩ := List.getElem_of_mem hmem
  have hclean := List.flatMap_eq_nil_iff.mp hvalid (cfg.modelRoutes[i], i)
    (List.mem_zipIdx_iff_getElem?.mpr (List.getElem?_eq_getElem hi))
  obtain ⟨hunknown, hempty⟩ := List.append_eq_nil_iff.mp hclean
  constructor
  · intro hnil
    rw [hnil] at hempty
    cases hempty
  · intro name hname
    have hknown := List.filter_eq_nil_iff.mp (List.map_eq_nil_iff.mp hunknown) name hname
    simp only [Bool.not_eq_true', Bool.not_eq_false, List.contains_iff_mem, List.mem_map] at hknown
    obtain ⟨provider, hprovider, hprovidername⟩ := hknown
    exact List.find?_isSome.mpr ⟨provider, hprovider, by simpa using hprovidername⟩

/-- The route that answers takes the spelling it is chosen for. -/
theorem choice_spec {clientModel spelling : String}
    (h : cfg.choice clientModel = some (route, spelling)) :
    ∃ allowWildcards, cfg.routeFor spelling allowWildcards = some route := by
  have hpick {allowWildcards : Bool} {name : String}
      (hpicked : (cfg.routeFor name allowWildcards).map (·, name) = some (route, spelling)) :
      ∃ allowWildcards, cfg.routeFor spelling allowWildcards = some route := by
    obtain ⟨found, hfound, heq⟩ := Option.map_eq_some_iff.mp hpicked
    cases heq
    exact ⟨allowWildcards, hfound⟩
  by_cases hprefixed : ∃ name bare, cfg.Prefixed clientModel name bare
  · obtain ⟨name, bare, hprefixed⟩ := hprefixed
    rw [choice_configured hprefixed] at h
    rcases Option.or_eq_some_iff.mp h with h | ⟨-, h⟩
    · exact hpick h
    rcases Option.or_eq_some_iff.mp h with h | ⟨-, h⟩
    · exact hpick h
    rcases Option.or_eq_some_iff.mp h with h | ⟨-, h⟩
    · exact hpick h
    · exact hpick h
  · rw [choice_other fun name bare hname => hprefixed ⟨name, bare, hname⟩] at h
    rcases Option.or_eq_some_iff.mp h with h | ⟨-, h⟩
    · exact hpick h
    rcases Option.or_eq_some_iff.mp h with h | ⟨-, h⟩
    · exact hpick h
    · obtain ⟨parts, -, hparts⟩ := Option.bind_eq_some_iff.mp h
      exact hpick hparts

/-- Whatever is answered in a valid configuration names providers that are configured. -/
theorem answer_configured (hvalid : cfg.validateRoutes = []) {clientModel : String}
    {answer : ResolvedRoute} (h : cfg.resolveProvider clientModel = some answer) :
    answer.providerNames ≠ [] ∧
      ∀ name ∈ answer.providerNames, (cfg.findProvider name).isSome = true := by
  have hrel := resolveProvider_answers cfg clientModel
  rw [h] at hrel
  cases hchoice : cfg.choice clientModel with
  | none =>
    rw [hchoice] at hrel
    cases hrel
  | some chosen =>
    rw [hchoice] at hrel
    cases hrel with
    | some hanswers =>
      obtain ⟨_, hroute⟩ : ∃ allowWildcards, cfg.routeFor chosen.2 allowWildcards = some chosen.1 :=
        choice_spec hchoice
      obtain ⟨-, -, -, hmem⟩ := routeFor_spec hroute
      rw [hanswers.1]
      exact valid_route hvalid hmem

theorem resolveProvider_isSome {clientModel : String} :
    (cfg.resolveProvider clientModel).isSome = (cfg.choice clientModel).isSome := by
  have hrel := resolveProvider_answers cfg clientModel
  generalize cfg.resolveProvider clientModel = answered, cfg.choice clientModel = chosen at hrel
  cases hrel <;> rfl

/-! ## The models under a provider's name -/

theorem offer_prefixed (hslash : ∀ provider ∈ cfg.providers, '/' ∉ provider.name.toList)
    {provider name : String} (hprovider : (cfg.findProvider provider).isSome = true) :
    cfg.Prefixed (offer provider name).id provider name := by
  refine ⟨?_, hprovider⟩
  obtain ⟨found, hfound⟩ := Option.isSome_iff_exists.mp hprovider
  have hname : found.name = provider := by simpa using List.find?_some hfound
  have hnot : '/' ∉ provider.toList := by
    rw [← hname]
    exact hslash found (List.mem_of_find?_eq_some hfound)
  exact Text.splitOnce_char hnot name

/-- A model under a provider's name is answered exactly when some route takes it, in full or without
the provider. -/
theorem offer_answered (hslash : ∀ provider ∈ cfg.providers, '/' ∉ provider.name.toList)
    {provider name : String} (hprovider : (cfg.findProvider provider).isSome = true) :
    (cfg.resolveProvider (offer provider name).id).isSome = true ↔
      (cfg.routeFor (offer provider name).id true).isSome = true ∨
        (cfg.routeFor name true).isSome = true := by
  have hweaker (spelling : String) (h : (cfg.routeFor spelling true).isSome = false) :
      (cfg.routeFor spelling false).isSome = false := by
    rw [Option.isSome_eq_false_iff, Option.isNone_iff_eq_none] at h ⊢
    exact routeFor_eq_none h
  rw [resolveProvider_isSome, choice_configured (offer_prefixed hslash hprovider)]
  simp only [Option.isSome_or, Option.isSome_map, Bool.or_eq_true]
  constructor
  · rintro (h | h | h | h)
    · refine Or.inl ?_
      by_contra hnone
      rw [hweaker _ (by simpa using hnone)] at h
      cases h
    · refine Or.inr ?_
      by_contra hnone
      rw [hweaker _ (by simpa using hnone)] at h
      cases h
    · exact Or.inr h
    · exact Or.inl h
  · rintro (h | h)
    · exact Or.inr (Or.inr (Or.inr h))
    · exact Or.inr (Or.inr (Or.inl h))

/-- A route without wildcards takes its pattern alone. -/
theorem routeFor_plain {name : String} (h : cfg.routeFor name false = some route) :
    cfg.Offered route ∧ route.pattern = name := by
  obtain ⟨hwild, hmatch, -, hmem⟩ := routeFor_spec h
  have hplain : route.isWildcard = false := by
    by_contra hnot
    exact absurd (hwild (by simpa using hnot)) Bool.false_ne_true
  have hstar : route.pattern.toList.contains '*' = false := by
    unfold ModelRouteConfig.isWildcard at hplain
    exact (Bool.or_eq_false_iff.mp hplain).1
  exact ⟨⟨hmem, hplain⟩, globMatch_plain hstar hmatch⟩

theorem routeFor_offered (hvalid : cfg.validateRoutes = []) (h : cfg.Offered route) :
    ∃ found, cfg.routeFor route.pattern false = some found := by
  refine isSome_routeFor h.1 (valid_route hvalid h.1).1 (globMatch_self h.2) fun hwild => ?_
  rw [h.2] at hwild
  cases hwild

/-- The first provider of a route that is offered. -/
theorem head_configured (hvalid : cfg.validateRoutes = []) (h : route ∈ cfg.modelRoutes) :
    ∃ provider, route.providerNames.head? = some provider ∧
      (cfg.findProvider provider).isSome = true ∧
      offeredId route = (offer provider route.pattern).id := by
  obtain ⟨hne, hknown⟩ := valid_route hvalid h
  obtain ⟨provider, rest, hnames⟩ := List.exists_cons_of_ne_nil hne
  refine ⟨provider, by rw [hnames]; rfl, hknown provider (by rw [hnames]; exact List.mem_cons_self), ?_⟩
  unfold offeredId
  rw [hnames]
  rfl

/-- **Which route a model of a route is answered by**: the first that names it under the provider's
name, else the first that names it without. -/
theorem choice_offered (hvalid : cfg.validateRoutes = [])
    (hslash : ∀ provider ∈ cfg.providers, '/' ∉ provider.name.toList) (h : cfg.Offered route) :
    cfg.choice (offeredId route) =
      ((cfg.routeFor (offeredId route) false).map (·, offeredId route)).or
        ((cfg.routeFor route.pattern false).map (·, route.pattern)) := by
  obtain ⟨provider, -, hprovider, hid⟩ := head_configured hvalid h.1
  obtain ⟨found, hfound⟩ := routeFor_offered hvalid h
  rw [hid, choice_configured (offer_prefixed hslash hprovider), hfound]
  rfl

/-- **When every model goes where it is offered from.** -/
theorem home_iff (hvalid : cfg.validateRoutes = [])
    (hslash : ∀ provider ∈ cfg.providers, '/' ∉ provider.name.toList) :
    (∀ route, cfg.Offered route → cfg.choice (offeredId route) = some (route, route.pattern)) ↔
      ∀ route, cfg.Offered route → cfg.Unshared route := by
  constructor
  · intro hhome route hroute
    have hfirst {r : ModelRouteConfig} (hr : cfg.Offered r) :
        cfg.routeFor (offeredId r) false = none ∧ cfg.routeFor r.pattern false = some r := by
      have hchoice := hhome r hr
      rw [choice_offered hvalid hslash hr] at hchoice
      rcases Option.or_eq_some_iff.mp hchoice with hfull | ⟨hnone, hbare⟩
      · -- a route that takes the id in full takes another spelling
        obtain ⟨found, -, heq⟩ := Option.map_eq_some_iff.mp hfull
        have hspelling : offeredId r = r.pattern := congrArg Prod.snd heq
        obtain ⟨provider, -, hprovider, hid⟩ := head_configured hvalid hr.1
        exact absurd (hspelling.symm.trans hid) (ne_of_splitOnce (offer_prefixed hslash hprovider).1)
      · obtain ⟨found, hfound, heq⟩ := Option.map_eq_some_iff.mp hbare
        cases heq
        exact ⟨by simpa using hnone, hfound⟩
    intro other hother
    refine ⟨fun hpattern => ?_, fun hpattern => ?_⟩
    · obtain ⟨found, hfound⟩ := routeFor_offered hvalid hother
      rw [hpattern, (hfirst hroute).1] at hfound
      cases hfound
    · have hsame := (hfirst hother).2
      rw [hpattern, (hfirst hroute).2] at hsame
      exact (Option.some.inj hsame).symm
  · intro hunshared route hroute
    rw [choice_offered hvalid hslash hroute]
    have hnone : cfg.routeFor (offeredId route) false = none := by
      cases hfound : cfg.routeFor (offeredId route) false with
      | none => rfl
      | some other =>
        obtain ⟨hother, hpattern⟩ := routeFor_plain hfound
        exact absurd hpattern (hunshared route hroute other hother).1
    obtain ⟨found, hfound⟩ := routeFor_offered hvalid hroute
    obtain ⟨hother, hpattern⟩ := routeFor_plain hfound
    rw [(hunshared route hroute found hother).2 hpattern] at hfound
    rw [hnone, hfound]
    rfl

/-! ## The lists -/

theorem offer_inj (hslash : ∀ provider ∈ cfg.providers, '/' ∉ provider.name.toList)
    {provider provider' name name' : String} (hprovider : (cfg.findProvider provider).isSome = true)
    (hprovider' : (cfg.findProvider provider').isSome = true)
    (h : (offer provider name).id = (offer provider' name').id) :
    offer provider name = offer provider' name' := by
  have hsplit : Text.splitOnce "/" (offer provider name).id = some (provider, name) :=
    (offer_prefixed hslash hprovider).1
  rw [h, (offer_prefixed hslash hprovider').1] at hsplit
  cases hsplit
  rfl

/-- Everything that is put up for the catalog is a model of a configured provider. -/
theorem mem_offers (hvalid : cfg.validateRoutes = []) {model : CatalogModel}
    (h : model ∈ cfg.providers.flatMap mapOffers ++ cfg.modelRoutes.filterMap routeOffer) :
    ∃ provider name, (cfg.findProvider provider).isSome = true ∧ isPattern name = false ∧
      model = offer provider name := by
  rcases List.mem_append.mp h with h | h
  · obtain ⟨provider, hprovider, hmodel⟩ := List.mem_flatMap.mp h
    obtain ⟨name, hname, rfl⟩ := List.mem_map.mp hmodel
    refine ⟨provider.name, name, List.find?_isSome.mpr ⟨provider, hprovider, by simp⟩, ?_, rfl⟩
    simpa using (List.mem_filter.mp hname).2
  · obtain ⟨route, hroute, hoffer⟩ := List.mem_filterMap.mp h
    unfold routeOffer at hoffer
    split at hoffer
    · cases hoffer
    · rename_i hplain
      obtain ⟨name, hname, rfl⟩ := Option.map_eq_some_iff.mp hoffer
      refine ⟨name, route.pattern, (valid_route hvalid hroute).2 name ?_, by simpa using hplain, rfl⟩
      unfold ModelRouteConfig.providerNames
      rcases Option.or_eq_some_iff.mp hname with hname | ⟨-, hname⟩
      · exact List.mem_append_left _ (by simp [hname])
      · exact List.mem_append_right _ (List.mem_of_mem_head? hname)

theorem routeOffer_offered (hvalid : cfg.validateRoutes = []) (h : cfg.Offered route) :
    ∃ provider, (cfg.findProvider provider).isSome = true ∧
      routeOffer route = some (offer provider route.pattern) ∧
      (offer provider route.pattern).id = offeredId route := by
  obtain ⟨provider, hhead, hprovider, hid⟩ := head_configured hvalid h.1
  refine ⟨provider, hprovider, ?_, hid.symm⟩
  have hplain : isPattern route.pattern = false := h.2
  have hfirst : route.provider.or route.providers.head? = some provider := by
    rw [← hhead]
    unfold ModelRouteConfig.providerNames
    cases route.provider <;> rfl
  unfold routeOffer
  rw [hplain, hfirst]
  rfl

/-- A route that names the model answers, whether the provider's name is before it or not. -/
theorem answered_by_name (hvalid : cfg.validateRoutes = [])
    (hslash : ∀ provider ∈ cfg.providers, '/' ∉ provider.name.toList) (h : cfg.Offered route) :
    ∀ id ∈ [offeredId route, route.pattern], ∃ chosen spelling answer,
      cfg.choice id = some (chosen, spelling) ∧ cfg.Offered chosen ∧ chosen.pattern = spelling ∧
      spelling ∈ [offeredId route, route.pattern] ∧ cfg.resolveProvider id = some answer ∧
      answer.providerNames = chosen.providerNames := by
  have hanswer {id spelling : String} {chosen : ModelRouteConfig}
      (hchoice : cfg.choice id = some (chosen, spelling))
      (hchosen : cfg.routeFor spelling false = some chosen)
      (hspelling : spelling ∈ [offeredId route, route.pattern]) :
      ∃ chosen spelling answer, cfg.choice id = some (chosen, spelling) ∧ cfg.Offered chosen ∧
        chosen.pattern = spelling ∧ spelling ∈ [offeredId route, route.pattern] ∧
        cfg.resolveProvider id = some answer ∧ answer.providerNames = chosen.providerNames := by
    obtain ⟨answer, hresolved, hnames, -, -⟩ := resolveProvider_of_choice hchoice
    obtain ⟨hoffered, hpattern⟩ := routeFor_plain hchosen
    exact ⟨chosen, spelling, answer, hchoice, hoffered, hpattern, hspelling, hresolved, hnames⟩
  obtain ⟨found, hfound⟩ := routeFor_offered hvalid h
  intro id hid
  rcases List.mem_cons.mp hid with rfl | hid
  · have hchoice := choice_offered hvalid hslash h
    cases hfull : cfg.routeFor (offeredId route) false with
    | some other =>
      rw [hfull] at hchoice
      exact hanswer hchoice hfull List.mem_cons_self
    | none =>
      rw [hfull, hfound] at hchoice
      exact hanswer hchoice hfound (by simp)
  · obtain rfl := List.mem_singleton.mp hid
    refine hanswer ?_ hfound (by simp)
    unfold choice
    rw [hfound]

/-- The catalog has every model of the routes, and only models of configured providers, each once. -/
theorem catalogFromConfig_spec (hvalid : cfg.validateRoutes = [])
    (hslash : ∀ provider ∈ cfg.providers, '/' ∉ provider.name.toList) :
    (cfg.catalogFromConfig.map CatalogModel.id).Nodup ∧
      (∀ model ∈ cfg.catalogFromConfig, ∃ provider name,
        (cfg.findProvider provider).isSome = true ∧ isPattern name = false ∧
          model = offer provider name) ∧
      ∀ route, cfg.Offered route → ∃ model ∈ cfg.catalogFromConfig,
        model.id = offeredId route ∧ model.name = route.pattern := by
  obtain ⟨hnodup, honly, -, hall⟩ := foldl_pushNew CatalogModel.id []
    (cfg.providers.flatMap mapOffers ++ cfg.modelRoutes.filterMap routeOffer) List.nodup_nil
  have hmodels (model : CatalogModel) (hmodel : model ∈ cfg.catalogFromConfig) :=
    mem_offers hvalid ((honly model hmodel).resolve_left List.not_mem_nil)
  refine ⟨hnodup, hmodels, fun route hroute => ?_⟩
  obtain ⟨provider, hprovider, hoffer, hid⟩ := routeOffer_offered hvalid hroute
  obtain ⟨model, hmodel, hsame⟩ := hall _
    (List.mem_append_right _ (List.mem_filterMap.mpr ⟨route, hroute.1, hoffer⟩))
  obtain ⟨provider', name, hprovider', -, rfl⟩ := hmodels model hmodel
  refine ⟨_, hmodel, hsame.trans hid, ?_⟩
  rw [offer_inj hslash hprovider' hprovider hsame]
  rfl

theorem availableModels_spec (cfg : ServerConfig) :
    cfg.availableModels.Nodup ∧
      ∀ route, cfg.Offered route → route.pattern ∈ cfg.availableModels := by
  obtain ⟨hnodup, -, -, hall⟩ := foldl_pushNew (id : String → String) []
    (((cfg.modelRoutes.map ModelRouteConfig.pattern).filter fun pattern =>
        pattern ≠ "*" && !pattern.toList.contains '*') ++
      (cfg.providers.flatMap fun provider => provider.modelMap.map Prod.fst).filter fun key =>
        key ≠ "*") List.nodup_nil
  rw [List.map_id] at hnodup
  refine ⟨hnodup, fun route hroute => ?_⟩
  have hstar : route.pattern.toList.contains '*' = false := by
    have hplain := hroute.2
    unfold ModelRouteConfig.isWildcard at hplain
    exact (Bool.or_eq_false_iff.mp hplain).1
  have hne : route.pattern ≠ "*" := by
    intro heq
    rw [heq] at hstar
    exact absurd hstar (by decide)
  have hkept : (decide (route.pattern ≠ "*") && !route.pattern.toList.contains '*') = true := by
    rw [hstar, decide_eq_true hne]
    rfl
  obtain ⟨y, hy, rfl⟩ := hall route.pattern (List.mem_append_left _
    (List.mem_filter.mpr ⟨List.mem_map_of_mem hroute.1, hkept⟩))
  exact hy

end

/-- **What agents and clients are offered.**  In a valid configuration, whose providers' names hold no
slash: no model is listed twice; every model on offer is a configured provider's, and is answered
exactly when some route takes it; the models of the routes are all on offer, and a route that names
the model answers; whatever is answered names configured providers only; and every model of a route
goes to the route it is offered from exactly when no two routes name it. -/
theorem catalog_routed (cfg : ServerConfig) (hvalid : cfg.validateRoutes = [])
    (hslash : ∀ provider ∈ cfg.providers, '/' ∉ provider.name.toList) :
    ((cfg.catalogFromConfig.map CatalogModel.id).Nodup ∧ cfg.availableModels.Nodup) ∧
    (∀ model ∈ cfg.catalogFromConfig, ∃ provider, (cfg.findProvider provider).isSome = true ∧
      isPattern model.name = false ∧ model = offer provider model.name ∧
      ((cfg.resolveProvider model.id).isSome = true ↔
        (cfg.routeFor model.id true).isSome = true ∨ (cfg.routeFor model.name true).isSome = true)) ∧
    (∀ route, cfg.Offered route → route.pattern ∈ cfg.availableModels ∧
      (∃ model ∈ cfg.catalogFromConfig, model.id = offeredId route ∧ model.name = route.pattern) ∧
      ∀ id ∈ [offeredId route, route.pattern], ∃ chosen spelling answer,
        cfg.choice id = some (chosen, spelling) ∧ cfg.Offered chosen ∧ chosen.pattern = spelling ∧
        spelling ∈ [offeredId route, route.pattern] ∧ cfg.resolveProvider id = some answer ∧
        answer.providerNames = chosen.providerNames) ∧
    (∀ model answer, cfg.resolveProvider model = some answer → answer.providerNames ≠ [] ∧
      ∀ name ∈ answer.providerNames, (cfg.findProvider name).isSome = true) ∧
    ((∀ route, cfg.Offered route → cfg.choice (offeredId route) = some (route, route.pattern)) ↔
      ∀ route, cfg.Offered route → cfg.Unshared route) := by
  obtain ⟨hnodup, hmodels, hoffers⟩ := catalogFromConfig_spec hvalid hslash
  obtain ⟨hnodup', hlisted⟩ := availableModels_spec cfg
  refine ⟨⟨hnodup, hnodup'⟩, fun model hmodel => ?_, fun route hroute => ?_,
    fun model answer => answer_configured hvalid, home_iff hvalid hslash⟩
  · obtain ⟨provider, name, hprovider, hplain, rfl⟩ := hmodels model hmodel
    exact ⟨provider, hprovider, hplain, rfl, offer_answered hslash hprovider⟩
  · exact ⟨hlisted route hroute, hoffers route hroute, answered_by_name hvalid hslash hroute⟩

/-- Two providers serve the same model. -/
def twoProviders : ServerConfig :=
  ⟨[⟨"openai", []⟩, ⟨"azure", []⟩],
    [⟨"gpt-5", some "openai", [], none, .priority⟩, ⟨"gpt-5", some "azure", [], none, .priority⟩]⟩

/-- Each has its offer, and both go to the first. -/
theorem catalog_routed_twoProviders :
    (∀ model answer, twoProviders.resolveProvider model = some answer → answer.providerNames ≠ []) ∧
    ¬∀ route, twoProviders.Offered route →
      twoProviders.choice (offeredId route) = some (route, route.pattern) := by
  obtain ⟨-, -, -, hanswers, hhome⟩ := catalog_routed twoProviders (by decide) (by decide)
  refine ⟨fun model answer h => (hanswers model answer h).1, fun h => ?_⟩
  have hunshared := hhome.mp h ⟨"gpt-5", some "openai", [], none, .priority⟩ ⟨by decide, by decide⟩
  have hsame := (hunshared ⟨"gpt-5", some "azure", [], none, .priority⟩ ⟨by decide, by decide⟩).2 rfl
  exact absurd hsame (by decide)

end ServerConfig

end AnyConverter.Config
