import Mathlib.Algebra.Ring.Nat
import AnyConverter.Server.SignIn.Tasks

/-!
# Plugin flows that wait in their callback

The host of a plugin keeps a table of the flows that were started, and gives their callers session
ids of its own.  A callback takes its flow out of the table and asks the plugin.  The background flow
of an automatic sign-in asks again until the plugin accepts, and starts a new flow once a minute.

* `asked_of_turn`: what a turn ends with is a step of the task;
* `AskedOnce.turn`, `asked_le_authorized`: a flow is asked once, so a second ask takes a second flow;
* `settles_iff`: when asking a flow again would have been enough.
-/

set_option autoImplicit false

namespace AnyConverter.PluginFlow

open SignInTasks (Report)

/-! ## The plugin -/

inductive PluginError where
  | rpc (message : String)
  | protocol (message : String)
  | noSuchMethod
  | storage (message : String)
  deriving DecidableEq, Repr

def PluginError.text : PluginError → String
  | rpc message => "rpc error: " ++ message
  | protocol message => "protocol error: " ++ message
  | noSuchMethod => "no such method"
  | storage message => "storage error: " ++ message

structure AuthorizeParams where
  provider : String
  method : Nat
  account : String
  proxy : Option String
  deriving DecidableEq, Repr

structure Authorization where
  session : String
  url : Option String
  instructions : Option String
  method : String
  deriving DecidableEq, Repr

structure CallbackParams where
  session : String
  code : String
  deriving DecidableEq, Repr

structure AuthResult where
  ok : Bool
  error : Option String
  provider : String
  account : String
  deriving DecidableEq, Repr

/-- What comes of a request: how long it took, in milliseconds, and what it left the plugin in. -/
structure Reply (σ α : Type) where
  elapsed : Nat
  plugin : σ
  answer : Except PluginError α

/-- A plugin process, with whatever it remembers. -/
structure Plugin (σ : Type) where
  authorize : σ → AuthorizeParams → Reply σ Authorization
  callback : σ → CallbackParams → Reply σ AuthResult

/-! ## The host -/

/-- A request that reached the plugin. -/
inductive Rpc where
  | authorize
  | callback (session : String)
  deriving DecidableEq, Repr

structure SessionCtx where
  pluginSession : String
  provider : String
  account : String
  deriving DecidableEq, Repr

structure HostedPlugin (σ : Type) where
  plugin : σ
  /-- the flows that were started, by the session ids of the host -/
  sessions : String → Option SessionCtx
  nextSession : Nat
  now : Nat
  rpcs : List Rpc

variable {σ : Type} (plugin : Plugin σ)

def HostedPlugin.authorize (host : HostedPlugin σ) (params : AuthorizeParams) :
    HostedPlugin σ × Except PluginError Authorization :=
  let hostSession := "s-" ++ toString (host.nextSession + 1)
  let reply := plugin.authorize host.plugin params
  let host := { host with
    plugin := reply.plugin, nextSession := host.nextSession + 1, now := host.now + reply.elapsed
    rpcs := host.rpcs ++ [.authorize] }
  match reply.answer with
  | .error e => (host, .error e)
  | .ok authorization =>
    let ctx : SessionCtx := ⟨authorization.session, params.provider, params.account⟩
    ({ host with sessions := Function.update host.sessions hostSession (some ctx) },
      .ok { authorization with session := hostSession })

def HostedPlugin.callback (host : HostedPlugin σ) (params : CallbackParams) :
    HostedPlugin σ × Except PluginError AuthResult :=
  match host.sessions params.session with
  | none => (host, .error (.protocol ("unknown session `" ++ params.session ++ "`")))
  | some ctx =>
    let reply := plugin.callback host.plugin ⟨ctx.pluginSession, params.code⟩
    let host := { host with
      plugin := reply.plugin, now := host.now + reply.elapsed
      sessions := Function.update host.sessions params.session none
      rpcs := host.rpcs ++ [.callback ctx.pluginSession] }
    match reply.answer with
    | .error e => (host, .error e)
    | .ok result =>
      if result.ok = false then (host, .error (.rpc (result.error.getD "callback failed")))
      else (host, .ok { result with
        provider := if result.provider = "" then ctx.provider else result.provider
        account := if result.account = "" then ctx.account else result.account })

/-! ## The background flow -/

/-- In milliseconds. -/
def pluginSignInRetry : Nat := 2000

def pluginSignInRestartAfter : Nat := 60000

def defaultSignInTimeout : Nat := 600000

/-- A background flow between two asks. -/
structure Waiting (σ : Type) where
  host : HostedPlugin σ
  current : Authorization
  restarted : Nat

variable (params : AuthorizeParams) (deadline : Nat)

/-- One turn of the loop: it goes on, or it ends with a report. -/
def turn (w : Waiting σ) : Waiting σ ⊕ HostedPlugin σ × Report :=
  match w.host.callback plugin ⟨w.current.session, ""⟩ with
  | (host, .ok saved) => .inr (host, ⟨.done, some (saved.provider ++ ":" ++ saved.account), none, none⟩)
  | (host, .error e) =>
    if deadline ≤ host.now then
      .inr (host, ⟨.failed, none, none,
        some ("the sign-in did not complete in time (last: " ++ e.text ++ ")")⟩)
    else
      let host := { host with now := host.now + pluginSignInRetry }
      if host.now - w.restarted < pluginSignInRestartAfter then .inl { w with host := host }
      else
        match host.authorize plugin params with
        | (next, .ok authorization) => .inl ⟨next, authorization, host.now⟩
        | (next, .error e) => .inr (next, ⟨.failed, none, none, some e.text⟩)

/-- The loop, for some turns. -/
def drive : Nat → Waiting σ → Option (HostedPlugin σ × Report)
  | 0, _ => none
  | turns + 1, w =>
    match turn plugin params deadline w with
    | .inl w => drive turns w
    | .inr settled => some settled

/-- `start_plugin` of an automatic flow, from the flow that was started. -/
def driveAuto (turns : Nat) (host : HostedPlugin σ) (authorization : Authorization) :
    Option (HostedPlugin σ × Report) :=
  drive plugin params (host.now + defaultSignInTimeout) turns ⟨host, authorization, host.now⟩

variable {plugin params deadline}

/-- **What a turn ends with is a step of the task.** -/
theorem asked_of_turn {w : Waiting σ} {host : HostedPlugin σ} {report : Report}
    (h : turn plugin params deadline w = .inr (host, report)) :
    ∃ answer, ∀ s : SignInTasks.State, s.background = .waiting →
      SignInTasks.step .pluginAuto s (.asked false answer) =
        some { s with background := .reporting report } := by
  have hfailed : ∀ why, ∃ answer, ∀ s : SignInTasks.State, s.background = .waiting →
      SignInTasks.step .pluginAuto s (.asked false answer) =
        some { s with background := .reporting ⟨.failed, none, none, some why⟩ } := by
    intro why
    refine ⟨.failed why, fun s hs => ?_⟩
    simp [SignInTasks.step, hs]
  unfold turn at h
  split at h
  · rename_i saved _
    cases h
    refine ⟨.ok (saved.provider ++ ":" ++ saved.account), fun s hs => ?_⟩
    simp [SignInTasks.step, hs]
  · split at h
    · cases h
      exact hfailed _
    · dsimp only at h
      split at h
      · cases h
      · split at h
        · cases h
        · cases h
          exact hfailed _

/-! ## A flow is asked once -/

def authorizes (rpcs : List Rpc) : Nat := rpcs.countP fun rpc => rpc = .authorize

def callbacks (rpcs : List Rpc) : Nat := rpcs.countP fun rpc => rpc ≠ .authorize

/-- How often the flow can still be asked. -/
def Waiting.asksLeft (w : Waiting σ) : Nat := if (w.host.sessions w.current.session).isSome then 1 else 0

/-- Every ask took a flow out of the table, and only a start puts one in; `before` is what had reached
the plugin already. -/
def AskedOnce (before : List Rpc) (w : Waiting σ) : Prop :=
  callbacks w.host.rpcs + w.asksLeft + authorizes before ≤ authorizes w.host.rpcs + callbacks before

@[simp] theorem authorizes_append (rpcs more : List Rpc) :
    authorizes (rpcs ++ more) = authorizes rpcs + authorizes more :=
  List.countP_append ..

@[simp] theorem callbacks_append (rpcs more : List Rpc) :
    callbacks (rpcs ++ more) = callbacks rpcs + callbacks more :=
  List.countP_append ..

/-- **A callback asks the plugin at most once**, and leaves the flow out of the table. -/
theorem callback_spec (plugin : Plugin σ) (host : HostedPlugin σ) (session code : String) :
    (host.callback plugin ⟨session, code⟩).1.sessions session = none ∧
      authorizes (host.callback plugin ⟨session, code⟩).1.rpcs = authorizes host.rpcs ∧
      callbacks (host.callback plugin ⟨session, code⟩).1.rpcs =
        callbacks host.rpcs + if (host.sessions session).isSome then 1 else 0 := by
  unfold HostedPlugin.callback
  cases hctx : host.sessions session with
  | none => exact ⟨hctx, rfl, rfl⟩
  | some ctx =>
    dsimp only
    split
    · simp [authorizes, callbacks]
    · split <;> simp [authorizes, callbacks]

/-- A flow that is started makes room for one ask. -/
theorem authorize_spec (plugin : Plugin σ) (params : AuthorizeParams) (host : HostedPlugin σ) :
    authorizes (host.authorize plugin params).1.rpcs = authorizes host.rpcs + 1 ∧
      callbacks (host.authorize plugin params).1.rpcs = callbacks host.rpcs := by
  unfold HostedPlugin.authorize
  dsimp only
  split <;> simp [authorizes, callbacks]

/-- **What a turn keeps**, and what holds where the loop ends. -/
theorem AskedOnce.turn {before : List Rpc} {w : Waiting σ} (h : AskedOnce before w)
    (plugin : Plugin σ) (params : AuthorizeParams) (deadline : Nat) :
    match PluginFlow.turn plugin params deadline w with
    | .inl w' => AskedOnce before w'
    | .inr (host, _) =>
      callbacks host.rpcs + authorizes before ≤ authorizes host.rpcs + callbacks before := by
  obtain ⟨hnone, hauth, hcallbacks⟩ := callback_spec plugin w.host w.current.session ""
  unfold AskedOnce Waiting.asksLeft at h
  rw [← hauth, ← hcallbacks] at h
  unfold PluginFlow.turn
  cases hcall : w.host.callback plugin ⟨w.current.session, ""⟩ with
  | mk host answer =>
    rw [hcall] at hnone h
    cases answer with
    | ok saved => exact h
    | error e =>
      dsimp only
      split_ifs with hdeadline hgrace
      · dsimp only at h ⊢
        omega
      · unfold AskedOnce Waiting.asksLeft
        dsimp only at hnone h ⊢
        rw [hnone]
        exact h
      · -- a new flow
        obtain ⟨hauth', hcallbacks'⟩ := authorize_spec plugin params
          { host with now := host.now + pluginSignInRetry }
        cases hstart : HostedPlugin.authorize plugin
            { host with now := host.now + pluginSignInRetry } params with
        | mk next answer =>
          rw [hstart] at hauth' hcallbacks'
          cases answer with
          | error e =>
            dsimp only at hauth' hcallbacks' h ⊢
            omega
          | ok authorization =>
            unfold AskedOnce Waiting.asksLeft
            dsimp only at hauth' hcallbacks' h ⊢
            split_ifs <;> omega

/-- **No flow is asked twice**: behind the loop there are no more asks than flows. -/
theorem asked_le_authorized {before : List Rpc} (turns : Nat) {w : Waiting σ} (h : AskedOnce before w)
    {host : HostedPlugin σ} {report : Report}
    (hdrive : drive plugin params deadline turns w = some (host, report)) :
    callbacks host.rpcs + authorizes before ≤ authorizes host.rpcs + callbacks before := by
  induction turns generalizing w with
  | zero => cases hdrive
  | succ turns ih =>
    have hturn := h.turn plugin params deadline
    unfold drive at hdrive
    split at hdrive
    · rename_i w' heq
      rw [heq] at hturn
      exact ih hturn hdrive
    · rename_i settled heq
      rw [heq] at hturn
      cases hdrive
      exact hturn

/-! ## Asking again -/

/-- The answer to the ask behind `n` others, all of one flow of the plugin. -/
def asked (plugin : Plugin σ) (session : String) : σ → Nat → Reply σ AuthResult
  | s, 0 => plugin.callback s ⟨session, ""⟩
  | s, n + 1 => asked plugin session (plugin.callback s ⟨session, ""⟩).plugin n

/-- How long the first `n` asks take, with the pause behind each. -/
def waited (plugin : Plugin σ) (session : String) (s : σ) (n : Nat) : Nat :=
  ((List.range n).map fun j => (asked plugin session s j).elapsed + pluginSignInRetry).sum

/-- The plugin would refuse the first `k` asks of a flow and accept the next, within the minute. -/
structure WouldAccept (plugin : Plugin σ) (session : String) (s : σ) (k : Nat) (result : AuthResult) :
    Prop where
  refuses : ∀ j < k, ∀ refused, (asked plugin session s j).answer = .ok refused → refused.ok = false
  answers : (asked plugin session s k).answer = .ok result
  accepts : result.ok = true
  inTime : waited plugin session s k < pluginSignInRestartAfter

/-- The task asks the flow that was started until it is accepted, and starts no other. -/
def SettlesByAsking (plugin : Plugin σ) (params : AuthorizeParams) (before host : HostedPlugin σ)
    (authorization : Authorization) (session : String) (k : Nat) : Prop :=
  ∃ turns settled report, driveAuto plugin params turns host authorization = some (settled, report) ∧
    report.state = .done ∧
    settled.rpcs = before.rpcs ++ .authorize :: List.replicate (k + 1) (.callback session)

/-- A flow that was started is in the table. -/
theorem authorize_ok {before host : HostedPlugin σ} {given authorization : Authorization}
    (hgiven : (plugin.authorize before.plugin params).answer = .ok given)
    (hstart : before.authorize plugin params = (host, .ok authorization)) :
    host.sessions authorization.session = some ⟨given.session, params.provider, params.account⟩ ∧
      host.rpcs = before.rpcs ++ [.authorize] := by
  simp only [HostedPlugin.authorize, hgiven, Prod.mk.injEq, Except.ok.injEq] at hstart
  obtain ⟨rfl, rfl⟩ := hstart
  exact ⟨Function.update_self .., rfl⟩

/-- An accepted ask ends the loop. -/
theorem turn_accepted (params : AuthorizeParams) (deadline : Nat) {w : Waiting σ} {ctx : SessionCtx}
    {result : AuthResult} (hctx : w.host.sessions w.current.session = some ctx)
    (hanswer : (plugin.callback w.host.plugin ⟨ctx.pluginSession, ""⟩).answer = .ok result)
    (hok : result.ok = true) :
    ∃ settled report, turn plugin params deadline w = .inr (settled, report) ∧ report.state = .done ∧
      settled.rpcs = w.host.rpcs ++ [.callback ctx.pluginSession] := by
  unfold turn
  have hnot : ¬result.ok = false := by simp [hok]
  simp only [HostedPlugin.callback, hctx, hanswer, if_neg hnot]
  exact ⟨_, _, rfl, rfl, rfl⟩

/-- **When asking again is enough**: exactly when nothing has to be asked again, for the second ask of a
flow finds it out of the table. -/
theorem settles_iff {before host : HostedPlugin σ} {given authorization : Authorization}
    (hgiven : (plugin.authorize before.plugin params).answer = .ok given)
    (hstart : before.authorize plugin params = (host, .ok authorization))
    {k : Nat} {result : AuthResult} (hwould : WouldAccept plugin given.session host.plugin k result) :
    SettlesByAsking plugin params before host authorization given.session k ↔ k = 0 := by
  obtain ⟨hctx, hrpcs⟩ := authorize_ok hgiven hstart
  constructor
  · rintro ⟨turns, settled, report, hdrive, -, hsettled⟩
    have hasked : AskedOnce before.rpcs ⟨host, authorization, host.now⟩ := by
      unfold AskedOnce Waiting.asksLeft
      rw [hctx, hrpcs, authorizes_append, callbacks_append]
      simp [authorizes, callbacks]
      omega
    have hbound := asked_le_authorized turns hasked hdrive
    have hone : authorizes (.authorize :: List.replicate (k + 1) (.callback given.session)) = 1 := by
      simp [authorizes, List.countP_replicate]
    have hasks : callbacks (.authorize :: List.replicate (k + 1) (.callback given.session)) = k + 1 := by
      simp [callbacks, List.countP_replicate]
    rw [hsettled, authorizes_append, callbacks_append, hone, hasks] at hbound
    omega
  · rintro rfl
    have hcurrent : (Waiting.mk host authorization host.now).host.sessions
        (Waiting.mk host authorization host.now).current.session = _ := hctx
    obtain ⟨settled, report, hturn, hdone, hsettled⟩ := turn_accepted params
      (host.now + defaultSignInTimeout) hcurrent hwould.answers hwould.accepts
    refine ⟨1, settled, report, ?_, hdone, ?_⟩
    · simp only [driveAuto, drive, hturn]
    · rw [hsettled, hrpcs]
      simp

/-! ## A plugin that refuses once -/

/-- Waits a second in its callback, and accepts the second ask. -/
def secondAsk : Plugin Nat where
  authorize asks _ := ⟨0, asks, .ok ⟨"flow", none, none, "auto"⟩⟩
  callback asks _ := ⟨1000, asks + 1, .ok ⟨decide (0 < asks), none, "github", "octocat"⟩⟩

def githubParams : AuthorizeParams := ⟨"github", 0, "new", none⟩

/-- A host that has just been started. -/
def freshHost : HostedPlugin Nat := ⟨0, fun _ => none, 0, 0, []⟩

theorem would_accept_second : WouldAccept secondAsk "flow" 0 1 ⟨true, none, "github", "octocat"⟩ where
  refuses := by
    intro j hj refused hanswer
    obtain rfl : j = 0 := by omega
    cases hanswer
    rfl
  answers := rfl
  accepts := rfl
  inTime := by decide

/-- **The second ask never reaches the plugin**, which would have accepted it three seconds later. -/
theorem second_ask_lost : ¬∀ (plugin : Plugin Nat) (params : AuthorizeParams)
    (before host : HostedPlugin Nat) (given authorization : Authorization) (k : Nat)
    (result : AuthResult), (plugin.authorize before.plugin params).answer = .ok given →
      before.authorize plugin params = (host, .ok authorization) →
      WouldAccept plugin given.session host.plugin k result →
      SettlesByAsking plugin params before host authorization given.session k := by
  intro h
  obtain ⟨turns, settled, report, hdrive, -, hsettled⟩ := h secondAsk githubParams freshHost _ _ _ 1 _
    rfl rfl would_accept_second
  have hasked : AskedOnce [] ⟨(freshHost.authorize secondAsk githubParams).1,
      ⟨"s-1", none, none, "auto"⟩, 0⟩ := by
    unfold AskedOnce
    decide
  have hbound := asked_le_authorized turns hasked hdrive
  rw [hsettled] at hbound
  exact absurd hbound (by decide)

/-- With the plugin that refuses once. -/
theorem second_ask_settles_iff : SettlesByAsking secondAsk githubParams freshHost
    (freshHost.authorize secondAsk githubParams).1 ⟨"s-1", none, none, "auto"⟩ "flow" 1 ↔ 1 = 0 :=
  settles_iff (show (secondAsk.authorize freshHost.plugin githubParams).answer =
    .ok ⟨"flow", none, none, "auto"⟩ from rfl) rfl would_accept_second

end AnyConverter.PluginFlow
