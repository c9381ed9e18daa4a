import AnyConverter.Server.Accounts.Resolver

/-!
# Rotating refresh tokens

A vendor that rotates refresh tokens takes each of them once: whoever sends one a second time loses
the sign-in.  A request that fails leaves its token unspent, and the next task sends it again.

* `Inv.step`: what every step keeps;
* `resent_only_ended`: a refresh token is sent again only after the request it was sent with has
  ended without being accepted.
-/

set_option autoImplicit false

namespace AnyConverter.Accounts

open Runs

/-! ## What was sent -/

def Event.refreshToken : Event → String
  | .sent refreshToken | .accepted refreshToken | .ended refreshToken => refreshToken

/-- What became of a refresh token last. -/
def lastOf (log : List Event) (refreshToken : String) : Option Event :=
  log.reverse.find? fun e => e.refreshToken = refreshToken

/-- A refresh token that is sent was never accepted before, and its last request, if any, has ended. -/
def ResentOnlyEnded (log : List Event) : Prop :=
  ∀ before refreshToken after, log = before ++ .sent refreshToken :: after →
    .accepted refreshToken ∉ before ∧
      (lastOf before refreshToken = none ∨
        lastOf before refreshToken = some (.ended refreshToken))

def Credential.refreshToken : Credential → Option String
  | .oauth stored _ => stored.refreshToken
  | .apiKey _ => none

/-- The vendor rotates: a refresh token it gives was never sent before.  What it accepts is stored. -/
def Rotating (s : State) : Act → Prop
  | .reply t (.tokens tokens) writes => ∀ refresh, s.pc t = .requesting refresh →
    (∃ new, tokens.refreshToken = some new ∧ ∀ e ∈ s.log, e.refreshToken ≠ new) ∧
      writes = true ∧ (refresh.siwc ≠ none → ∃ parsed, parseTokens tokens = .ok parsed)
  | .storeSignIn _ credential _ => ∀ new, credential.refreshToken = some new →
    ∀ e ∈ s.log, e.refreshToken ≠ new
  | _ => True

/-- Any account, and nobody at it. -/
def start (now : Int) (store : Option Credential) (siwcMeta : Option SiwcMeta)
    (revoked : Option String) (cache : Nat → Option (String × Option Int)) : State :=
  ⟨now, store, siwcMeta, revoked, cache, fun _ => none, none, fun _ => .idle, 0, []⟩

theorem lastOf_append (log : List Event) (e : Event) (refreshToken : String) :
    lastOf (log ++ [e]) refreshToken =
      if e.refreshToken = refreshToken then some e else lastOf log refreshToken := by
  unfold lastOf
  rw [List.reverse_append, List.reverse_singleton, List.singleton_append, List.find?_cons]
  by_cases h : e.refreshToken = refreshToken
  · simp [h]
  · simp [h]

theorem lastOf_eq_some {log : List Event} {refreshToken : String} {e : Event}
    (h : lastOf log refreshToken = some e) : e ∈ log ∧ e.refreshToken = refreshToken := by
  refine ⟨List.mem_reverse.mp (List.mem_of_find?_eq_some h), ?_⟩
  simpa using List.find?_some h

theorem ResentOnlyEnded.append {log : List Event} (h : ResentOnlyEnded log) {e : Event}
    (hsent : ∀ refreshToken, e = .sent refreshToken → .accepted refreshToken ∉ log ∧
      (lastOf log refreshToken = none ∨ lastOf log refreshToken = some (.ended refreshToken))) :
    ResentOnlyEnded (log ++ [e]) := by
  intro before refreshToken after heq
  rcases List.eq_nil_or_concat after with rfl | ⟨after, last, rfl⟩
  · obtain ⟨rfl, hlast⟩ := List.append_inj' heq rfl
    cases hlast
    exact hsent refreshToken rfl
  · have hinit : log = before ++ .sent refreshToken :: after := by
      rw [List.concat_eq_append, ← List.cons_append, ← List.append_assoc] at heq
      exact (List.append_inj' heq rfl).1
    exact h before refreshToken after hinit

/-! ## The invariant -/

/-- A task that has the lock file. -/
def Pc.Holds : Pc → Prop
  | .requesting _ | .writingBack _ => True
  | _ => False

def Requests (s : State) (t : Nat) (refreshToken : String) : Prop :=
  ∃ refresh, s.pc t = .requesting refresh ∧ refresh.refreshToken = refreshToken

/-- What every step keeps. -/
structure Inv (s : State) : Prop where
  holds : ∀ t, (s.pc t).Holds → s.fileLock = some t
  underWay : ∀ v, lastOf s.log v = some (.sent v) → ∃ t, Requests s t v
  sent : ∀ t v, Requests s t v → .sent v ∈ s.log
  stored : ∀ v, s.store.bind Credential.refreshToken = some v → .accepted v ∉ s.log
  resent : ResentOnlyEnded s.log

theorem Inv.start (now : Int) (store : Option Credential) (siwcMeta : Option SiwcMeta)
    (revoked : Option String) (cache : Nat → Option (String × Option Int)) :
    Inv (start now store siwcMeta revoked cache) where
  holds t h := h.elim
  underWay v h := by cases h
  sent t v h := by
    obtain ⟨refresh, hpc, -⟩ := h
    cases hpc
  stored v _ := List.not_mem_nil
  resent before v after h := by simp [Accounts.start] at h

section
variable {accountId : String} {adopted : Bool} {proc : Nat → Nat} {s : State} {t : Nat}

/-- What is stored, cached or marked otherwise leaves the requests alone. -/
theorem Inv.frame {s' : State} (h : Inv s) (hpc : s'.pc = s.pc) (hlock : s'.fileLock = s.fileLock)
    (hlog : s'.log = s.log)
    (hstored : ∀ v, s'.store.bind Credential.refreshToken = some v → .accepted v ∉ s.log) : Inv s' where
  holds t := by rw [hpc, hlock]; exact h.holds t
  underWay v := by
    unfold Requests
    rw [hpc, hlog]
    exact h.underWay v
  sent t v := by
    unfold Requests
    rw [hpc, hlog]
    exact h.sent t v
  stored v hv := hlog ▸ hstored v hv
  resent := hlog ▸ h.resent

/-- The requests under way are those of other tasks. -/
def OthersUnderWay (s : State) (t : Nat) : Prop :=
  ∀ v, lastOf s.log v = some (.sent v) → ∃ q, q ≠ t ∧ Requests s q v

theorem Inv.others (h : Inv s) (hpc : ∀ refresh, s.pc t ≠ .requesting refresh) :
    OthersUnderWay s t := by
  intro v hv
  obtain ⟨q, refresh, hq, hrefresh⟩ := h.underWay v hv
  refine ⟨q, ?_, refresh, hq, hrefresh⟩
  rintro rfl
  exact hpc refresh hq

/-- A task goes on without a request. -/
theorem Inv.goto (h : Inv s) (hothers : OthersUnderWay s t) {pc : Pc}
    (hpc : ∀ refresh, pc ≠ .requesting refresh) (hholds : pc.Holds → s.fileLock = some t) :
    Inv (s.goto t pc) where
  holds q hq := by
    by_cases hqt : q = t
    · subst hqt
      exact hholds (by simpa [State.goto] using hq)
    · exact h.holds q (by simpa [State.goto, hqt] using hq)
  underWay v hv := by
    obtain ⟨q, hqt, refresh, hq, hrefresh⟩ := hothers v hv
    exact ⟨q, refresh, by simpa [State.goto, hqt] using hq, hrefresh⟩
  sent q v hq := by
    obtain ⟨refresh, hq, hrefresh⟩ := hq
    by_cases hqt : q = t
    · subst hqt
      exact absurd (by simpa [State.goto] using hq) (hpc refresh)
    · exact h.sent q v ⟨refresh, by simpa [State.goto, hqt] using hq, hrefresh⟩
  stored := h.stored
  resent := h.resent

/-- A task ends and releases what it holds. -/
theorem Inv.leave (h : Inv s) (hothers : OthersUnderWay s t) {pc : Pc} (hpc : ¬pc.Holds) :
    Inv (s.leave proc t pc) := by
  have hgoto : Inv (s.goto t pc) := by
    refine h.goto hothers (fun refresh heq => ?_) fun hholds => absurd hholds hpc
    subst heq
    exact hpc trivial
  refine ⟨fun q hq => ?_, hgoto.underWay, hgoto.sent, hgoto.stored, hgoto.resent⟩
  have hlock : s.fileLock = some q := hgoto.holds q hq
  have hqt : q ≠ t := by
    rintro rfl
    exact hpc (by simpa [State.leave, State.goto] using hq)
  show (if s.fileLock = some t then none else s.fileLock) = some q
  rw [hlock, if_neg (fun heq => hqt (Option.some.inj heq))]

theorem Pc.Waits.not_holds {pc : Pc} (h : pc.Waits) : ¬pc.Holds := by
  intro hholds
  cases pc <;> first | exact h | exact hholds

/-- Code that touches neither the endpoint nor the store. -/
theorem Inv.quiet (h : Inv s) (hothers : OthersUnderWay s t) {next : Next} {writes : Bool}
    (hquiet : next.Quiet s) : Inv (s.perform accountId adopted proc t writes next) := by
  cases next with
  | await pc =>
    have hpc : ¬pc.Holds := Pc.Waits.not_holds hquiet
    refine h.goto hothers (fun refresh heq => ?_) fun hholds => absurd hholds hpc
    subst heq
    exact hpc trivial
  | answer result => exact h.leave hothers id
  | reuse latest =>
    have hcached : Inv (s.cachePut (proc t) latest.accessToken latest.expiresAtUnix) :=
      h.frame rfl rfl rfl h.stored
    exact hcached.leave hothers id
  | _ => exact hquiet.elim

/-- A refresh whose result is stored. -/
theorem Inv.persist {updated : StoredOAuth} {siwc : Option SiwcMeta}
    (h : Inv { s with store := some (.oauth updated siwc) }) (hothers : OthersUnderWay s t)
    (hlock : s.fileLock = some t) :
    Inv (s.perform accountId adopted proc t true (.persist updated siwc)) := by
  have hput : Inv ({ s with store := some (.oauth updated siwc) }.cachePut (proc t)
      updated.accessToken updated.expiresAtUnix) := h.frame rfl rfl rfl h.stored
  show Inv (if adopted = true ∧ siwc = none then _ else _)
  split
  · exact hput.goto hothers (fun _ => nofun) fun _ => hlock
  · exact hput.leave hothers id

/-- A mark, or none where it could not be written. -/
theorem Inv.markRevoked (h : Inv s) (hothers : OthersUnderWay s t) (why : String) {writes : Bool} :
    Inv (s.perform accountId adopted proc t writes (.markRevoked why)) := by
  have hmarked : Inv { s with revoked := if writes then some why else s.revoked } :=
    h.frame rfl rfl rfl h.stored
  exact hmarked.leave hothers id

/-- The request of a task that is about to leave it comes to its end. -/
theorem Inv.closed (h : Inv s) {refresh : Refresh} (hpc : s.pc t = .requesting refresh) {e : Event}
    (he : e.refreshToken = refresh.refreshToken) (hnot : ∀ v, e ≠ .sent v) :
    OthersUnderWay { s with log := s.log ++ [e] } t ∧
      ((∀ v, s.store.bind Credential.refreshToken = some v → e ≠ .accepted v) →
        Inv { s with log := s.log ++ [e] }) := by
  have hothers : OthersUnderWay { s with log := s.log ++ [e] } t := by
    intro v hv
    replace hv : (if e.refreshToken = v then some e else lastOf s.log v) = some (.sent v) :=
      (lastOf_append s.log e v).symm.trans hv
    split at hv
    · exact absurd (Option.some.inj hv) (hnot v)
    · rename_i hne
      obtain ⟨q, refresh', hq, hrefresh⟩ := h.underWay v hv
      refine ⟨q, ?_, refresh', hq, hrefresh⟩
      rintro rfl
      rw [hpc] at hq
      cases hq
      exact hne (he.trans hrefresh)
  refine ⟨hothers, fun hstored => ⟨h.holds, ?_, ?_, ?_, ?_⟩⟩
  · intro v hv
    obtain ⟨q, -, hq⟩ := hothers v hv
    exact ⟨q, hq⟩
  · exact fun q v hq => List.mem_append_left _ (h.sent q v hq)
  · intro v hv hmem
    rcases List.mem_append.mp hmem with hmem | hmem
    · exact h.stored v hv hmem
    · exact hstored v hv (List.mem_singleton.mp hmem).symm
  · exact h.resent.append fun v heq => absurd heq (hnot v)

/-- A request is sent while nobody else has one under way. -/
theorem Inv.request (h : Inv s) (hnobody : ∀ q, ¬(s.pc q).Holds) (hlock : s.fileLock = some t)
    {refresh : Refresh} (hnot : .accepted refresh.refreshToken ∉ s.log) {writes : Bool} :
    Inv (s.perform accountId adopted proc t writes (.request refresh)) := by
  have hnone : ∀ q v, ¬Requests s q v := by
    rintro q v ⟨refresh', hq, -⟩
    exact hnobody q (by rw [hq]; trivial)
  have hpcs : ∀ q v, Requests (s.perform accountId adopted proc t writes (.request refresh)) q v →
      q = t ∧ v = refresh.refreshToken := by
    rintro q v ⟨refresh', hq, rfl⟩
    by_cases hqt : q = t
    · subst hqt
      replace hq : Function.update s.pc q (.requesting refresh) q = .requesting refresh' := hq
      rw [Function.update_self] at hq
      cases hq
      exact ⟨rfl, rfl⟩
    · replace hq : Function.update s.pc t (.requesting refresh) q = .requesting refresh' := hq
      rw [Function.update_of_ne hqt] at hq
      exact absurd ⟨refresh', hq, rfl⟩ (hnone q refresh'.refreshToken)
  refine ⟨fun q hq => ?_, fun v hv => ?_, fun q v hq => ?_, fun v hv hmem => ?_, ?_⟩
  · by_cases hqt : q = t
    · subst hqt
      exact hlock
    · replace hq : (Function.update s.pc t (.requesting refresh) q).Holds := hq
      rw [Function.update_of_ne hqt] at hq
      exact absurd hq (hnobody q)
  · replace hv := (lastOf_append s.log (.sent refresh.refreshToken) v).symm.trans hv
    split at hv
    · rename_i heq
      exact ⟨t, refresh, Function.update_self .., heq⟩
    · obtain ⟨q, hq⟩ := h.underWay v hv
      exact absurd hq (hnone q v)
  · obtain ⟨-, rfl⟩ := hpcs q v hq
    exact List.mem_append_right _ List.mem_cons_self
  · rcases List.mem_append.mp hmem with hmem | hmem
    · exact h.stored v hv hmem
    · cases List.mem_singleton.mp hmem
  · refine h.resent.append fun v heq => ?_
    cases heq
    refine ⟨hnot, ?_⟩
    cases hlast : lastOf s.log refresh.refreshToken with
    | none => exact Or.inl rfl
    | some e =>
      obtain ⟨hmem, heq⟩ := lastOf_eq_some hlast
      cases e with
      | sent v =>
        cases heq
        obtain ⟨q, hq⟩ := h.underWay _ hlast
        exact absurd hq (hnone q _)
      | accepted v =>
        cases heq
        exact absurd hmem hnot
      | ended v =>
        cases heq
        exact Or.inr rfl

/-- The endpoint gives tokens, and they are stored. -/
theorem Inv.accept (h : Inv s) {refresh : Refresh} (hpc : s.pc t = .requesting refresh)
    {tokens : TokenReply}
    (hnew : ∃ new, tokens.refreshToken = some new ∧ ∀ e ∈ s.log, e.refreshToken ≠ new)
    (hparses : refresh.siwc ≠ none → ∃ parsed, parseTokens tokens = .ok parsed) :
    Inv (State.perform accountId adopted proc { s with log := s.log ++ [.accepted refresh.refreshToken] }
      t true (afterReply accountId { s with log := s.log ++ [.accepted refresh.refreshToken] } refresh
        (.tokens tokens))) := by
  obtain ⟨new, hnew, hfresh⟩ := hnew
  have hlock : s.fileLock = some t := h.holds t (by rw [hpc]; trivial)
  have hne : refresh.refreshToken ≠ new := hfresh _ (h.sent t _ ⟨refresh, hpc, rfl⟩)
  rcases afterReply_tokens accountId
      { s with log := s.log ++ [.accepted refresh.refreshToken] } refresh tokens with
    ⟨updated, siwc, hnext, hupdated⟩ | ⟨hsiwc, ⟨why, herror⟩, -⟩
  · rw [hnext]
    have hstored : ∀ v, updated.refreshToken = some v → v = new := by
      intro v hv
      rw [hupdated new hnew] at hv
      exact (Option.some.inj hv).symm
    have hput : Inv { s with store := some (.oauth updated siwc) } :=
      h.frame rfl rfl rfl fun v hv hmem => hfresh _ hmem (hstored v hv)
    obtain ⟨hothers, hclosed⟩ := hput.closed hpc (e := .accepted refresh.refreshToken) rfl nofun
    refine Inv.persist (hclosed fun v hv heq => ?_) hothers hlock
    cases heq
    exact hne (hstored _ hv)
  · obtain ⟨parsed, hok⟩ := hparses hsiwc
    rw [hok] at herror
    cases herror

/-- The endpoint gives none. -/
theorem Inv.refuse (h : Inv s) {refresh : Refresh} (hpc : s.pc t = .requesting refresh)
    {reply : Reply} (hreply : ∀ tokens, reply ≠ .tokens tokens) {writes : Bool} :
    Inv (State.perform accountId adopted proc
      { s with log := s.log ++ [reply.event refresh.refreshToken] } t writes
      (afterReply accountId { s with log := s.log ++ [reply.event refresh.refreshToken] } refresh
        reply)) := by
  have hevent : reply.event refresh.refreshToken = .ended refresh.refreshToken := by
    cases reply with
    | tokens tokens => exact absurd rfl (hreply tokens)
    | _ => rfl
  rw [hevent]
  obtain ⟨hothers, hclosed⟩ := h.closed hpc (e := .ended refresh.refreshToken) rfl nofun
  have hended := hclosed fun _ _ => nofun
  rcases afterReply_refused accountId
      { s with log := s.log ++ [.ended refresh.refreshToken] } refresh hreply with
    ⟨result, hnext⟩ | ⟨why, hnext⟩
  · rw [hnext]
    exact hended.quiet hothers trivial
  · rw [hnext]
    exact hended.markRevoked hothers why

/-- **What a step keeps**, when the vendor rotates. -/
theorem Inv.step {s' : State} {a : Act} (h : Inv s) (hrotating : Rotating s a)
    (hstep : step accountId adopted proc s a = some s') : Inv s' := by
  cases a with
  | wait secs =>
    cases hstep
    exact h.frame rfl rfl rfl h.stored
  | resolve t =>
    simp only [Accounts.step] at hstep
    split at hstep
    · rename_i hpc
      cases hstep
      exact h.quiet (h.others (by simp [hpc])) (resolve_quiet _)
    · cases hstep
  | forceRefresh t =>
    simp only [Accounts.step] at hstep
    split at hstep
    · rename_i hpc
      cases hstep
      exact h.quiet (h.others (by simp [hpc])) forceRefresh_quiet
    · cases hstep
  | takeFlight t =>
    simp only [Accounts.step] at hstep
    split at hstep
    · rename_i entry seen hpc hfree
      cases hstep
      have htaken : Inv { s with flight := Function.update s.flight (proc t) (some t) } :=
        h.frame rfl rfl rfl h.stored
      exact htaken.quiet (h.others (by simp [hpc])) (underFlight_quiet _ _)
    · cases hstep
  | takeFile t writes =>
    simp only [Accounts.step] at hstep
    split at hstep
    · rename_i entry seen hpc hfree
      cases hstep
      have hnobody : ∀ q, ¬(s.pc q).Holds := by
        intro q hq
        have hlock := h.holds q hq
        rw [hfree] at hlock
        cases hlock
      have htaken : Inv { s with fileLock := some t } :=
        ⟨fun q hq => absurd hq (hnobody q), h.underWay, h.sent, h.stored, h.resent⟩
      have hothers : OthersUnderWay { s with fileLock := some t } t := h.others (by simp [hpc])
      rcases underFile_cases accountId { s with fileLock := some t } entry seen
        with hquiet | hrefreshes
      · exact htaken.quiet hothers hquiet
      · cases hnext : underFile accountId { s with fileLock := some t } entry seen with
        | request refresh =>
          rw [hnext] at hrefreshes
          obtain ⟨hstore, hrefresh, -⟩ := hrefreshes
          have hnot : .accepted refresh.refreshToken ∉ s.log := by
            refine h.stored _ ?_
            show s.store.bind _ = _
            rw [show s.store = _ from hstore]
            exact hrefresh
          exact htaken.request hnobody rfl hnot
        | persist updated siwc =>
          rw [hnext] at hrefreshes
          obtain ⟨latest, refreshToken, hstore, hrefresh, hupdated⟩ := hrefreshes
          cases writes with
          | false => exact htaken.leave hothers id
          | true =>
            refine Inv.persist (htaken.frame rfl rfl rfl fun v hv => ?_) hothers rfl
            refine htaken.stored v ?_
            rw [hstore]
            show latest.refreshToken = some v
            rw [hrefresh, ← hupdated]
            exact hv
        | _ =>
          rw [hnext] at hrefreshes
          exact hrefreshes.elim
    · cases hstep
  | lockTimeout t =>
    simp only [Accounts.step] at hstep
    split at hstep
    · rename_i entry seen hpc
      cases hstep
      exact h.leave (h.others (by simp [hpc])) id
    · cases hstep
  | reply t reply writes =>
    simp only [Accounts.step] at hstep
    split at hstep
    · rename_i refresh hpc
      cases hstep
      by_cases htokens : ∃ tokens, reply = .tokens tokens
      · obtain ⟨tokens, rfl⟩ := htokens
        obtain ⟨hnew, rfl, hparses⟩ := hrotating refresh hpc
        exact h.accept hpc hnew hparses
      · exact h.refuse hpc fun tokens heq => htokens ⟨tokens, heq⟩
    · cases hstep
  | writeBack t =>
    simp only [Accounts.step] at hstep
    split at hstep
    · rename_i token hpc
      cases hstep
      exact h.leave (h.others (by simp [hpc])) id
    · cases hstep
  | stop t =>
    simp only [Accounts.step] at hstep
    split at hstep
    · rename_i refresh hpc
      cases hstep
      obtain ⟨hothers, hclosed⟩ := h.closed hpc (e := .ended refresh.refreshToken) rfl nofun
      exact (hclosed fun _ _ => nofun).leave hothers id
    · rename_i entry seen hpc
      cases hstep
      exact h.leave (h.others (by simp [hpc])) id
    · rename_i entry seen hpc
      cases hstep
      exact h.leave (h.others (by simp [hpc])) id
    · rename_i token hpc
      cases hstep
      exact h.leave (h.others (by simp [hpc])) id
    · cases hstep
  | storeSignIn p credential writes =>
    cases hstep
    have hframe : (s.storeSignIn p credential writes).pc = s.pc ∧
        (s.storeSignIn p credential writes).fileLock = s.fileLock ∧
        (s.storeSignIn p credential writes).log = s.log ∧
        (s.storeSignIn p credential writes).store = if writes then some credential else s.store := by
      cases credential <;> cases writes <;> exact ⟨rfl, rfl, rfl, rfl⟩
    obtain ⟨hpc, hlock, hlog, hstore⟩ := hframe
    refine h.frame hpc hlock hlog fun v hv => ?_
    rw [hstore] at hv
    cases writes with
    | true => exact fun hmem => hrotating v hv _ hmem rfl
    | false => exact h.stored v hv
  | deleteStored p writes =>
    cases hstep
    refine h.frame rfl rfl rfl fun v hv => ?_
    cases writes with
    | true => cases hv
    | false => exact h.stored v hv
  | markRevoked why =>
    cases hstep
    exact h.frame rfl rfl rfl h.stored

end

/-! ## Runs -/

/-- **No refresh token is sent again once it was accepted**, and none while a request with it is
under way: in every run of any number of tasks and processes, when the vendor rotates. -/
theorem resent_only_ended (accountId : String) (adopted : Bool) (proc : Nat → Nat) (now : Int)
    (store : Option Credential) (siwcMeta : Option SiwcMeta) (revoked : Option String)
    (cache : Nat → Option (String × Option Int)) (acts : List Act)
    (hrotating : Meets (step accountId adopted proc) Rotating
      (start now store siwcMeta revoked cache) acts) :
    ∀ s, run (step accountId adopted proc) (start now store siwcMeta revoked cache) acts = some s →
      ResentOnlyEnded s.log := by
  intro s hrun
  exact (invariant (fun s a s' h hr hs => h.step hr hs) (Inv.start now store siwcMeta revoked cache)
    hrotating hrun).resent

/-- A Codex account whose token has expired. -/
def expiredAccount : Credential := .oauth ⟨"codex", "me", "a0", some "r0", some 0⟩ none

/-- The endpoint is down, and the next task tries again. -/
def retried : List Act :=
  [.resolve 0, .takeFlight 0, .takeFile 0 true, .reply 0 (.refused "503" "" ⟨"", ""⟩) true,
    .resolve 1, .takeFlight 1, .takeFile 1 true]

/-- The refresh token is sent twice. -/
theorem retried_sends_twice : ¬∀ (accountId : String) (adopted : Bool) (proc : Nat → Nat) (now : Int)
    (store : Option Credential) (siwcMeta : Option SiwcMeta) (revoked : Option String)
    (cache : Nat → Option (String × Option Int)) (acts : List Act),
    Meets (step accountId adopted proc) Rotating (start now store siwcMeta revoked cache) acts →
    ∀ s, run (step accountId adopted proc) (start now store siwcMeta revoked cache) acts = some s →
      ∀ refreshToken, s.log.count (.sent refreshToken) ≤ 1 := by
  intro h
  have hrotating : Meets (step "codex:me" false id) Rotating
      (start 1000 (some expiredAccount) none none fun _ => none) retried := by
    iterate 7 refine .cons trivial rfl ?_
    trivial
  have htwice : ∃ s, run (step "codex:me" false id)
      (start 1000 (some expiredAccount) none none fun _ => none) retried = some s ∧
      s.log = [.sent "r0", .ended "r0", .sent "r0"] := ⟨_, rfl, rfl⟩
  obtain ⟨s, hrun, hlog⟩ := htwice
  have hcount := h _ _ _ _ _ _ _ _ _ hrotating s hrun "r0"
  rw [hlog] at hcount
  exact absurd hcount (by decide)

/-- A token is refreshed twice, with a new refresh token each time. -/
theorem resent_only_ended_twice : ∃ s, run (step "codex:me" false id)
    (start 1000 (some expiredAccount) none none fun _ => none)
    [.resolve 0, .takeFlight 0, .takeFile 0 true,
      .reply 0 (.tokens ⟨"a1", some "r1", some 3600, none, "", none⟩) true,
      .forceRefresh 1, .takeFlight 1, .takeFile 1 true] = some s ∧ ResentOnlyEnded s.log := by
  refine ⟨_, rfl, resent_only_ended "codex:me" false id 1000 (some expiredAccount) none none
    (fun _ => none) [.resolve 0, .takeFlight 0, .takeFile 0 true,
      .reply 0 (.tokens ⟨"a1", some "r1", some 3600, none, "", none⟩) true,
      .forceRefresh 1, .takeFlight 1, .takeFile 1 true] ?_ _ rfl⟩
  iterate 3 refine .cons trivial rfl ?_
  refine .cons ?_ rfl ?_
  · intro refresh hpc
    cases hpc
    refine ⟨⟨"r1", rfl, fun e he => ?_⟩, rfl, fun hsiwc => absurd rfl hsiwc⟩
    obtain rfl : e = .sent "r0" := List.mem_singleton.mp he
    decide
  · iterate 3 refine .cons trivial rfl ?_
    trivial

end AnyConverter.Accounts
