import AnyConverter.Converters.Stream
import AnyConverter.Lib.JsonText

/-!
# The calls of a Responses stream

A Responses stream numbers its output items, and a piece of a call's arguments names the item it
belongs to.  The reader numbers the calls instead, and gives a piece the number of its item: so they
meet only where as many calls as items come before.

* `mem_tagged_start`, `mem_tagged_delta`: where calls start, and where their pieces go;
* `same_index_iff`: where each piece goes to its own call, and each call is complete;
* `countsCalls_iff_of_numbered`: where items are numbered as they come, only behind other calls.
-/

set_option autoImplicit false

namespace AnyConverter.OpenAIResponses

open Transducer CanonicalStreamEvent

/-! ## Output items -/

/-- An event of a Responses stream, as it concerns the output items: a call has an id and a name. -/
inductive ItemEvent where
  | added (outputIndex : Nat) (call : Option (String × String))
  | arguments (outputIndex : Nat) (delta : String)
  | other (event : Upstream)
  deriving DecidableEq

/-- An event that neither adds an item nor brings arguments. -/
def Upstream.OfNoCall : Upstream → Prop
  | functionCallAdded _ _ => False
  | functionCallArgumentsDelta _ _ => False
  | _ => True

namespace ItemEvent

def outputIndex : ItemEvent → Option Nat
  | added outputIndex _ => some outputIndex
  | arguments outputIndex _ => some outputIndex
  | other _ => none

/-- The event as the reader decodes it. -/
def upstream : ItemEvent → Upstream
  | added _ (some (id, name)) => .functionCallAdded id name
  | added _ none => .ignored
  | arguments outputIndex delta => .functionCallArgumentsDelta (some outputIndex) delta
  | other event => event

def addedIndex : ItemEvent → Option Nat
  | added outputIndex _ => some outputIndex
  | _ => none

def isCall : ItemEvent → Bool
  | added _ (some _) => true
  | _ => false

end ItemEvent

/-- An event of the wire, with what it says of the items. -/
abbrev WireItem := SseEvent × ItemEvent

/-- The event decodes to what it says, and its payload names the item. -/
def Tells (codec : JsonCodec) (event : SseEvent) (item : ItemEvent) : Prop :=
  decode codec event = .ok item.upstream ∧
    ∀ index, item.outputIndex = some index →
      ((codec.fromStr event.data).bind fun data => (data.get "output_index").bind Value.asU64) =
        some index

/-- A Responses stream: every item is added once, and arguments come for calls that were added. -/
structure ItemStream (codec : JsonCodec) (events : List WireItem) : Prop where
  tells : ∀ e ∈ events, Tells codec e.1 e.2
  others : ∀ event u, (event, ItemEvent.other u) ∈ events → u.OfNoCall
  addedOnce : (events.filterMap fun e => e.2.addedIndex).Nodup
  arguments : ∀ pre event index delta post,
    events = pre ++ (event, ItemEvent.arguments index delta) :: post →
    ∃ event' call, (event', ItemEvent.added index (some call)) ∈ pre

/-- The reader, on events of the wire. -/
def readEvent (codec : JsonCodec) : Step AdapterState WireItem CanonicalStreamEvent := fun s e =>
  total (parseStream codec .openAIResponses) s e.1

/-- The pieces of an item's arguments, as the wire has them. -/
def ItemEvent.argumentsOf (outputIndex : Nat) : ItemEvent → Option String
  | arguments i delta => if i = outputIndex then some delta else none
  | _ => none

/-- Each piece of arguments has the index that the call of its output item started with. -/
def SameIndex (codec : JsonCodec) (w : World) (events : List WireItem) : Prop :=
  ∀ e f i j delta id name signature,
    (e, toolCallDelta i delta) ∈ tagged (readEvent codec) (.fresh w) events →
    (f, toolCallStart j id name signature) ∈ tagged (readEvent codec) (.fresh w) events →
    e.2.outputIndex = f.2.outputIndex → i = j

/-- Each call has the pieces of its item's arguments, all of them, in order, and no others. -/
def CallsComplete (codec : JsonCodec) (w : World) (events : List WireItem) : Prop :=
  ∀ f j id name signature outputIndex,
    (f, toolCallStart j id name signature) ∈ tagged (readEvent codec) (.fresh w) events →
    f.2.outputIndex = some outputIndex →
    (outputs (readEvent codec) (.fresh w) events).filterMap (pieceOf j) =
      events.filterMap fun e => e.2.argumentsOf outputIndex

/-- A call that gets arguments has as many calls before it as its output index says. -/
def CountsCalls (events : List WireItem) : Prop :=
  ∀ pre event index call post, events = pre ++ (event, ItemEvent.added index (some call)) :: post →
    (∃ event' delta, (event', ItemEvent.arguments index delta) ∈ post) →
    index % 2 ^ 32 = pre.countP fun e => e.2.isCall

/-! ## What the reader makes of it -/

variable {codec : JsonCodec}

theorem readEvent_eq {e : WireItem} (h : Tells codec e.1 e.2) (s : AdapterState) :
    readEvent codec s e = parse s e.2.upstream := by
  show (emitted (decodeThen (decode codec e.1) s (parse s)).1,
    (decodeThen (decode codec e.1) s (parse s)).2) = _
  rw [h.1]
  rfl

/-- The reader sees what the events say. -/
theorem outputs_readEvent {events : List WireItem} (htells : ∀ e ∈ events, Tells codec e.1 e.2)
    (s : AdapterState) : outputs (readEvent codec) s events =
      outputs parse s (events.map fun e => e.2.upstream) := by
  induction events generalizing s with
  | nil => rfl
  | cons e events ih =>
    have hrest := ih (fun e' hmem => htells e' (List.mem_cons_of_mem _ hmem))
    rw [outputs_cons, readEvent_eq (htells e List.mem_cons_self), hrest, List.map_cons, outputs_cons]

/-- Other events say nothing of calls. -/
theorem parse_ofNoCall {u : Upstream} (h : u.OfNoCall) (s : AdapterState) :
    (∀ j id name signature, toolCallStart j id name signature ∉ (parse s u).1) ∧
      (∀ i delta, toolCallDelta i delta ∉ (parse s u).1) ∧
      (parse s u).2.toolCallIndex = s.toolCallIndex := by
  cases u with
  | functionCallAdded id name => exact h.elim
  | functionCallArgumentsDelta outputIndex delta => exact h.elim
  | created id model usage => simp [parse]
  | outputTextDelta delta => simp [parse]
  | completed stopReason usage => simp [parse]
  | ignored => simp [parse]

/-- Only a call that is added counts. -/
theorem toolCallIndex_parse {event : SseEvent} {item : ItemEvent}
    (h : ∀ u, item = .other u → u.OfNoCall) (s : AdapterState) :
    (parse s item.upstream).2.toolCallIndex =
      s.toolCallIndex + [(event, item)].countP fun e : WireItem => e.2.isCall := by
  cases item with
  | added index call => cases call <;> rfl
  | arguments index delta => rfl
  | other u => exact (parse_ofNoCall (h u rfl) s).2.2

/-- The reader has counted the calls so far. -/
theorem toolCallIndex_final {events : List WireItem} (htells : ∀ e ∈ events, Tells codec e.1 e.2)
    (hothers : ∀ event u, (event, ItemEvent.other u) ∈ events → u.OfNoCall) (s : AdapterState) :
    (final (readEvent codec) s events).toolCallIndex =
      s.toolCallIndex + events.countP fun e => e.2.isCall := by
  induction events generalizing s with
  | nil => rfl
  | cons e events ih =>
    obtain ⟨event, item⟩ := e
    have hrest := ih (fun e' hmem => htells e' (List.mem_cons_of_mem _ hmem))
      (fun event' u hmem => hothers event' u (List.mem_cons_of_mem _ hmem)) (parse s item.upstream).2
    have hstep := @toolCallIndex_parse event item (fun u hu => hothers event u (hu ▸ List.mem_cons_self)) s
    rw [final_cons, readEvent_eq (htells _ List.mem_cons_self), hrest, hstep, Nat.add_assoc,
      ← List.countP_append]
    rfl

variable {events : List WireItem} {w : World}

/-- What an event is read as, behind the events before it. -/
theorem mem_tagged_parse (h : ItemStream codec events) {e : WireItem} {c : CanonicalStreamEvent} :
    (e, c) ∈ tagged (readEvent codec) (.fresh w) events ↔
      ∃ pre post, events = pre ++ e :: post ∧
        c ∈ (parse (final (readEvent codec) (.fresh w) pre) e.2.upstream).1 := by
  rw [mem_tagged_iff]
  refine exists_congr fun pre => exists_congr fun post => and_congr_right fun heq => ?_
  rw [readEvent_eq (h.tells e (heq ▸ List.mem_append_right _ List.mem_cons_self))]

/-- The number of the next call. -/
theorem toolCallIndex_before (h : ItemStream codec events) {pre post : List WireItem}
    (heq : events = pre ++ post) :
    (final (readEvent codec) (.fresh w) pre).toolCallIndex = pre.countP fun e => e.2.isCall := by
  have hmem : ∀ e ∈ pre, e ∈ events := fun e hpre => heq ▸ List.mem_append_left _ hpre
  rw [toolCallIndex_final (fun e hpre => h.tells e (hmem e hpre))
    fun event u hpre => h.others event u (hmem _ hpre)]
  exact Nat.zero_add _

/-- A call starts under the number of the calls before it. -/
theorem mem_tagged_start (h : ItemStream codec events) {e : WireItem} {j : Nat} {id name : String}
    {signature : Option String} :
    (e, toolCallStart j id name signature) ∈ tagged (readEvent codec) (.fresh w) events ↔
      signature = none ∧ ∃ pre event index post, e = (event, .added index (some (id, name))) ∧
        events = pre ++ e :: post ∧ j = pre.countP fun e => e.2.isCall := by
  rw [mem_tagged_parse h]
  constructor
  · rintro ⟨pre, post, heq, hmem⟩
    have hindex := @toolCallIndex_before codec events w h pre (e :: post) heq
    obtain ⟨event, item⟩ := e
    cases item with
    | added index call =>
      cases call with
      | none => cases hmem
      | some call =>
        obtain ⟨rfl, rfl, rfl, rfl⟩ := toolCallStart.inj (List.mem_singleton.mp hmem)
        exact ⟨rfl, pre, event, index, post, rfl, heq, hindex⟩
    | arguments index delta => cases List.mem_singleton.mp hmem
    | other u =>
      have hu := h.others event u (heq ▸ List.mem_append_right _ List.mem_cons_self)
      exact absurd hmem ((parse_ofNoCall hu _).1 j id name signature)
  · rintro ⟨rfl, pre, event, index, post, rfl, heq, rfl⟩
    refine ⟨pre, post, heq, ?_⟩
    rw [← @toolCallIndex_before codec events w h pre _ heq]
    exact List.mem_singleton_self _

/-- A piece of arguments goes to the number of its item. -/
theorem mem_tagged_delta (h : ItemStream codec events) {e : WireItem} {i : Nat} {delta : String} :
    (e, toolCallDelta i delta) ∈ tagged (readEvent codec) (.fresh w) events ↔
      ∃ event index, e = (event, .arguments index delta) ∧ e ∈ events ∧ i = index % 2 ^ 32 := by
  rw [mem_tagged_parse h]
  constructor
  · rintro ⟨pre, post, heq, hmem⟩
    have hevents : e ∈ events := heq ▸ List.mem_append_right _ List.mem_cons_self
    obtain ⟨event, item⟩ := e
    cases item with
    | added index call =>
      cases call with
      | none => cases hmem
      | some call => cases List.mem_singleton.mp hmem
    | arguments index piece =>
      obtain ⟨rfl, rfl⟩ := toolCallDelta.inj (List.mem_singleton.mp hmem)
      exact ⟨event, index, rfl, hevents, rfl⟩
    | other u => exact absurd hmem ((parse_ofNoCall (h.others event u hevents) _).2.1 i delta)
  · rintro ⟨event, index, rfl, hevents, rfl⟩
    obtain ⟨pre, post, heq⟩ := List.append_of_mem hevents
    exact ⟨pre, post, heq, List.mem_singleton_self _⟩

/-! ## Which item a piece belongs to -/

/-- A list split at two places: they are one, or one is behind the other. -/
theorem append_cons_cases {α : Type} {pre post pre' post' : List α} {x x' : α}
    (h : pre ++ x :: post = pre' ++ x' :: post') :
    (pre = pre' ∧ x = x' ∧ post = post') ∨
      (∃ mid, pre' = pre ++ x :: mid ∧ post = mid ++ x' :: post') ∨
      ∃ mid, pre = pre' ++ x' :: mid ∧ post' = mid ++ x :: post := by
  rcases List.append_eq_append_iff.mp h with ⟨mid, rfl, hmid⟩ | ⟨mid, rfl, hmid⟩
  · cases mid with
    | nil =>
      obtain ⟨rfl, rfl⟩ := List.cons.inj hmid
      exact .inl ⟨(List.append_nil _).symm, rfl, rfl⟩
    | cons y mid =>
      obtain ⟨rfl, rfl⟩ := List.cons.inj hmid
      exact .inr (.inl ⟨mid, rfl, rfl⟩)
  · cases mid with
    | nil =>
      obtain ⟨rfl, rfl⟩ := List.cons.inj hmid
      exact .inl ⟨List.append_nil _, rfl, rfl⟩
    | cons y mid =>
      obtain ⟨rfl, rfl⟩ := List.cons.inj hmid
      exact .inr (.inr ⟨mid, rfl, rfl⟩)

/-- An item is added in one place only. -/
theorem not_added_again {pre mid post : List WireItem} {e e' : WireItem} {index : Nat}
    (hnodup : ((pre ++ e :: (mid ++ e' :: post)).filterMap fun e => e.2.addedIndex).Nodup)
    (he : e.2.addedIndex = some index) (he' : e'.2.addedIndex = some index) : False := by
  rw [List.filterMap_append, List.filterMap_cons_some (f := fun e : WireItem => e.2.addedIndex) he,
    List.filterMap_append, List.filterMap_cons_some (f := fun e : WireItem => e.2.addedIndex) he']
    at hnodup
  have hbehind := (List.nodup_cons.mp (List.nodup_append.mp hnodup).2.1).1
  exact hbehind (List.mem_append_right _ List.mem_cons_self)

theorem added_unique (h : ItemStream codec events) {pre pre' post post' : List WireItem}
    {e e' : WireItem} {index : Nat} (heq : events = pre ++ e :: post)
    (heq' : events = pre' ++ e' :: post') (he : e.2.addedIndex = some index)
    (he' : e'.2.addedIndex = some index) : pre = pre' ∧ e = e' ∧ post = post' := by
  have hnodup := h.addedOnce
  rcases append_cons_cases (heq.symm.trans heq') with hsame | ⟨mid, -, rfl⟩ | ⟨mid, -, rfl⟩
  · exact hsame
  · rw [heq] at hnodup
    exact (not_added_again hnodup he he').elim
  · rw [heq'] at hnodup
    exact (not_added_again hnodup he' he).elim

/-- Two calls with as many calls before them are one. -/
theorem call_unique {pre pre' post post' : List WireItem} {e e' : WireItem}
    (heq : pre ++ e :: post = pre' ++ e' :: post') (he : e.2.isCall) (he' : e'.2.isCall)
    (hcount : (pre.countP fun e => e.2.isCall) = pre'.countP fun e => e.2.isCall) : e = e' := by
  rcases append_cons_cases heq with ⟨-, hsame, -⟩ | ⟨mid, rfl, -⟩ | ⟨mid, rfl, -⟩
  · exact hsame
  · rw [List.countP_append, List.countP_cons_of_pos (p := fun e : WireItem => e.2.isCall) he] at hcount
    omega
  · rw [List.countP_append, List.countP_cons_of_pos (p := fun e : WireItem => e.2.isCall) he'] at hcount
    omega

/-- The pieces of an item come behind it. -/
theorem behind_added (h : ItemStream codec events) {pre post : List WireItem} {e piece : WireItem}
    {index : Nat} {delta : String} (heq : events = pre ++ e :: post)
    (he : e.2.addedIndex = some index) (hpiece : piece ∈ events)
    (hdelta : piece.2 = .arguments index delta) : piece ∈ post := by
  obtain ⟨before, after, hsplit⟩ := List.append_of_mem hpiece
  obtain ⟨event, item⟩ := piece
  subst hdelta
  obtain ⟨event', call, hadded⟩ := h.arguments before event index delta after hsplit
  obtain ⟨first, mid, rfl⟩ := List.append_of_mem hadded
  rw [List.append_assoc, List.cons_append] at hsplit
  obtain ⟨-, -, rfl⟩ := added_unique h heq hsplit he rfl
  exact List.mem_append_right _ List.mem_cons_self

theorem countsCalls_of_sameIndex (h : ItemStream codec events) (hsame : SameIndex codec w events) :
    CountsCalls events := by
  rintro pre event index call post heq ⟨event', delta, hpiece⟩
  have hmem : (event', ItemEvent.arguments index delta) ∈ events :=
    heq ▸ List.mem_append_right _ (List.mem_cons_of_mem _ hpiece)
  have hdelta := (mem_tagged_delta h (w := w)).mpr ⟨event', index, rfl, hmem, rfl⟩
  have hstart := (mem_tagged_start h (w := w)).mpr
    ⟨rfl, pre, event, index, post, rfl, heq, rfl⟩
  exact hsame _ _ _ _ _ _ _ _ hdelta hstart rfl

theorem sameIndex_of_countsCalls (h : ItemStream codec events) (hcounts : CountsCalls events) :
    SameIndex codec w events := by
  intro e f i j delta id name signature hdelta hstart hitem
  obtain ⟨event, index, rfl, hmem, rfl⟩ := (mem_tagged_delta h).mp hdelta
  obtain ⟨-, pre, event', index', post, rfl, heq, rfl⟩ := (mem_tagged_start h).mp hstart
  obtain rfl : index = index' := Option.some.inj hitem
  have hbehind := behind_added h heq rfl hmem rfl
  exact hcounts pre event' index (id, name) post heq ⟨event, delta, hbehind⟩

/-- A piece is at a call's index only when it is of the call's item. -/
theorem index_eq_iff (h : ItemStream codec events) (hsame : SameIndex codec w events)
    {pre post : List WireItem} {event event' : SseEvent} {index index' : Nat}
    {call : String × String} {delta : String}
    (heq : events = pre ++ (event, .added index (some call)) :: post)
    (hpiece : (event', ItemEvent.arguments index' delta) ∈ events) :
    (index' % 2 ^ 32 = pre.countP fun e => e.2.isCall) ↔ index' = index := by
  have hdelta := (mem_tagged_delta h (w := w)).mpr ⟨event', index', rfl, hpiece, rfl⟩
  constructor
  · intro hindex
    obtain ⟨before, after, hsplit⟩ := List.append_of_mem hpiece
    obtain ⟨event₂, call₂, hadded⟩ := h.arguments before event' index' delta after hsplit
    have hmem : (event₂, ItemEvent.added index' (some call₂)) ∈ events :=
      hsplit ▸ List.mem_append_left _ hadded
    obtain ⟨pre₂, post₂, heq₂⟩ := List.append_of_mem hmem
    have hstart := (mem_tagged_start h (w := w)).mpr
      ⟨rfl, pre₂, event₂, index', post₂, rfl, heq₂, rfl⟩
    have hcount := hsame _ _ _ _ _ _ _ _ hdelta hstart rfl
    have hcall := call_unique (heq₂.symm.trans heq) rfl rfl (hcount.symm.trans hindex)
    exact (ItemEvent.added.inj (Prod.mk.inj hcall).2).1
  · rintro rfl
    have hstart := (mem_tagged_start h (w := w)).mpr ⟨rfl, pre, event, index', post, rfl, heq, rfl⟩
    exact hsame _ _ _ _ _ _ _ _ hdelta hstart rfl

theorem callsComplete_of_sameIndex (h : ItemStream codec events)
    (hsame : SameIndex codec w events) : CallsComplete codec w events := by
  intro f j id name signature outputIndex hstart hitem
  obtain ⟨-, pre, event, index, post, rfl, heq, rfl⟩ := (mem_tagged_start h).mp hstart
  obtain rfl : index = outputIndex := Option.some.inj hitem
  refine outputs_filterMap _ fun before e after hsplit => ?_
  have hmem : e ∈ events := hsplit ▸ List.mem_append_right _ List.mem_cons_self
  rw [readEvent_eq (h.tells e hmem)]
  obtain ⟨event', item⟩ := e
  cases item with
  | added index' call => cases call <;> rfl
  | other u =>
    refine List.filterMap_eq_nil_iff.mpr fun c hc => ?_
    cases c with
    | toolCallDelta i delta => exact absurd hc ((parse_ofNoCall (h.others event' u hmem) _).2.1 i delta)
    | _ => rfl
  | arguments index' delta =>
    have hiff := index_eq_iff h hsame heq hmem
    show List.filterMap _ [toolCallDelta (index' % 2 ^ 32) delta] = Option.toList (if _ then _ else _)
    rw [List.filterMap_cons, pieceOf_delta]
    by_cases hindex : index' = index
    · rw [if_pos hindex, if_pos (hiff.mpr hindex)]
      rfl
    · rw [if_neg hindex, if_neg (mt hiff.mp hindex)]
      rfl

/-- A number of a range is the number of those before it. -/
theorem range_split {n k : Nat} {ks ms : List Nat} (h : List.range n = ks ++ k :: ms) :
    k = ks.length ∧ k < n := by
  have hlength : ks.length < n := by
    have hn := congrArg List.length h
    simp only [List.length_range, List.length_append, List.length_cons] at hn
    omega
  have hget : (List.range n)[ks.length]? = some k := by simp [h]
  rw [List.getElem?_range hlength] at hget
  obtain rfl := Option.some.inj hget
  exact ⟨rfl, hlength⟩

/-- As many calls are added as items where every item is a call. -/
theorem count_added_eq_iff (pre : List WireItem) :
    (pre.filterMap fun e => e.2.addedIndex).length = (pre.countP fun e => e.2.isCall) ↔
      ∀ e ∈ pre, e.2.addedIndex ≠ none → e.2.isCall := by
  have hcalls : (pre.countP fun e => e.2.isCall) =
      (pre.filter fun e => e.2.addedIndex.isSome).countP fun e => e.2.isCall := by
    rw [List.countP_filter]
    refine List.countP_congr fun e _ => ?_
    obtain ⟨event, _ | _ | _⟩ := e <;> simp [ItemEvent.isCall, ItemEvent.addedIndex]
  rw [List.length_filterMap_eq_countP, List.countP_eq_length_filter, hcalls, eq_comm,
    List.countP_eq_length]
  simp [List.mem_filter, Option.isSome_iff_ne_none]

/-- Where items are numbered as they are added, only calls are added before a call that gets
arguments. -/
theorem countsCalls_iff_of_numbered {n : Nat}
    (hnumbered : (events.filterMap fun e => e.2.addedIndex) = List.range n) (hn : n ≤ 2 ^ 32) :
    CountsCalls events ↔ ∀ pre event index call post,
      events = pre ++ (event, ItemEvent.added index (some call)) :: post →
      (∃ event' delta, (event', ItemEvent.arguments index delta) ∈ post) →
      ∀ e ∈ pre, e.2.addedIndex ≠ none → e.2.isCall := by
  refine forall₄_congr fun pre event index call => forall_congr' fun post =>
    forall₂_congr fun heq _ => ?_
  have hsplit : List.range n = (pre.filterMap fun e => e.2.addedIndex) ++
      index :: (post.filterMap fun e => e.2.addedIndex) := by
    rw [← hnumbered, heq, List.filterMap_append,
      List.filterMap_cons_some (f := fun e : WireItem => e.2.addedIndex) rfl]
  obtain ⟨hindex, hlt⟩ := range_split hsplit
  rw [Nat.mod_eq_of_lt (lt_of_lt_of_le hlt hn), hindex]
  exact count_added_eq_iff pre

/-! ## On the wire -/

/-- An event with a payload. -/
def wired (name : String) (fields : List (String × Value)) : SseEvent :=
  ⟨some name, JsonText.compactCodec.toText (.object fields)⟩

def wiredItem (index : Nat) (item : List (String × Value)) : SseEvent :=
  wired "response.output_item.added" [("output_index", .nat index), ("item", .object item)]

def wiredCall (index : Nat) (id name : String) : SseEvent :=
  wiredItem index [("type", .string "function_call"), ("call_id", .string id), ("name", .string name)]

def wiredReasoning (index : Nat) : SseEvent :=
  wiredItem index [("type", .string "reasoning")]

def wiredArguments (index : Nat) (delta : String) : SseEvent :=
  wired "response.function_call_arguments.delta"
    [("output_index", .nat index), ("delta", .string delta)]

theorem bind_asU64 {v : Option Value} {n : Nat} (hv : v = some (.nat n)) (h : n < 2 ^ 64) :
    v.bind Value.asU64 = some n := by
  rw [hv, Option.bind_some]
  exact Value.asU64_nat n h

theorem tells_wired {name : String} {fields : List (String × Value)} {item : ItemEvent}
    (hdecode : decodeTyped name (.object fields) = .ok item.upstream)
    (hindex : ∀ index, item.outputIndex = some index →
      (((Value.object fields).get "output_index").bind Value.asU64) = some index) :
    Tells JsonText.compactCodec (wired name fields) item := by
  constructor
  · unfold decode wired
    rw [JsonText.compactCodec_lawful.read_print]
    exact hdecode
  · unfold wired
    rw [JsonText.compactCodec_lawful.read_print]
    exact hindex

theorem tells_wiredCall {index : Nat} (h : index < 2 ^ 64) (id name : String) :
    Tells JsonText.compactCodec (wiredCall index id name) (.added index (some (id, name))) := by
  refine tells_wired rfl fun i hi => ?_
  obtain rfl : index = i := Option.some.inj hi
  exact bind_asU64 rfl h

theorem tells_wiredReasoning {index : Nat} (h : index < 2 ^ 64) :
    Tells JsonText.compactCodec (wiredReasoning index) (.added index none) := by
  refine tells_wired rfl fun i hi => ?_
  obtain rfl : index = i := Option.some.inj hi
  exact bind_asU64 rfl h

theorem tells_wiredArguments {index : Nat} (h : index < 2 ^ 64) (delta : String) :
    Tells JsonText.compactCodec (wiredArguments index delta) (.arguments index delta) := by
  have hindex : ((Value.object [("output_index", .nat index), ("delta", .string delta)]).get
      "output_index").bind Value.asU64 = some index := bind_asU64 rfl h
  refine tells_wired ?_ fun i hi => ?_
  · unfold decodeTyped
    rw [hindex]
    rfl
  · obtain rfl : index = i := Option.some.inj hi
    exact hindex

/-- A call with its arguments, and a reasoning item behind it. -/
def callFirst : List WireItem :=
  [(wiredCall 0 "call_1" "weather", .added 0 (some ("call_1", "weather"))),
    (wiredArguments 0 "\x7b\x7d", .arguments 0 "\x7b\x7d"),
    (wiredReasoning 1, .added 1 none)]

/-- The reasoning item comes first. -/
def reasoningFirst : List WireItem :=
  [(wiredReasoning 0, .added 0 none),
    (wiredCall 1 "call_1" "weather", .added 1 (some ("call_1", "weather"))),
    (wiredArguments 1 "\x7b\x7d", .arguments 1 "\x7b\x7d")]

theorem itemStream_callFirst : ItemStream JsonText.compactCodec callFirst where
  tells := by
    simp only [callFirst, List.forall_mem_cons]
    exact ⟨tells_wiredCall (by omega) _ _, tells_wiredArguments (by omega) _,
      tells_wiredReasoning (by omega), by simp⟩
  others := by simp [callFirst]
  addedOnce := by decide
  arguments := by
    intro pre event index delta post h
    unfold callFirst at h
    rcases pre with _ | ⟨e, _ | ⟨e', _ | ⟨e'', pre⟩⟩⟩
    · simp at h
    · obtain ⟨rfl, ⟨-, rfl, -⟩, -⟩ := by simpa using h
      exact ⟨_, _, List.mem_cons_self⟩
    · simp at h
    · simp at h

theorem itemStream_reasoningFirst : ItemStream JsonText.compactCodec reasoningFirst where
  tells := by
    simp only [reasoningFirst, List.forall_mem_cons]
    exact ⟨tells_wiredReasoning (by omega), tells_wiredCall (by omega) _ _,
      tells_wiredArguments (by omega) _, by simp⟩
  others := by simp [reasoningFirst]
  addedOnce := by decide
  arguments := by
    intro pre event index delta post h
    unfold reasoningFirst at h
    rcases pre with _ | ⟨e, _ | ⟨e', _ | ⟨e'', pre⟩⟩⟩
    · simp at h
    · simp at h
    · obtain ⟨rfl, rfl, ⟨-, rfl, -⟩, -⟩ := by simpa using h
      exact ⟨_, _, List.mem_cons_of_mem _ List.mem_cons_self⟩
    · simp at h

theorem countsCalls_callFirst : CountsCalls callFirst := by
  rintro pre event index call post h -
  unfold callFirst at h
  rcases pre with _ | ⟨e, _ | ⟨e', _ | ⟨e'', pre⟩⟩⟩
  · obtain ⟨⟨-, rfl, -⟩, -⟩ := by simpa using h
    rfl
  · simp at h
  · simp at h
  · simp at h

/-- Every piece goes to its own call, and every call is complete, just where a call that gets
arguments has as many calls before it as its output index says. -/
theorem same_index_iff (h : ItemStream codec events) :
    SameIndex codec w events ∧ CallsComplete codec w events ↔ CountsCalls events := by
  constructor
  · rintro ⟨hsame, -⟩
    exact countsCalls_of_sameIndex h hsame
  · intro hcounts
    have hsame := sameIndex_of_countsCalls (w := w) h hcounts
    exact ⟨hsame, callsComplete_of_sameIndex h hsame⟩

theorem same_index_callFirst :
    SameIndex JsonText.compactCodec .counting callFirst ∧
      CallsComplete JsonText.compactCodec .counting callFirst :=
  (same_index_iff itemStream_callFirst).mpr countsCalls_callFirst

/-- Behind a reasoning item the call starts as call 0, and its arguments go to call 1. -/
theorem reasoning_shifts :
    ItemStream JsonText.compactCodec reasoningFirst ∧
      outputs (readEvent JsonText.compactCodec) (.fresh .counting) reasoningFirst =
        [toolCallStart 0 "call_1" "weather" none, toolCallDelta 1 "\x7b\x7d"] ∧
      ¬ (SameIndex JsonText.compactCodec .counting reasoningFirst ∧
        CallsComplete JsonText.compactCodec .counting reasoningFirst) := by
  refine ⟨itemStream_reasoningFirst, ?_, ?_⟩
  · rw [outputs_readEvent itemStream_reasoningFirst.tells]
    rfl
  · rintro ⟨hsame, -⟩
    have hcounts := countsCalls_of_sameIndex itemStream_reasoningFirst hsame
      [(wiredReasoning 0, .added 0 none)] _ 1 _ _ rfl ⟨_, _, List.mem_cons_self⟩
    rw [Nat.mod_eq_of_lt (by omega)] at hcounts
    exact absurd hcounts (by decide)

end AnyConverter.OpenAIResponses
