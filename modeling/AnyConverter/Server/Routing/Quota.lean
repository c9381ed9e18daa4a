import Mathlib.Data.Rat.Defs
import AnyConverter.Lib.Json
import AnyConverter.Server.Routing.Plan

/-!
# Model requests: the quotas of an account

Google lists what is left of an account model by model.  Each entry becomes one window of the
account's allowance, under the id it was listed with; the windows that count for a model are those
whose id is a word of the model's name.

* `fullestUsed_le_iff`, `exhausted_iff`: what an allowance says of a model, window by window;
* `ownFigures_iff`: when a model's figures are those of its own entry.
-/

set_option autoImplicit false

namespace AnyConverter.Handlers

/-! ## Figures of an allowance -/

/-- Percent used of the fullest window that counts for the model. -/
def Allowance.fullestUsed (allowance : Allowance) (model : String) (now : Nat) : Rat :=
  ((allowance.forModel model).map (·.usedNow now)).foldl max 0

theorem foldl_max_le_iff (xs : List Rat) (x bound : Rat) :
    xs.foldl max x ≤ bound ↔ x ≤ bound ∧ ∀ y ∈ xs, y ≤ bound := by
  induction xs generalizing x with
  | nil => simp
  | cons y xs ih =>
    rw [List.foldl_cons, ih, max_le_iff]
    simp only [List.forall_mem_cons, and_assoc]

namespace Allowance

variable (allowance : Allowance) (model : String) (now : Nat)

theorem fullestUsed_le_iff (bound : Rat) :
    allowance.fullestUsed model now ≤ bound ↔
      0 ≤ bound ∧ ∀ limit ∈ allowance.forModel model, limit.usedNow now ≤ bound := by
  unfold fullestUsed
  simp [foldl_max_le_iff]

theorem exhausted_iff (share : Rat) :
    allowance.exhausted model share now = true ↔
      ∃ limit ∈ allowance.forModel model, share ≤ limit.usedNow now := by
  unfold exhausted
  simp only [Bool.and_eq_true, List.any_eq_true, decide_eq_true_eq, Bool.not_eq_true']
  constructor
  · exact fun h => h.2
  · rintro ⟨limit, hlimit, hshare⟩
    refine ⟨?_, limit, hlimit, hshare⟩
    cases hwindows : allowance.forModel model with
    | nil =>
      rw [hwindows] at hlimit
      cases hlimit
    | cons first rest => rfl

end Allowance

/-! ## A reply of Google's -/

/-- A number as it is written. -/
def asFraction : Value → Option Rat
  | .number (.int i) => some i
  | .number (.decimal mantissa exponent) => some (mantissa * 10 ^ exponent)
  | _ => none

/-- An RFC 3339 time in seconds since the start of 1970, as the calendar library reads it. -/
def parseRfc3339 (timestamp : String → Option Int) (text : String) : Option Nat :=
  (timestamp text).map Int.toNat

section
variable (timestamp : String → Option Int)

/-- The window of one model's entry; a fraction that is not there reads as none left. -/
def modelWindow (id : String) (detail : Value) : Option Limit := do
  let quota ← (detail.get "quotaInfo").bind Value.asObject
  let remaining := ((quota.lookup "remainingFraction").bind asFraction).getD 0
  some
    { used := max 0 (min ((1 - remaining) * 100) 100)
      resets := ((quota.lookup "resetTime").bind Value.asStr).bind (parseRfc3339 timestamp)
      model := some id }

/-- The entries of a reply, model by model. -/
def modelEntries (reply : Value) : List (String × Value) :=
  ((reply.get "models").bind Value.asObject).getD []

def geminiAllowanceFromReply (reply : Value) : Allowance :=
  (modelEntries reply).filterMap fun entry => modelWindow timestamp entry.1 entry.2

/-- The reply with the entry of one model alone. -/
def ownReply (reply : Value) (model : String) : Value :=
  .object [("models", .object ((modelEntries reply).filter fun entry => entry.1 = model))]

/-- The ids of the models that have a quota. -/
def quotaIds (reply : Value) : List String :=
  (modelEntries reply).filterMap fun entry =>
    ((entry.2.get "quotaInfo").bind Value.asObject).map fun _ => entry.1

/-- Whether an id is a word of a model's name. -/
def Inside (id model : String) : Prop := id.toList <:+: model.toList

/-- Whether the figures of a model are those of its own entry. -/
def OwnFigures (reply : Value) (model : String) (now : Nat) : Prop :=
  (geminiAllowanceFromReply timestamp reply).fullestUsed model now =
      (geminiAllowanceFromReply timestamp (ownReply reply model)).fullestUsed model now ∧
    ∀ share, (geminiAllowanceFromReply timestamp reply).exhausted model share now =
      (geminiAllowanceFromReply timestamp (ownReply reply model)).exhausted model share now

/-- Whether no other model whose id is a word of this one's name has a fuller window than its own. -/
def NoFuller (reply : Value) (model : String) (now : Nat) : Prop :=
  ∀ entry ∈ modelEntries reply, entry.1 ≠ model → Inside entry.1 model →
    ∀ limit, modelWindow timestamp entry.1 entry.2 = some limit →
      ∃ detail own, (model, detail) ∈ modelEntries reply ∧
        modelWindow timestamp model detail = some own ∧ limit.usedNow now ≤ own.usedNow now

variable {timestamp}

theorem counts_iff {id model : String} {detail : Value} {limit : Limit}
    (h : modelWindow timestamp id detail = some limit) :
    limit.counts model = true ↔ Inside id model := by
  simp only [modelWindow, Option.bind_eq_bind, Option.bind_eq_some_iff] at h
  obtain ⟨quota, -, hlimit⟩ := h
  obtain rfl := Option.some.inj hlimit
  exact Text.splitList_isSome_iff id.toList model.toList

theorem isSome_modelWindow (id : String) (detail : Value) :
    (modelWindow timestamp id detail).isSome = ((detail.get "quotaInfo").bind Value.asObject).isSome := by
  unfold modelWindow
  cases (detail.get "quotaInfo").bind Value.asObject <;> rfl

theorem mem_forModel {reply : Value} {model : String} {limit : Limit} :
    limit ∈ (geminiAllowanceFromReply timestamp reply).forModel model ↔
      ∃ entry ∈ modelEntries reply, Inside entry.1 model ∧
        modelWindow timestamp entry.1 entry.2 = some limit := by
  unfold Allowance.forModel geminiAllowanceFromReply
  simp only [List.mem_filter, List.mem_filterMap]
  constructor
  · rintro ⟨⟨entry, hentry, hwindow⟩, hcounts⟩
    exact ⟨entry, hentry, (counts_iff hwindow).mp hcounts, hwindow⟩
  · rintro ⟨entry, hentry, hinside, hwindow⟩
    exact ⟨⟨entry, hentry, hwindow⟩, (counts_iff hwindow).mpr hinside⟩

theorem modelEntries_ownReply (reply : Value) (model : String) :
    modelEntries (ownReply reply model) =
      (modelEntries reply).filter fun entry => entry.1 = model := rfl

theorem mem_forModel_ownReply {reply : Value} {model : String} {limit : Limit} :
    limit ∈ (geminiAllowanceFromReply timestamp (ownReply reply model)).forModel model ↔
      ∃ detail, (model, detail) ∈ modelEntries reply ∧
        modelWindow timestamp model detail = some limit := by
  rw [mem_forModel, modelEntries_ownReply]
  simp only [List.mem_filter, decide_eq_true_eq]
  constructor
  · rintro ⟨⟨id, detail⟩, ⟨hentry, rfl⟩, -, hwindow⟩
    exact ⟨detail, hentry, hwindow⟩
  · rintro ⟨detail, hentry, hwindow⟩
    exact ⟨(model, detail), ⟨hentry, rfl⟩, List.infix_refl _, hwindow⟩

theorem ownFigures_iff_noFuller (reply : Value) (model : String) (now : Nat) :
    OwnFigures timestamp reply model now ↔ NoFuller timestamp reply model now := by
  constructor
  · -- at the share of its own use, a window makes the account exhausted
    rintro ⟨-, hexhausted⟩ entry hentry hne hinside limit hwindow
    have hspent : (geminiAllowanceFromReply timestamp reply).exhausted model (limit.usedNow now) now =
        true :=
      (Allowance.exhausted_iff _ _ _ _).mpr
        ⟨limit, mem_forModel.mpr ⟨entry, hentry, hinside, hwindow⟩, le_refl _⟩
    rw [hexhausted, Allowance.exhausted_iff] at hspent
    obtain ⟨own, hown, hle⟩ := hspent
    obtain ⟨detail, hmem, hwindow'⟩ := mem_forModel_ownReply.mp hown
    exact ⟨detail, own, hmem, hwindow', hle⟩
  · intro hfuller
    -- every window that counts is no fuller than one of the model's own, which counts itself
    have hcovered : ∀ limit ∈ (geminiAllowanceFromReply timestamp reply).forModel model,
        ∃ own ∈ (geminiAllowanceFromReply timestamp (ownReply reply model)).forModel model,
          limit.usedNow now ≤ own.usedNow now := by
      intro limit hlimit
      obtain ⟨⟨id, detail⟩, hentry, hinside, hwindow⟩ := mem_forModel.mp hlimit
      by_cases hid : id = model
      · subst hid
        exact ⟨limit, mem_forModel_ownReply.mpr ⟨detail, hentry, hwindow⟩, le_refl _⟩
      · obtain ⟨detail', own, hentry', hwindow', hle⟩ :=
          hfuller (id, detail) hentry hid hinside limit hwindow
        exact ⟨own, mem_forModel_ownReply.mpr ⟨detail', hentry', hwindow'⟩, hle⟩
    have hcounts : ∀ own ∈ (geminiAllowanceFromReply timestamp (ownReply reply model)).forModel model,
        own ∈ (geminiAllowanceFromReply timestamp reply).forModel model := by
      intro own hown
      obtain ⟨detail, hentry, hwindow⟩ := mem_forModel_ownReply.mp hown
      exact mem_forModel.mpr ⟨(model, detail), hentry, List.infix_refl _, hwindow⟩
    refine ⟨?_, fun share => ?_⟩
    · apply eq_of_forall_ge_iff
      intro bound
      rw [Allowance.fullestUsed_le_iff, Allowance.fullestUsed_le_iff]
      refine and_congr_right fun _ => ⟨fun h own hown => h own (hcounts own hown), fun h limit hlimit => ?_⟩
      obtain ⟨own, hown, hle⟩ := hcovered limit hlimit
      exact le_trans hle (h own hown)
    · rw [Bool.eq_iff_iff, Allowance.exhausted_iff, Allowance.exhausted_iff]
      constructor
      · rintro ⟨limit, hlimit, hshare⟩
        obtain ⟨own, hown, hle⟩ := hcovered limit hlimit
        exact ⟨own, hown, le_trans hshare hle⟩
      · rintro ⟨own, hown, hshare⟩
        exact ⟨own, hcounts own hown, hshare⟩

/-- Where each account's figures are its own, so is the order the accounts are tried in. -/
theorem orderAccounts_own (ids : List String) (replies : String → Option Value) (model : String)
    (now : Nat) (h : ∀ id reply, replies id = some reply → NoFuller timestamp reply model now) :
    orderAccounts ids (fun id => (replies id).map (geminiAllowanceFromReply timestamp)) model
        quotaShare now =
      orderAccounts ids (fun id => (replies id).map fun reply =>
        geminiAllowanceFromReply timestamp (ownReply reply model)) model quotaShare now := by
  have hsame : ∀ id, ((replies id).map (geminiAllowanceFromReply timestamp)).any
        (fun allowance => allowance.exhausted model quotaShare now) =
      ((replies id).map fun reply => geminiAllowanceFromReply timestamp (ownReply reply model)).any
        fun allowance => allowance.exhausted model quotaShare now := by
    intro id
    cases hreply : replies id with
    | none => rfl
    | some reply => exact ((ownFigures_iff_noFuller reply model now).mpr (h id reply hreply)).2 quotaShare
  unfold orderAccounts
  simp only [hsame]

/-! ### Whatever is left of the models -/

theorem mem_quotaIds {reply : Value} {id : String} :
    id ∈ quotaIds reply ↔ ∃ detail, (id, detail) ∈ modelEntries reply ∧
      (modelWindow timestamp id detail).isSome := by
  unfold quotaIds
  simp only [List.mem_filterMap, Option.map_eq_some_iff, isSome_modelWindow, Option.isSome_iff_exists]
  constructor
  · rintro ⟨⟨id', detail⟩, hentry, quota, hquota, rfl⟩
    exact ⟨detail, hentry, quota, hquota⟩
  · rintro ⟨detail, hentry, quota, hquota⟩
    exact ⟨(id, detail), hentry, quota, hquota, rfl⟩

/-- A reply of these ids, with everything left of one model and nothing of the others. -/
def spentBut (model : String) (ids : List String) : Value :=
  .object [("models", .object (ids.map fun id => (id, .object [("quotaInfo",
    .object [("remainingFraction", .number (.int (if id = model then 1 else 0)))])])))]

theorem modelEntries_spentBut (model : String) (ids : List String) :
    modelEntries (spentBut model ids) = ids.map fun id => (id, .object [("quotaInfo",
      .object [("remainingFraction", .number (.int (if id = model then 1 else 0)))])]) := rfl

theorem quotaIds_spentBut (model : String) (ids : List String) :
    quotaIds (spentBut model ids) = ids := by
  unfold quotaIds
  rw [modelEntries_spentBut, List.filterMap_map]
  exact List.filterMap_some

theorem modelWindow_left (id : String) (left : Int) :
    modelWindow timestamp id (.object [("quotaInfo",
        .object [("remainingFraction", .number (.int left))])]) =
      some ⟨max 0 (min ((1 - (left : Rat)) * 100) 100), none, some id⟩ := by
  have hquota : (Value.object [("quotaInfo",
      .object [("remainingFraction", .number (.int left))])]).get "quotaInfo" =
        some (.object [("remainingFraction", .number (.int left))]) := by
    simp [Value.get]
  have hleft : [("remainingFraction", Value.number (.int left))].lookup "remainingFraction" =
      some (.number (.int left)) := by simp
  have htime : [("remainingFraction", Value.number (.int left))].lookup "resetTime" = none := by simp
  unfold modelWindow
  rw [hquota]
  simp only [Option.bind_eq_bind, Option.bind_some, Value.asObject, hleft, htime, asFraction,
    Option.getD_some, Option.bind_none]

theorem modelWindow_spentBut (model id : String) :
    modelWindow timestamp id (.object [("quotaInfo",
        .object [("remainingFraction", .number (.int (if id = model then 1 else 0)))])]) =
      some ⟨if id = model then 0 else 100, none, some id⟩ := by
  rw [modelWindow_left]
  by_cases hid : id = model
  · rw [if_pos hid, if_pos hid]
    norm_num
  · rw [if_neg hid, if_neg hid]
    norm_num

end

/-- **The figures of a model are those of its own entry** exactly when no other model whose id is a
word of its name has a fuller window; and, whatever is left of the models, exactly when none of the
others has such an id. -/
theorem ownFigures_iff (timestamp : String → Option Int) (reply : Value) (model : String) :
    (∀ now, OwnFigures timestamp reply model now ↔ NoFuller timestamp reply model now) ∧
      ((∀ reply', quotaIds reply' = quotaIds reply → ∀ now, OwnFigures timestamp reply' model now) ↔
        ∀ id ∈ quotaIds reply, Inside id model → id = model) := by
  refine ⟨ownFigures_iff_noFuller reply model, ?_, ?_⟩
  · intro hown id hid hinside
    by_contra hne
    have hfuller := (ownFigures_iff_noFuller _ model 0).mp
      (hown (spentBut model (quotaIds reply)) (quotaIds_spentBut model _) 0)
    have hspent : (id, Value.object [("quotaInfo", .object [("remainingFraction",
        .number (.int (if id = model then 1 else 0)))])]) ∈
          modelEntries (spentBut model (quotaIds reply)) := by
      rw [modelEntries_spentBut]
      exact List.mem_map.mpr ⟨id, hid, rfl⟩
    obtain ⟨detail, own, hentry, hwindow, hle⟩ :=
      hfuller _ hspent hne hinside _ (modelWindow_spentBut model id)
    rw [modelEntries_spentBut, List.mem_map] at hentry
    obtain ⟨id', -, heq⟩ := hentry
    obtain ⟨rfl, rfl⟩ := Prod.mk.inj heq
    rw [modelWindow_spentBut] at hwindow
    obtain rfl := Option.some.inj hwindow
    simp only [Limit.usedNow, hne, if_true, if_false] at hle
    norm_num at hle
  · intro hids reply' hsame now
    rw [ownFigures_iff_noFuller]
    intro entry hentry hne hinside limit hwindow
    refine absurd (hids entry.1 ?_ hinside) hne
    rw [← hsame, mem_quotaIds]
    exact ⟨entry.2, hentry, by rw [hwindow]; rfl⟩

/-- Nothing is left of one model, and everything of another whose name begins with its id. -/
def flashSpent : Value := spentBut "gemini-3.5-flash-lite" ["gemini-3.5-flash", "gemini-3.5-flash-lite"]

theorem flashSpent_exhausts : ¬∀ (timestamp : String → Option Int) (reply : Value) (model : String)
    (now : Nat), OwnFigures timestamp reply model now := by
  intro h
  have hsame := (h (fun _ => none) flashSpent "gemini-3.5-flash-lite" 0).2 95
  revert hsame
  decide +kernel

end AnyConverter.Handlers
