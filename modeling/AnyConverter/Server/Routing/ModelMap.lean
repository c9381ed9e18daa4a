import AnyConverter.Lib.Largest
import AnyConverter.Lib.Table
import AnyConverter.Server.Routing.ModelRoutes

/-!
# The model map of a provider

A provider's map has one target for a name, and is iterated in any order.  A model goes to the target
of its name, else to that of the longest wildcard that takes it, else to that of the star.

* `resolveModel_answers`: the order of these rules;
* `resolveModel_iff`: when the answer does not depend on the order of the map.
-/

set_option autoImplicit false

namespace AnyConverter.Config

/-- A provider whose map is iterated in an order. -/
def providerWith (name : String) (order : Table String String) : ProviderConfig := ⟨name, order.rows⟩

/-- Whether an entry is a wildcard, other than the star alone, that takes a model. -/
def isWildcardFor (model : String) (entry : String × String) : Bool :=
  entry.1 ≠ "*" && entry.1.toList.contains '*' && globMatch entry.1 model

def wildcardsFor (map : Table String String) (model : String) : List (String × String) :=
  map.rows.filter (isWildcardFor model)

/-- One of the longest wildcards that take a model. -/
def IsMostSpecific (map : Table String String) (model : String) (entry : String × String) : Prop :=
  Largest.IsLargest (fun e : String × String => e.1.utf8ByteSize) (wildcardsFor map model) entry

/-- What the rules answer, each where the ones before it do not. -/
inductive Answers (map : Table String String) (model : String) : String → Prop
  | exact {target} : map.find model = some target → Answers map model target
  | wildcard {entry} : map.find model = none → IsMostSpecific map model entry →
    Answers map model entry.2
  | star {target} : map.find model = none → wildcardsFor map model = [] →
    map.find "*" = some target → Answers map model target
  | self : map.find model = none → wildcardsFor map model = [] → map.find "*" = none →
    Answers map model model

/-- The model has an entry of its own, or the longest wildcards that take it have one target. -/
def Unambiguous (map : Table String String) (model : String) : Prop :=
  map.find model = none → ∀ a b, IsMostSpecific map model a → IsMostSpecific map model b → a.2 = b.2

variable {map : Table String String} {model : String}

/-- A pattern without a star takes its own name alone. -/
theorem globMatch_plain {pattern value : String} (hstar : pattern.toList.contains '*' = false)
    (h : globMatch pattern value = true) : pattern = value := by
  have hnot : '*' ∉ pattern.toList := by simpa using hstar
  unfold globMatch at h
  by_cases hall : pattern = "*"
  · rw [hall] at hnot
    exact absurd (by decide : '*' ∈ "*".toList) hnot
  · rw [if_neg hall, if_pos hnot] at h
    exact of_decide_eq_true h

/-- Without an entry of the model's own, the entries that match are the wildcards. -/
theorem longestMatch_eq (h : map.find model = none) : longestMatch model map.rows =
    Largest.first (fun e : String × String => e.1.utf8ByteSize) (wildcardsFor map model) := by
  have hmatch : ∀ entry ∈ map.rows, isWildcardFor model entry =
      (decide (entry.1 ≠ "*") && globMatch entry.1 model) := by
    intro entry hentry
    unfold isWildcardFor
    cases hstar : entry.1.toList.contains '*' with
    | true => rw [Bool.and_true]
    | false =>
      cases hglob : globMatch entry.1 model with
      | false => rw [Bool.and_false, Bool.and_false]
      | true =>
        have hkey := globMatch_plain hstar hglob
        rw [Table.find_eq_none_iff] at h
        exact absurd (List.mem_map.mpr ⟨entry, hentry, hkey⟩) h
  unfold wildcardsFor Largest.first Largest.scan longestMatch
  rw [List.filter_congr hmatch, List.foldl_filter]
  refine congrArg (fun f => List.foldl f none map.rows) (funext fun best => funext fun entry => ?_)
  by_cases hall : entry.1 = "*"
  · simp [hall]
  · cases globMatch entry.1 model with
    | true => simp [hall]
    | false => simp [hall]

theorem resolveModel_exact (name : String) {target : String} (h : map.find model = some target) :
    (providerWith name map).resolveModel model = target := by
  have hlookup : map.rows.lookup model = some target := h
  unfold ProviderConfig.resolveModel providerWith
  rw [hlookup]

theorem resolveModel_wildcard (name : String) (h : map.find model = none) {entry : String × String}
    (hfirst : Largest.first (fun e : String × String => e.1.utf8ByteSize) (wildcardsFor map model) =
      some entry) : (providerWith name map).resolveModel model = entry.2 := by
  have hlookup : map.rows.lookup model = none := h
  unfold ProviderConfig.resolveModel providerWith
  rw [hlookup, longestMatch_eq h, hfirst]

theorem resolveModel_none (name : String) (h : map.find model = none)
    (hnone : wildcardsFor map model = []) :
    (providerWith name map).resolveModel model = (map.find "*").getD model := by
  have hlookup : map.rows.lookup model = none := h
  unfold ProviderConfig.resolveModel providerWith
  rw [hlookup, longestMatch_eq h, hnone]
  rfl

/-- **The rules answer in their order**: the name itself, the longest wildcard, the star, and at last
the name as it is. -/
theorem resolveModel_answers (name : String) (map : Table String String) (model : String) :
    Answers map model ((providerWith name map).resolveModel model) := by
  cases hexact : map.find model with
  | some target =>
    rw [resolveModel_exact name hexact]
    exact .exact hexact
  | none =>
    cases hfirst : Largest.first (fun e : String × String => e.1.utf8ByteSize)
        (wildcardsFor map model) with
    | some entry =>
      rw [resolveModel_wildcard name hexact hfirst]
      exact .wildcard hexact (Largest.first_isLargest hfirst)
    | none =>
      have hnone : wildcardsFor map model = [] := Largest.scan_eq_none.mp hfirst
      rw [resolveModel_none name hexact hnone]
      cases hstar : map.find "*" with
      | some target => exact .star hexact hnone hstar
      | none => exact .self hexact hnone hstar

/-! ## Two orders of a map -/

theorem IsMostSpecific.same {order : Table String String} (hsame : order.Same map)
    {entry : String × String} (h : IsMostSpecific map model entry) :
    IsMostSpecific order model entry :=
  Largest.IsLargest.perm h (hsame.filter _)

/-- A longest wildcard is the one that answers in some order of the map. -/
theorem exists_order (name : String) (h : map.find model = none) {entry : String × String}
    (hentry : IsMostSpecific map model entry) :
    ∃ order : Table String String, order.Same map ∧
      (providerWith name order).resolveModel model = entry.2 := by
  have hmem : entry ∈ map.rows := List.mem_of_mem_filter hentry.1
  have hperm : map.rows.Perm (entry :: map.rows.erase entry) := List.perm_cons_erase hmem
  have hnodup : ((entry :: map.rows.erase entry).map Prod.fst).Nodup :=
    (hperm.map Prod.fst).nodup_iff.mp map.keys_nodup
  refine ⟨⟨entry :: map.rows.erase entry, hnodup⟩, hperm.symm, ?_⟩
  have hsame : Table.Same ⟨entry :: map.rows.erase entry, hnodup⟩ map := hperm.symm
  have htakes : isWildcardFor model entry = true := (List.mem_filter.mp hentry.1).2
  have hlargest := hentry.same hsame
  refine resolveModel_wildcard name ?_ ?_
  · rw [Table.same_iff.mp hsame, h]
  · unfold IsMostSpecific wildcardsFor at hlargest
    unfold wildcardsFor
    rw [List.filter_cons_of_pos htakes] at hlargest ⊢
    exact Largest.first_cons hlargest

/-- **The answer is a function of the map, and follows the rules,** exactly when the model has an
entry of its own or the longest wildcards that take it have one target. -/
theorem resolveModel_iff (name : String) (map : Table String String) (model : String) :
    (∀ order : Table String String, order.Same map →
      (providerWith name order).resolveModel model = (providerWith name map).resolveModel model ∧
        Answers map model ((providerWith name order).resolveModel model)) ↔ Unambiguous map model := by
  constructor
  · intro h hnone a b ha hb
    obtain ⟨first, hfirst, hanswer⟩ := exists_order name hnone ha
    obtain ⟨second, hsecond, hanswer'⟩ := exists_order name hnone hb
    rw [← hanswer, ← hanswer', (h first hfirst).1, (h second hsecond).1]
  · intro hone order hsame
    have heq : (providerWith name order).resolveModel model =
        (providerWith name map).resolveModel model := by
      have hfind : ∀ key, order.find key = map.find key := Table.same_iff.mp hsame
      have hwildcards : (wildcardsFor order model).Perm (wildcardsFor map model) :=
        hsame.filter (isWildcardFor model)
      have hempty : wildcardsFor order model = [] ↔ wildcardsFor map model = [] := by
        rw [← List.length_eq_zero_iff, hwildcards.length_eq, List.length_eq_zero_iff]
      have hback : map.Same order := List.Perm.symm hsame
      generalize hleft : (providerWith name order).resolveModel model = left
      generalize hright : (providerWith name map).resolveModel model = right
      have hleft' := resolveModel_answers name order model
      have hright' := resolveModel_answers name map model
      rw [hleft] at hleft'
      rw [hright] at hright'
      cases hright' with
      | exact hfound =>
        rw [← hfind] at hfound
        rw [← hleft, resolveModel_exact name hfound]
      | wildcard hnone hentry =>
        cases hleft' with
        | exact hfound =>
          rw [hfind, hnone] at hfound
          cases hfound
        | wildcard _ hentry' => exact hone hnone _ _ (hentry'.same hback) hentry
        | star _ hnil _ | self _ hnil _ =>
          rw [hempty] at hnil
          exact absurd hentry.1 (by rw [hnil]; exact List.not_mem_nil)
      | star hnone hnil hstar =>
        rw [← hempty] at hnil
        rw [← hfind] at hnone hstar
        rw [← hleft, resolveModel_none name hnone hnil, hstar, Option.getD_some]
      | self hnone hnil hstar =>
        rw [← hempty] at hnil
        rw [← hfind] at hnone hstar
        rw [← hleft, resolveModel_none name hnone hnil, hstar, Option.getD_none]
    exact ⟨heq, heq ▸ resolveModel_answers name map model⟩

/-- Two wildcards of one length take the model, and the first in the order answers. -/
theorem resolveModel_orders_differ :
    Table.Same (⟨[("*b", "y"), ("a*", "x")], by decide⟩ : Table String String)
      ⟨[("a*", "x"), ("*b", "y")], by decide⟩ ∧
    (providerWith "p" ⟨[("a*", "x"), ("*b", "y")], by decide⟩).resolveModel "ab" = "x" ∧
    (providerWith "p" ⟨[("*b", "y"), ("a*", "x")], by decide⟩).resolveModel "ab" = "y" :=
  ⟨List.Perm.swap _ _ _, by decide +kernel, by decide +kernel⟩

end AnyConverter.Config
