import Mathlib.Data.Prod.Lex
import Mathlib.Data.String.Basic
import Mathlib.Order.WithBot
import AnyConverter.Lib.Canonical
import AnyConverter.Wiring.Spec.Basic

/-!
# The digest of a model catalog

A lazy sync compares digests: the models are sorted, each is written as a row of its fields with a
NUL after each but the last and a line feed at the end, and the rows are hashed.

* `stable_eq_iff_perm`: the rows tell what is in a catalog, as long as no field holds a NUL;
* `catalogs_told_iff`: which characters may be allowed in the fields, and which catalogs have a text
  of their own.
-/

set_option autoImplicit false

namespace AnyConverter

open Canonical

namespace CatalogModel

/-- What the models are sorted by: every field, an unknown context window first. -/
def key (m : CatalogModel) : String ×ₗ String ×ₗ Bool ×ₗ WithBot Nat :=
  toLex (m.id, toLex (m.name, toLex (m.reasoning, m.contextTokens)))

def context (m : CatalogModel) : String :=
  match m.contextTokens with
  | some tokens => toString tokens
  | none => "-"

/-- `{id}\0{name}\0{reasoning}\0{context}\n` -/
def row (m : CatalogModel) : String :=
  m.id ++ "\x00" ++ m.name ++ "\x00" ++ toString m.reasoning ++ "\x00" ++ m.context ++ "\n"

end CatalogModel

namespace ModelCatalog

/-- What is hashed. -/
def stable (models : List CatalogModel) : String :=
  String.join ((sortOn CatalogModel.key models).map CatalogModel.row)

/-- `ModelCatalog::digest` -/
def digest (sha256Hex : List UInt8 → String) (models : List CatalogModel) : String :=
  sha256Hex (utf8 (stable models))

/-- The identifiers and names are made of these characters. -/
def Over (allowed : Char → Prop) (models : List CatalogModel) : Prop :=
  ∀ m ∈ models, (∀ c ∈ m.id.toList, allowed c) ∧ ∀ c ∈ m.name.toList, allowed c

end ModelCatalog

/-! ## Rows -/

namespace CatalogModel

theorem key_injective : Function.Injective key := by
  rintro ⟨id, name, reasoning, contextTokens⟩ ⟨id', name', reasoning', contextTokens'⟩ h
  obtain ⟨hid, h⟩ := Prod.mk.inj (toLex.injective h)
  obtain ⟨hname, h⟩ := Prod.mk.inj (toLex.injective h)
  obtain ⟨hreasoning, hcontext⟩ := Prod.mk.inj (toLex.injective h)
  rw [CatalogModel.mk.injEq]
  exact ⟨hid, hname, hreasoning, hcontext⟩

theorem row_toList (m : CatalogModel) :
    m.row.toList = m.id.toList ++ '\x00' :: (m.name.toList ++ '\x00' ::
      ((toString m.reasoning).toList ++ '\x00' :: (m.context.toList ++ ['\n']))) := by
  simp [row]

theorem row_ne_nil (m : CatalogModel) : m.row.toList ≠ [] := by
  rw [row_toList]
  simp

theorem toString_bool_injective : Function.Injective (toString : Bool → String) := by
  intro a b h
  cases a <;> cases b
  · rfl
  · exact absurd h (by decide)
  · exact absurd h (by decide)
  · rfl

theorem nul_not_mem_reasoning (m : CatalogModel) : '\x00' ∉ (toString m.reasoning).toList := by
  cases m.reasoning <;> decide

theorem isDigit_or_of_mem_context {m : CatalogModel} {c : Char} (h : c ∈ m.context.toList) :
    c.isDigit = true ∨ c = '-' := by
  unfold context at h
  split at h
  · rename_i tokens _
    have hmem : c ∈ Nat.toDigits 10 tokens := by simpa using h
    exact Or.inl (Nat.isDigit_of_mem_toDigits (by decide) (by decide) hmem)
  · exact Or.inr (by simpa using h)

theorem nul_not_mem_context (m : CatalogModel) : '\x00' ∉ m.context.toList := by
  intro h
  rcases isDigit_or_of_mem_context h with hdigit | hdash
  · exact absurd hdigit (by decide)
  · exact absurd hdash (by decide)

theorem lineFeed_not_mem_context (m : CatalogModel) : '\n' ∉ m.context.toList := by
  intro h
  rcases isDigit_or_of_mem_context h with hdigit | hdash
  · exact absurd hdigit (by decide)
  · exact absurd hdash (by decide)

/-- A context window is read back from its text. -/
theorem contextTokens_eq {m m' : CatalogModel} (h : m.context.toList = m'.context.toList) :
    m.contextTokens = m'.contextTokens := by
  have hread : ∀ {tokens : Nat}, (toString tokens).toList = Nat.toDigits 10 tokens := by
    intro tokens
    simp
  unfold context at h
  cases hm : m.contextTokens with
  | none =>
    cases hm' : m'.contextTokens with
    | none => rfl
    | some tokens =>
      rw [hm, hm', hread] at h
      have hdash : '-' ∈ Nat.toDigits 10 tokens := by
        rw [← h]
        exact List.mem_singleton_self _
      exact absurd (Nat.isDigit_of_mem_toDigits (by decide) (by decide) hdash) (by decide)
  | some tokens =>
    cases hm' : m'.contextTokens with
    | none =>
      rw [hm, hm', hread] at h
      have hdash : '-' ∈ Nat.toDigits 10 tokens := by
        rw [h]
        exact List.mem_singleton_self _
      exact absurd (Nat.isDigit_of_mem_toDigits (by decide) (by decide) hdash) (by decide)
    | some tokens' =>
      rw [hm, hm', hread, hread] at h
      have hvalue := congrArg (Nat.ofDigitChars 10 · 0) h
      simpa [Nat.ofDigitChars_ten_toDigits] using hvalue

/-- **A row can be told from what follows it** when its fields hold no NUL. -/
theorem row_append_inj {m m' : CatalogModel} {x y : List Char}
    (hid : '\x00' ∉ m.id.toList) (hname : '\x00' ∉ m.name.toList)
    (hid' : '\x00' ∉ m'.id.toList) (hname' : '\x00' ∉ m'.name.toList)
    (h : m.row.toList ++ x = m'.row.toList ++ y) : m = m' ∧ x = y := by
  simp only [row_toList, List.append_assoc, List.cons_append, List.nil_append] at h
  obtain ⟨h1, h⟩ := append_separator_inj hid hid' h
  obtain ⟨h2, h⟩ := append_separator_inj hname hname' h
  obtain ⟨h3, h⟩ := append_separator_inj (nul_not_mem_reasoning m) (nul_not_mem_reasoning m') h
  obtain ⟨h4, h⟩ := append_separator_inj (lineFeed_not_mem_context m) (lineFeed_not_mem_context m') h
  refine ⟨?_, h⟩
  obtain ⟨id, name, reasoning, contextTokens⟩ := m
  obtain ⟨id', name', reasoning', contextTokens'⟩ := m'
  have hcontext := contextTokens_eq h4
  have hreasoning := toString_bool_injective (String.toList_inj.mp h3)
  simp only at h1 h2 hcontext hreasoning
  rw [String.toList_inj.mp h1, String.toList_inj.mp h2, hreasoning, hcontext]

theorem count_nul_row (m : CatalogModel) :
    m.row.toList.count '\x00' = m.id.toList.count '\x00' + m.name.toList.count '\x00' + 3 := by
  have hreasoning := List.count_eq_zero.mpr (nul_not_mem_reasoning m)
  have hcontext := List.count_eq_zero.mpr (nul_not_mem_context m)
  rw [row_toList]
  simp only [List.count_append, List.count_cons, List.count_nil, hreasoning, hcontext]
  simp
  omega

end CatalogModel

/-! ## Catalogs -/

namespace ModelCatalog

theorem stable_toList (models : List CatalogModel) : (stable models).toList =
    (sortOn CatalogModel.key models).flatMap fun m => m.row.toList := by
  rw [stable, String.toList_join, List.flatMap_map]

/-- Reordered models are hashed alike. -/
theorem stable_of_perm {c c' : List CatalogModel} (h : c.Perm c') : stable c = stable c' := by
  rw [stable, stable, (sortOn_eq_iff CatalogModel.key_injective).mpr h]

/-- **The rows tell what is in a catalog**, as long as no identifier and no name holds a NUL. -/
theorem stable_eq_iff_perm {c c' : List CatalogModel} (hc : Over (· ≠ '\x00') c)
    (hc' : Over (· ≠ '\x00') c') : stable c = stable c' ↔ c.Perm c' := by
  refine ⟨fun h => ?_, stable_of_perm⟩
  have hfree : ∀ {models : List CatalogModel}, Over (· ≠ '\x00') models →
      ∀ m ∈ sortOn CatalogModel.key models,
        '\x00' ∉ m.id.toList ∧ '\x00' ∉ m.name.toList := by
    intro models hover m hm
    obtain ⟨hid, hname⟩ := hover m ((sortOn_perm _ _).mem_iff.mp hm)
    exact ⟨fun hmem => hid _ hmem rfl, fun hmem => hname _ hmem rfl⟩
  rw [← String.toList_inj, stable_toList, stable_toList] at h
  have hsame := flatMap_inj CatalogModel.row_ne_nil
    (fun m m' x y hm hm' h => CatalogModel.row_append_inj hm.1 hm.2 hm'.1 hm'.2 h)
    (hfree hc) (hfree hc') h
  exact (sortOn_eq_iff CatalogModel.key_injective).mp hsame

theorem stable_singleton (m : CatalogModel) : stable [m] = m.row := by
  simp [stable, sortOn, List.mergeSort_singleton]

theorem stable_eq_empty_iff {c : List CatalogModel} : stable c = "" ↔ c = [] := by
  constructor
  · intro h
    rw [← String.toList_inj, stable_toList] at h
    cases c with
    | nil => rfl
    | cons m c =>
      have hm : m ∈ sortOn CatalogModel.key (m :: c) :=
        (sortOn_perm _ _).mem_iff.mpr List.mem_cons_self
      exact absurd (List.flatMap_eq_nil_iff.mp h m hm) m.row_ne_nil
  · rintro rfl
    simp [stable, sortOn]

/-! ## Collisions -/

/-- Two rows and what is between them are the row of one model: its name runs from the first name to
the last. -/
theorem row_swallowing (m last : CatalogModel) (mid : String) :
    ∃ whole : CatalogModel, whole.row = m.row ++ mid ++ last.row := by
  refine ⟨⟨m.id, m.name ++ "\x00" ++ toString m.reasoning ++ "\x00" ++ m.context ++ "\n" ++ mid ++
    last.id ++ "\x00" ++ last.name, last.reasoning, last.contextTokens⟩, ?_⟩
  simp only [CatalogModel.row, CatalogModel.context, String.append_assoc]

/-- **More than one model**: one model is hashed alike. -/
theorem exists_stable_singleton {c : List CatalogModel} (h : 2 ≤ c.length) :
    ∃ whole, stable [whole] = stable c := by
  have hlen : (sortOn CatalogModel.key c).length = c.length :=
    (sortOn_perm _ _).length_eq
  obtain ⟨front, last, hsorted⟩ : ∃ front last,
      sortOn CatalogModel.key c = front ++ [last] := by
    rcases List.eq_nil_or_concat (sortOn CatalogModel.key c) with hnil | ⟨front, last, heq⟩
    · rw [hnil, List.length_nil] at hlen
      omega
    · exact ⟨front, last, by simpa using heq⟩
  cases front with
  | nil =>
    rw [hsorted] at hlen
    simp at hlen
    omega
  | cons m mid =>
    obtain ⟨whole, hwhole⟩ := row_swallowing m last (String.join (mid.map CatalogModel.row))
    refine ⟨whole, ?_⟩
    rw [stable_singleton, hwhole, stable, hsorted, ← String.toList_inj]
    simp

/-- **A NUL in a field**: another model is hashed alike. -/
theorem exists_row_eq {m : CatalogModel} (h : '\x00' ∈ m.id.toList ∨ '\x00' ∈ m.name.toList) :
    ∃ m', m' ≠ m ∧ m'.row = m.row := by
  rcases h with h | h
  · obtain ⟨front, back, hid⟩ := List.append_of_mem h
    refine ⟨⟨String.ofList front, String.ofList back ++ "\x00" ++ m.name, m.reasoning,
      m.contextTokens⟩, ?_, ?_⟩
    · intro heq
      have hfront := congrArg (fun m : CatalogModel => m.id.toList.length) heq
      simp [hid] at hfront
    · rw [← String.toList_inj, CatalogModel.row_toList, CatalogModel.row_toList, hid]
      simp [CatalogModel.context]
  · obtain ⟨front, back, hname⟩ := List.append_of_mem h
    refine ⟨⟨m.id ++ "\x00" ++ String.ofList front, String.ofList back, m.reasoning,
      m.contextTokens⟩, ?_, ?_⟩
    · intro heq
      have hback := congrArg (fun m : CatalogModel => m.name.toList.length) heq
      simp [hname] at hback
      omega
    · rw [← String.toList_inj, CatalogModel.row_toList, CatalogModel.row_toList, hname]
      simp [CatalogModel.context]

/-- Every row has three NULs of its own. -/
theorem three_mul_length_le (models : List CatalogModel) :
    3 * models.length ≤ (models.flatMap fun m => m.row.toList).count '\x00' := by
  induction models with
  | nil => exact Nat.le_refl 0
  | cons m models ih =>
    rw [List.flatMap_cons, List.count_append, CatalogModel.count_nul_row, List.length_cons]
    omega

/-- One model without a NUL in its fields has a text like no other catalog. -/
theorem eq_singleton_of_stable {m : CatalogModel} (hid : '\x00' ∉ m.id.toList)
    (hname : '\x00' ∉ m.name.toList) {c : List CatalogModel} (h : stable [m] = stable c) : c = [m] := by
  rw [stable_singleton, ← String.toList_inj, stable_toList] at h
  have hcount := CatalogModel.count_nul_row m
  rw [List.count_eq_zero.mpr hid, List.count_eq_zero.mpr hname, h] at hcount
  have hrows := three_mul_length_le (sortOn CatalogModel.key c)
  have hperm := sortOn_perm CatalogModel.key c
  match hsorted : sortOn CatalogModel.key c with
  | [] =>
    rw [hsorted, List.flatMap_nil] at h
    exact absurd h m.row_ne_nil
  | [m'] =>
    rw [hsorted, List.flatMap_singleton] at h hcount
    have hfree := CatalogModel.count_nul_row m'
    have hid' : '\x00' ∉ m'.id.toList := List.count_eq_zero.mp (by omega)
    have hname' : '\x00' ∉ m'.name.toList := List.count_eq_zero.mp (by omega)
    have hsame : m.row.toList ++ [] = m'.row.toList ++ [] := by rw [h]
    rw [hsorted, ← (CatalogModel.row_append_inj hid hname hid' hname' hsame).1] at hperm
    exact List.perm_singleton.mp hperm.symm
  | _ :: _ :: rest =>
    rw [hsorted] at hrows hcount
    simp only [List.length_cons] at hrows
    omega

theorem told_over_iff (allowed : Char → Prop) :
    (∀ c c', Over allowed c → Over allowed c' → (stable c = stable c' ↔ c.Perm c')) ↔
      ¬allowed '\x00' := by
  constructor
  · intro h hnul
    have hover : ∀ id name, (∀ c ∈ id.toList, c = '\x00') → (∀ c ∈ name.toList, c = '\x00') →
        Over allowed [⟨id, name, false, none⟩] := by
      intro id name hid hname m hm
      rw [List.mem_singleton.mp hm]
      exact ⟨fun c hc => hid c hc ▸ hnul, fun c hc => hname c hc ▸ hnul⟩
    have hsame : stable [⟨"\x00", "", false, none⟩] = stable [⟨"", "\x00", false, none⟩] := by
      rw [stable_singleton, stable_singleton, ← String.toList_inj]
      decide
    have hperm := (h _ _ (hover "\x00" "" (by simp) (by simp))
      (hover "" "\x00" (by simp) (by simp))).mp hsame
    exact absurd hperm (by decide)
  · intro hnul c c' hc hc'
    have hfree : ∀ {models : List CatalogModel}, Over allowed models → Over (· ≠ '\x00') models := by
      intro models hover m hm
      exact ⟨fun ch hch heq => hnul (heq ▸ (hover m hm).1 ch hch),
        fun ch hch heq => hnul (heq ▸ (hover m hm).2 ch hch)⟩
    exact stable_eq_iff_perm (hfree hc) (hfree hc')

theorem told_from_all_iff (c : List CatalogModel) :
    (∀ c', stable c = stable c' ↔ c.Perm c') ↔
      c = [] ∨ ∃ m, c = [m] ∧ '\x00' ∉ m.id.toList ∧ '\x00' ∉ m.name.toList := by
  constructor
  · intro h
    match c with
    | [] => exact Or.inl rfl
    | [m] =>
      refine Or.inr ⟨m, rfl, ?_⟩
      by_contra hnul
      obtain ⟨m', hne, hrow⟩ := exists_row_eq (m := m) (by tauto)
      have hperm := (h [m']).mp (by rw [stable_singleton, stable_singleton, hrow])
      exact hne (List.perm_singleton.mp hperm.symm |> List.singleton_inj.mp)
    | m :: m' :: rest =>
      obtain ⟨whole, hwhole⟩ := exists_stable_singleton (c := m :: m' :: rest) (by simp)
      have hperm := (h [whole]).mp hwhole.symm
      exact absurd hperm.length_eq (by simp)
  · rintro (rfl | ⟨m, rfl, hid, hname⟩) c'
    · refine ⟨fun h => ?_, stable_of_perm⟩
      rw [stable_eq_empty_iff.mp (h.symm.trans (stable_eq_empty_iff.mpr rfl))]
    · refine ⟨fun h => ?_, stable_of_perm⟩
      rw [eq_singleton_of_stable hid hname h]

/-- **When the digest tells catalogs apart**: with the characters that may be in a field, exactly when
NUL is not one of them; and a catalog from all others, exactly when it is empty, or one model without
a NUL. -/
theorem catalogs_told_iff (allowed : Char → Prop) (c : List CatalogModel) :
    ((∀ d d', Over allowed d → Over allowed d' → (stable d = stable d' ↔ d.Perm d')) ↔
        ¬allowed '\x00') ∧
      ((∀ c', stable c = stable c' ↔ c.Perm c') ↔
        c = [] ∨ ∃ m, c = [m] ∧ '\x00' ∉ m.id.toList ∧ '\x00' ∉ m.name.toList) :=
  ⟨told_over_iff allowed, told_from_all_iff c⟩

/-- Two models of one name and identifier, cut at another place. -/
theorem nul_moves : ¬∀ c c', stable c = stable c' ↔ c.Perm c' := by
  intro h
  have hsame : stable [⟨"gpt\x00codex", "GPT", false, none⟩] =
      stable [⟨"gpt", "codex\x00GPT", false, none⟩] := by
    rw [stable_singleton, stable_singleton, ← String.toList_inj]
    decide
  exact absurd ((h _ _).mp hsame) (by decide)

end ModelCatalog

end AnyConverter
