import Mathlib.Data.List.Infix

/-!
# `LIKE`

The pattern operator of SQLite: `%` takes any text and `_` any character; a letter of ASCII takes
itself in both cases, and any other character only itself.

* `like_infix_iff`: a literal between percent signs is looked for in a text;
* `like_fill`: what a pattern takes whatever its wildcards stand for.
-/

set_option autoImplicit false

namespace Like

def like : List Char → List Char → Bool
  | [], cs => cs.isEmpty
  | p :: ps, cs =>
    if p = '%' then cs.tails.any (like ps)
    else match cs with
      | [] => false
      | c :: cs => (p = '_' || p.toLower = c.toLower) && like ps cs

def IsWildcard (c : Char) : Prop := c = '%' ∨ c = '_'

instance : DecidablePred IsWildcard := fun c => by
  unfold IsWildcard
  infer_instance

/-- A text between two percent signs. -/
def containing (ps : List Char) : List Char := '%' :: (ps ++ ['%'])

/-! ## Cases of ASCII -/

theorem toLower_cases (c : Char) : c.toLower = c ∨
    (65 ≤ c.toNat ∧ c.toNat ≤ 90) ∧ c.toLower.toNat = c.toNat + 32 := by
  unfold Char.toLower
  split
  · rename_i h
    have hlow : 65 ≤ c.toNat := UInt32.le_iff_toNat_le.mp h.1
    have hhigh : c.toNat ≤ 90 := UInt32.le_iff_toNat_le.mp h.2
    refine Or.inr ⟨⟨hlow, hhigh⟩, ?_⟩
    show (c.val + ('a'.val - 'A'.val)).toNat = c.val.toNat + 32
    rw [UInt32.toNat_add]
    have hdiff : ('a'.val - 'A'.val).toNat = 32 := rfl
    have hval : c.val.toNat ≤ 90 := hhigh
    omega
  · exact Or.inl rfl

/-- A character that is no small letter is lowered only to itself. -/
theorem eq_of_toLower_eq {c d : Char} (h : c.toLower = d) (hd : d.toNat < 97 ∨ 122 < d.toNat) :
    c = d := by
  rcases toLower_cases c with hself | ⟨hupper, hlower⟩
  · exact hself.symm.trans h
  · rw [h] at hlower
    omega

theorem toLower_toLower (c : Char) : c.toLower.toLower = c.toLower := by
  rcases toLower_cases c with hself | ⟨hupper, hlower⟩
  · rw [hself, hself]
  · rcases toLower_cases c.toLower with hself | ⟨hupper', -⟩
    · exact hself
    · omega

/-! ## Literals -/

theorem like_percent (ps cs : List Char) : like ('%' :: ps) cs = cs.tails.any (like ps) := by
  cases cs <;> simp only [like, if_true]

theorem like_cons_nil {p : Char} (h : p ≠ '%') (ps : List Char) : like (p :: ps) [] = false := by
  simp only [like, if_neg h]

theorem like_cons_cons {p : Char} (h : p ≠ '%') (ps : List Char) (c : Char) (cs : List Char) :
    like (p :: ps) (c :: cs) = ((p = '_' || p.toLower = c.toLower) && like ps cs) := by
  simp only [like, if_neg h]

theorem like_end (cs : List Char) : like ['%'] cs = true := by
  rw [like_percent, List.any_eq_true]
  exact ⟨[], (List.mem_tails _ _).mpr List.nil_suffix, rfl⟩

/-- A literal with anything behind it. -/
theorem like_literal_iff {ps : List Char} (h : ∀ p ∈ ps, ¬IsWildcard p) (cs : List Char) :
    like (ps ++ ['%']) cs = true ↔ ps.map Char.toLower <+: cs.map Char.toLower := by
  induction ps generalizing cs with
  | nil => exact iff_of_true (like_end cs) List.nil_prefix
  | cons p ps ih =>
    have hp : ¬(p = '%' ∨ p = '_') := h p List.mem_cons_self
    rw [not_or] at hp
    rw [List.cons_append]
    cases cs with
    | nil =>
      rw [like_cons_nil hp.1]
      exact iff_of_false Bool.false_ne_true fun hprefix => absurd (List.prefix_nil.mp hprefix) (by simp)
    | cons c cs =>
      rw [like_cons_cons hp.1, Bool.and_eq_true, ih fun q hq => h q (List.mem_cons_of_mem p hq),
        List.map_cons, List.map_cons, List.cons_prefix_cons]
      simp [hp.2]

/-- **A literal between percent signs** is looked for in the text, in either case of ASCII. -/
theorem like_infix_iff {ps : List Char} (h : ∀ p ∈ ps, ¬IsWildcard p) (cs : List Char) :
    like (containing ps) cs = true ↔ ps.map Char.toLower <:+: cs.map Char.toLower := by
  rw [containing, like_percent, List.any_eq_true]
  simp only [List.mem_tails, like_literal_iff h]
  constructor
  · rintro ⟨tail, htail, hprefix⟩
    exact hprefix.isInfix.trans (htail.isInfix.map Char.toLower)
  · rw [List.infix_map_iff]
    rintro ⟨w, ⟨before, after, rfl⟩, hsame⟩
    refine ⟨w ++ after, ⟨before, by rw [List.append_assoc]⟩, ?_⟩
    rw [hsame, List.map_append]
    exact List.prefix_append _ _

/-! ## Wildcards -/

/-- A pattern with its wildcards filled in: nothing for `%`, an `a` for `_`. -/
def fill (p : Char) : List Char := if p = '%' then [] else if p = '_' then ['a'] else [p.toLower]

theorem fill_literal {p : Char} (hpercent : p ≠ '%') (hunder : p ≠ '_') : fill p = [p.toLower] := by
  rw [fill, if_neg hpercent, if_neg hunder]

/-- What fills a pattern is no wildcard, and in the lower case of ASCII. -/
theorem fill_spec {ps : List Char} {c : Char} (h : c ∈ ps.flatMap fill) :
    ¬IsWildcard c ∧ c.toLower = c := by
  obtain ⟨p, -, hc⟩ := List.mem_flatMap.mp h
  by_cases hpercent : p = '%'
  · rw [hpercent] at hc
    cases hc
  · by_cases hunder : p = '_'
    · rw [hunder] at hc
      rw [List.mem_singleton.mp hc]
      decide
    · rw [fill_literal hpercent hunder] at hc
      rw [List.mem_singleton.mp hc]
      refine ⟨?_, toLower_toLower p⟩
      rintro (heq | heq)
      · exact hpercent (eq_of_toLower_eq heq (by decide))
      · exact hunder (eq_of_toLower_eq heq (by decide))

theorem map_toLower_fill (ps : List Char) :
    (ps.flatMap fill).map Char.toLower = ps.flatMap fill :=
  (List.map_congr_left fun _ hc => (fill_spec hc).2).trans (List.map_id _)

/-- **A pattern takes what fills it.** -/
theorem like_fill (ps : List Char) : like (containing ps) (ps.flatMap fill) = true := by
  have hbehind : like (ps ++ ['%']) (ps.flatMap fill) = true := by
    induction ps with
    | nil => rfl
    | cons p ps ih =>
      rw [List.cons_append, List.flatMap_cons]
      by_cases hpercent : p = '%'
      · subst hpercent
        rw [like_percent, List.any_eq_true]
        exact ⟨_, (List.mem_tails _ _).mpr (List.suffix_refl _), ih⟩
      · by_cases hunder : p = '_'
        · subst hunder
          exact (like_cons_cons hpercent _ 'a' _).trans ih
        · rw [fill_literal hpercent hunder, List.singleton_append, like_cons_cons hpercent, ih,
            toLower_toLower]
          simp
  rw [containing, like_percent, List.any_eq_true]
  exact ⟨_, (List.mem_tails _ _).mpr (List.suffix_refl _), hbehind⟩

end Like
