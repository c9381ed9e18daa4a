import Mathlib.Data.List.Nodup
import AnyConverter.Lib.Largest
import AnyConverter.Lib.Text
import AnyConverter.Server.RequestLog.Pricing

/-!
# Prices by the beginning of a model's name

A table has its prices under the beginning of a model's name, with or without a star behind it.  The
beginning decides which entries a model has, and the length of the key, its star included, which of
these is taken.

* `longer_literal`: which entry is passed over for a shorter beginning;
* `resolve_iff`: when the longest beginning wins.
-/

set_option autoImplicit false

namespace AnyConverter.RequestLog

/-- The keys of a table are in order. -/
structure PriceTable where
  prices : List (String × Price)
  sorted : prices.Pairwise fun a b => a.1 < b.1

/-- A key without the star at its end. -/
def literal (pattern : String) : List Char :=
  if pattern.toList.getLast? = some '*' then pattern.toList.dropLast else pattern.toList

namespace PriceTable

/-- The entries a model's name begins with. -/
def candidates (t : PriceTable) (model : String) : List (String × Price) :=
  t.prices.filter fun entry => (literal entry.1).isPrefixOf model.toList

/-- The price of a model: of the entries with the longest key, the last one's. -/
def resolve (t : PriceTable) (model : String) : Option Price :=
  (Largest.last (fun entry : String × Price => entry.1.utf8ByteSize) (t.candidates model)).map Prod.snd

/-- The price is that of an entry with the longest beginning, and there is none for a model that begins
with no entry. -/
structure LongestPrefix (t : PriceTable) (model : String) (answer : Option Price) : Prop where
  none : answer = none ↔ ∀ entry ∈ t.prices, ¬literal entry.1 <+: model.toList
  some : ∀ price, answer = some price → ∃ entry ∈ t.prices, entry.2 = price ∧
    literal entry.1 <+: model.toList ∧ ∀ other ∈ t.prices, literal other.1 <+: model.toList →
      (literal other.1).length ≤ (literal entry.1).length

/-- No entry of the model has a longer key than two: one ends with a star, and the other has a character
in its place that comes before the star, and another price. -/
def Shadowed (t : PriceTable) (model : String) : Prop :=
  ∃ stem c starred plain, (String.ofList (stem ++ ['*']), starred) ∈ t.prices ∧
    (String.ofList (stem ++ [c]), plain) ∈ t.prices ∧ c < '*' ∧ stem ++ [c] <+: model.toList ∧
    starred ≠ plain ∧ ∀ entry ∈ t.prices, literal entry.1 <+: model.toList →
      entry.1.utf8ByteSize ≤ (String.ofList (stem ++ ['*'])).utf8ByteSize

end PriceTable

/-! ## Keys -/

/-- The length of a text in bytes. -/
def bytes (cs : List Char) : Nat := (String.ofList cs).utf8ByteSize

theorem bytes_append (xs ys : List Char) : bytes (xs ++ ys) = bytes xs + bytes ys := by
  unfold bytes
  rw [String.ofList_append, String.utf8ByteSize_append]

theorem bytes_eq_zero {cs : List Char} : bytes cs = 0 ↔ cs = [] := by
  unfold bytes
  rw [String.utf8ByteSize_eq_zero_iff]
  constructor
  · intro h
    rw [← String.toList_ofList (l := cs), h]
    rfl
  · rintro rfl
    rfl

theorem bytes_singleton (c : Char) : bytes [c] = c.utf8Size := String.utf8ByteSize_singleton

theorem bytes_star : bytes ['*'] = 1 := by
  rw [bytes_singleton]
  decide

/-- A character before the star has one byte. -/
theorem bytes_of_lt {c : Char} (h : c < '*') : bytes [c] = 1 := by
  rw [bytes_singleton, Char.utf8Size_eq_one_iff]
  have hlt : c.val.toNat < '*'.val.toNat := UInt32.lt_iff_toNat_lt.mp h
  have hstar : '*'.val.toNat = 42 := rfl
  rw [UInt32.le_iff_toNat_le]
  show c.val.toNat ≤ 127
  omega

/-- A text of one byte is one character. -/
theorem eq_singleton_of_bytes {cs : List Char} (h : bytes cs = 1) : ∃ c, cs = [c] := by
  cases cs with
  | nil => cases (bytes_eq_zero.mpr rfl).symm.trans h
  | cons c cs =>
    have hsplit : bytes (c :: cs) = bytes [c] + bytes cs := bytes_append [c] cs
    have hone : bytes [c] ≠ 0 := fun hzero => List.cons_ne_nil c [] (bytes_eq_zero.mp hzero)
    rw [bytes_eq_zero.mp (by omega : bytes cs = 0)]
    exact ⟨c, rfl⟩

/-- Of two beginnings of a name, one is that of the other. -/
theorem eq_of_bytes {xs ys name : List Char} (hxs : xs <+: name) (hys : ys <+: name)
    (h : bytes xs = bytes ys) : xs = ys := by
  rcases List.prefix_or_prefix_of_prefix hxs hys with ⟨r, rfl⟩ | ⟨r, rfl⟩
  · rw [bytes_append] at h
    rw [bytes_eq_zero.mp (by omega : bytes r = 0), List.append_nil]
  · rw [bytes_append] at h
    rw [bytes_eq_zero.mp (by omega : bytes r = 0), List.append_nil]

/-- A key is its beginning, or that with a star behind it. -/
theorem literal_cases (pattern : String) :
    (pattern = String.ofList (literal pattern ++ ['*']) ∧
      pattern.utf8ByteSize = bytes (literal pattern) + 1) ∨
    (pattern = String.ofList (literal pattern) ∧ pattern.utf8ByteSize = bytes (literal pattern)) := by
  by_cases hstar : pattern.toList.getLast? = some '*'
  · have hlist : literal pattern ++ ['*'] = pattern.toList := by
      unfold literal
      rw [if_pos hstar]
      exact List.dropLast_append_getLast? '*' hstar
    have hpattern : pattern = String.ofList (literal pattern ++ ['*']) := by
      rw [hlist, String.ofList_toList]
    have hsize : pattern.utf8ByteSize = bytes (literal pattern ++ ['*']) :=
      congrArg String.utf8ByteSize hpattern
    rw [bytes_append, bytes_star] at hsize
    exact Or.inl ⟨hpattern, hsize⟩
  · have hpattern : pattern = String.ofList (literal pattern) := by
      unfold literal
      rw [if_neg hstar, String.ofList_toList]
    exact Or.inr ⟨hpattern, congrArg String.utf8ByteSize hpattern⟩

theorem literal_star (stem : List Char) : literal (String.ofList (stem ++ ['*'])) = stem := by
  unfold literal
  rw [String.toList_ofList, if_pos List.getLast?_concat, List.dropLast_concat]

theorem literal_plain (stem : List Char) {c : Char} (h : c < '*') :
    literal (String.ofList (stem ++ [c])) = stem ++ [c] := by
  have hne : c ≠ '*' := by
    rintro rfl
    exact absurd h (by decide)
  unfold literal
  rw [String.toList_ofList, if_neg]
  rw [List.getLast?_concat, Option.some.injEq]
  exact hne

theorem stem_lt_iff (stem : List Char) (c d : Char) :
    String.ofList (stem ++ [c]) < String.ofList (stem ++ [d]) ↔ c < d := by
  show (String.ofList (stem ++ [c])).toList < (String.ofList (stem ++ [d])).toList ↔ _
  rw [String.toList_ofList, String.toList_ofList, Text.append_lt_append_iff rfl, List.cons_lt_cons_iff]
  have hnil : ¬([] : List Char) < [] := List.lt_irrefl []
  have hstem : ¬stem < stem := List.lt_irrefl stem
  simp [hnil, hstem]

/-! ## The entry that is taken -/

namespace PriceTable

variable {t : PriceTable} {model : String} {entry other : String × Price}

theorem mem_candidates : entry ∈ t.candidates model ↔
    entry ∈ t.prices ∧ literal entry.1 <+: model.toList := by
  unfold candidates
  rw [List.mem_filter, List.isPrefixOf_iff_prefix]

/-- A key has one price. -/
theorem eq_of_key (hentry : entry ∈ t.prices) (hother : other ∈ t.prices) (h : entry.1 = other.1) :
    entry = other := by
  have hnodup : (t.prices.map Prod.fst).Nodup :=
    List.pairwise_map.mpr (t.sorted.imp fun hlt => String.ne_of_lt hlt)
  exact List.inj_on_of_nodup_map hnodup hentry hother h

/-- What an entry that is taken has over the others: its key is as long as any, and comes last of the
keys of its length. -/
theorem taken_spec (h : Largest.last (fun e : String × Price => e.1.utf8ByteSize)
    (t.candidates model) = some entry) :
    entry ∈ t.candidates model ∧ ∀ other ∈ t.candidates model,
      other.1.utf8ByteSize ≤ entry.1.utf8ByteSize ∧
      (other.1.utf8ByteSize = entry.1.utf8ByteSize → other = entry ∨ other.1 < entry.1) := by
  have hmax := Largest.last_isLargest h
  refine ⟨hmax.1, fun other hother => ⟨hmax.2 other hother, fun hsize => ?_⟩⟩
  obtain ⟨before, after, hsplit, -, hafter⟩ := Largest.last_split h
  have hsorted : (t.candidates model).Pairwise fun a b => a.1 < b.1 := t.sorted.filter _
  rw [hsplit] at hother hsorted
  rcases List.mem_append.mp hother with hother | hother
  · exact Or.inr ((List.pairwise_append.mp hsorted).2.2 other hother entry List.mem_cons_self)
  · rcases List.mem_cons.mp hother with rfl | hother
    · exact Or.inl rfl
    · exact absurd hsize (hafter other hother).ne

/-- **Which entry is passed over** for one with a shorter beginning: the key of the one that is taken
ends with a star, and the other has a character before the star in its place. -/
theorem longer_literal (h : Largest.last (fun e : String × Price => e.1.utf8ByteSize)
    (t.candidates model) = some entry) (hother : other ∈ t.candidates model)
    (hlonger : (literal entry.1).length < (literal other.1).length) :
    ∃ c, c < '*' ∧ literal other.1 = literal entry.1 ++ [c] ∧
      entry.1 = String.ofList (literal entry.1 ++ ['*']) ∧
      other.1 = String.ofList (literal entry.1 ++ [c]) := by
  obtain ⟨hentry, htaken⟩ := taken_spec h
  obtain ⟨hsize, hlast⟩ := htaken other hother
  obtain ⟨r, hr⟩ := List.prefix_of_prefix_length_le (mem_candidates.mp hentry).2
    (mem_candidates.mp hother).2 hlonger.le
  have hne : bytes r ≠ 0 := by
    intro hzero
    rw [bytes_eq_zero.mp hzero, List.append_nil] at hr
    rw [hr] at hlonger
    exact Nat.lt_irrefl _ hlonger
  have hbytes : bytes (literal other.1) = bytes (literal entry.1) + bytes r := by
    rw [← hr, bytes_append]
  -- the star makes up for the character
  rcases literal_cases entry.1 with ⟨hstar, hentrySize⟩ | ⟨-, hentrySize⟩
  · rcases literal_cases other.1 with ⟨-, hotherSize⟩ | ⟨hplain, hotherSize⟩
    · omega
    · obtain ⟨c, rfl⟩ := eq_singleton_of_bytes (by omega : bytes r = 1)
      rw [← hr] at hplain
      refine ⟨c, ?_, hr.symm, hstar, hplain⟩
      rcases hlast (by omega) with rfl | hlt
      · exact absurd hlonger (Nat.lt_irrefl _)
      · rw [hstar, hplain] at hlt
        exact (stem_lt_iff _ c '*').mp hlt
  · rcases literal_cases other.1 with ⟨-, hotherSize⟩ | ⟨-, hotherSize⟩ <;> omega

theorem resolve_eq_none : t.resolve model = none ↔
    ∀ entry ∈ t.prices, ¬literal entry.1 <+: model.toList := by
  unfold resolve
  rw [Option.map_eq_none_iff, Largest.last, Largest.scan_eq_none, List.eq_nil_iff_forall_not_mem]
  simp only [mem_candidates, not_and]

/-- An entry that is passed over costs the model its price. -/
theorem resolve_shadowed (h : t.Shadowed model) : ¬t.LongestPrefix model (t.resolve model) := by
  obtain ⟨stem, c, starred, plain, hstar, hplain, hlt, hprefix, hprices, hlongest⟩ := h
  have hstem : stem <+: model.toList := (List.prefix_append stem [c]).trans hprefix
  have hsize : (String.ofList (stem ++ ['*'])).utf8ByteSize = bytes stem + 1 := by
    show bytes (stem ++ ['*']) = _
    rw [bytes_append, bytes_star]
  have hplainBytes : bytes (stem ++ [c]) = bytes stem + 1 := by rw [bytes_append, bytes_of_lt hlt]
  rw [hsize] at hlongest
  have hcandidate : (String.ofList (stem ++ ['*']), starred) ∈ t.candidates model := by
    rw [mem_candidates, literal_star]
    exact ⟨hstar, hstem⟩
  -- any entry of that length is one of the two
  have heither : ∀ entry ∈ t.candidates model, bytes stem + 1 ≤ entry.1.utf8ByteSize →
      entry = (String.ofList (stem ++ ['*']), starred) ∨ entry = (String.ofList (stem ++ [c]), plain) := by
    intro entry hentry hle
    obtain ⟨hmem, hliteral⟩ := mem_candidates.mp hentry
    have hge := hlongest entry hmem hliteral
    rcases literal_cases entry.1 with ⟨hkey, hentrySize⟩ | ⟨hkey, hentrySize⟩
    · rw [eq_of_bytes hliteral hstem (by omega)] at hkey
      exact Or.inl (eq_of_key hmem hstar hkey)
    · rw [eq_of_bytes hliteral hprefix (by omega)] at hkey
      exact Or.inr (eq_of_key hmem hplain hkey)
  intro hanswer
  cases htaken : Largest.last (fun e : String × Price => e.1.utf8ByteSize) (t.candidates model) with
  | none =>
    rw [Largest.last, Largest.scan_eq_none] at htaken
    rw [htaken] at hcandidate
    cases hcandidate
  | some entry =>
    obtain ⟨hentry, hspec⟩ := taken_spec htaken
    have hle : (String.ofList (stem ++ ['*'])).utf8ByteSize ≤ entry.1.utf8ByteSize :=
      (hspec _ hcandidate).1
    rw [hsize] at hle
    have hresolve : t.resolve model = some entry.2 := by
      unfold resolve
      rw [htaken]
      rfl
    rcases heither entry hentry hle with rfl | rfl
    · obtain ⟨found, hfound, hprice, hliteral, hmost⟩ := hanswer.some _ hresolve
      have hmore := hmost _ hplain (by rw [literal_plain stem hlt]; exact hprefix)
      rw [literal_plain stem hlt] at hmore
      obtain ⟨r, hr⟩ := List.prefix_of_prefix_length_le hprefix hliteral hmore
      have hbytes : bytes (literal found.1) = bytes stem + 1 + bytes r := by
        rw [← hr, bytes_append, hplainBytes]
      rcases literal_cases found.1 with ⟨-, hfoundSize⟩ | ⟨hkey, hfoundSize⟩
      · have hge := hlongest found hfound hliteral
        omega
      · have hge := hlongest found hfound hliteral
        rw [eq_of_bytes hliteral hprefix (by omega)] at hkey
        have hsame : found = (String.ofList (stem ++ [c]), plain) := eq_of_key hfound hplain hkey
        rw [hsame] at hprice
        exact hprices hprice.symm
    · -- the key with the star comes behind the other
      rcases (hspec _ hcandidate).2 (hsize.trans hplainBytes.symm) with heq | hbefore
      · have hchar : String.ofList (stem ++ ['*']) = String.ofList (stem ++ [c]) := congrArg Prod.fst heq
        have hself := (stem_lt_iff stem c '*').mpr hlt
        rw [hchar] at hself
        exact String.lt_irrefl _ hself
      · exact Char.lt_asymm ((stem_lt_iff stem '*' c).mp hbefore) hlt

/-- **The longest beginning wins** exactly when no entry with it is passed over for a star. -/
theorem resolve_iff (t : PriceTable) (model : String) :
    t.LongestPrefix model (t.resolve model) ↔ ¬t.Shadowed model := by
  refine ⟨fun h hshadowed => resolve_shadowed hshadowed h, fun h => ⟨resolve_eq_none, fun price hprice => ?_⟩⟩
  obtain ⟨entry, htaken, rfl⟩ := Option.map_eq_some_iff.mp hprice
  obtain ⟨hentry, hspec⟩ := taken_spec htaken
  obtain ⟨hmem, hliteral⟩ := mem_candidates.mp hentry
  by_cases hmost : ∀ other ∈ t.candidates model, (literal other.1).length ≤ (literal entry.1).length
  · exact ⟨entry, hmem, rfl, hliteral, fun other hother hprefix =>
      hmost other (mem_candidates.mpr ⟨hother, hprefix⟩)⟩
  · simp only [not_forall, Nat.not_le] at hmost
    obtain ⟨other, hother, hlonger⟩ := hmost
    obtain ⟨c, hlt, heq, hstar, hplain⟩ := longer_literal htaken hother hlonger
    obtain ⟨hotherMem, hotherPrefix⟩ := mem_candidates.mp hother
    by_cases hprices : entry.2 = other.2
    · -- both entries have one price
      refine ⟨other, hotherMem, hprices.symm, hotherPrefix, fun third hthird hprefix => ?_⟩
      by_contra hnot
      have hthird' := mem_candidates.mpr ⟨hthird, hprefix⟩
      obtain ⟨d, -, heq', -, -⟩ := longer_literal htaken hthird' (by omega)
      rw [heq, heq'] at hnot
      simp at hnot
    · refine absurd ⟨literal entry.1, c, entry.2, other.2, ?_, ?_, hlt, ?_, hprices, ?_⟩ h
      · rw [← hstar]
        exact hmem
      · rw [← hplain]
        exact hotherMem
      · rw [← heq]
        exact hotherPrefix
      · intro third hthird hprefix
        rw [← hstar]
        exact (hspec third (mem_candidates.mpr ⟨hthird, hprefix⟩)).1

/-- The star comes behind the exclamation mark. -/
def twoPrices : PriceTable where
  prices := [("a!", ⟨2, 0, 0, 0, 0⟩), ("a*", ⟨1, 0, 0, 0, 0⟩)]
  sorted := by decide

/-- A model that begins with `a!` gets the price of `a`. -/
theorem resolve_passes_over : twoPrices.resolve "a!" = some ⟨1, 0, 0, 0, 0⟩ ∧
    ¬twoPrices.LongestPrefix "a!" (twoPrices.resolve "a!") := by
  refine ⟨by decide +kernel, resolve_shadowed ⟨['a'], '!', ⟨1, 0, 0, 0, 0⟩, ⟨2, 0, 0, 0, 0⟩, ?_, ?_, ?_,
    ?_, ?_, ?_⟩⟩
  all_goals decide +kernel

end PriceTable

end AnyConverter.RequestLog
