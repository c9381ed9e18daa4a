import Mathlib.Data.List.Sort

/-!
# Keyset pages

A page is the first of the items whose keys are before a cursor, largest key first; where it is full, the
key of its last item is the next cursor.  The items may change from one page to the next.

* `follow_sorted`: no key comes twice;
* `exists_mem_follow`: a key that is there at every page comes;
* `exists_follow`: the pages come to an end;
* `follow_constant`: the pages of items that do not change.
-/

set_option autoImplicit false

namespace Keyset

variable {α : Type} (key : α → Nat)

/-- `?1 is null or key < ?1` -/
def before (cursor : Option Nat) (k : Nat) : Bool := cursor.all fun c => k < c

/-- `order by key desc` -/
def newestFirst (items : List α) : List α := items.insertionSort fun a b => key b ≤ key a

def page (n : Nat) (cursor : Option Nat) (items : List α) : List α :=
  (newestFirst key (items.filter fun x => before cursor (key x))).take n

def next (n : Nat) (rows : List α) : Option Nat :=
  if rows.length = n then rows.getLast?.map key else none

/-- The pages from a cursor on; those of the `i`-th are `items i`. -/
def follow (n : Nat) (items : Nat → List α) : Nat → Nat → Option Nat → Option (List (List α))
  | 0, _, _ => none
  | fuel + 1, i, cursor =>
    match next key n (page key n cursor (items i)) with
    | none => some [page key n cursor (items i)]
    | some c => (follow n items fuel (i + 1) (some c)).map (page key n cursor (items i) :: ·)

variable {key} {n : Nat} {cursor : Option Nat} {xs rows : List α} {c : Nat}

/-! ## One page -/

theorem before_of_lt {k : Nat} (hlt : k < c) (h : before cursor c = true) : before cursor k = true := by
  cases cursor with
  | none => rfl
  | some c' => exact decide_eq_true (hlt.trans (of_decide_eq_true h))

theorem newestFirst_perm (xs : List α) : (newestFirst key xs).Perm xs := List.perm_insertionSort _ xs

theorem newestFirst_sorted (hnodup : (xs.map key).Nodup) :
    (newestFirst key xs).Pairwise fun x y => key y < key x := by
  have hle : (newestFirst key xs).Pairwise fun x y => key y ≤ key x := List.pairwise_insertionSort _ xs
  have hne : (newestFirst key xs).Pairwise fun x y => key x ≠ key y := by
    have hperm : ((newestFirst key xs).map key).Perm (xs.map key) := (newestFirst_perm xs).map key
    exact List.pairwise_map.mp (hperm.nodup_iff.mpr hnodup)
  exact (hle.and hne).imp fun h => lt_of_le_of_ne h.1 h.2.symm

theorem mem_newestFirst_before {x : α} :
    x ∈ newestFirst key (xs.filter fun x => before cursor (key x)) ↔
      x ∈ xs ∧ before cursor (key x) = true := by
  rw [(newestFirst_perm _).mem_iff, List.mem_filter]

theorem mem_of_mem_page {x : α} (h : x ∈ page key n cursor xs) :
    x ∈ xs ∧ before cursor (key x) = true :=
  mem_newestFirst_before.mp (List.mem_of_mem_take h)

theorem before_sorted (hnodup : (xs.map key).Nodup) (cursor : Option Nat) :
    (newestFirst key (xs.filter fun x => before cursor (key x))).Pairwise fun x y => key y < key x :=
  newestFirst_sorted (hnodup.sublist (List.filter_sublist.map key))

theorem page_sorted (hnodup : (xs.map key).Nodup) (n : Nat) (cursor : Option Nat) :
    (page key n cursor xs).Pairwise fun x y => key y < key x :=
  (before_sorted hnodup cursor).sublist (List.take_sublist _ _)

/-- The next cursor is the key of the last item. -/
theorem next_eq_some (h : next key n rows = some c) :
    rows.length = n ∧ ∃ start last, rows = start ++ [last] ∧ key last = c := by
  unfold next at h
  split at h
  · rename_i hlength
    obtain ⟨last, hlast, rfl⟩ := Option.map_eq_some_iff.mp h
    obtain ⟨start, rfl⟩ := List.getLast?_eq_some_iff.mp hlast
    exact ⟨hlength, start, last, rfl, rfl⟩
  · cases h

theorem next_le (hsorted : rows.Pairwise fun x y => key y < key x) (h : next key n rows = some c) {x : α}
    (hx : x ∈ rows) : c ≤ key x := by
  obtain ⟨-, start, last, rfl, rfl⟩ := next_eq_some h
  rcases List.mem_append.mp hx with hx | hx
  · exact ((List.pairwise_append.mp hsorted).2.2 x hx last (List.mem_singleton_self _)).le
  · rw [List.mem_singleton.mp hx]

theorem before_next (h : next key n (page key n cursor xs) = some c) : before cursor c = true := by
  obtain ⟨-, start, last, hrows, rfl⟩ := next_eq_some h
  have hlast : last ∈ page key n cursor xs := by
    rw [hrows]
    exact List.mem_append_right _ (List.mem_singleton_self _)
  exact (mem_of_mem_page hlast).2

/-- An item before the cursor is on the page, or before the next cursor. -/
theorem mem_page_or (hpos : 0 < n) (hnodup : (xs.map key).Nodup) {x : α} (hx : x ∈ xs)
    (hbefore : before cursor (key x) = true) : x ∈ page key n cursor xs ∨
      ∃ c, next key n (page key n cursor xs) = some c ∧ key x < c := by
  by_cases hpage : x ∈ page key n cursor xs
  · exact Or.inl hpage
  · set all := newestFirst key (xs.filter fun x => before cursor (key x)) with hall
    have hsplit : page key n cursor xs ++ all.drop n = all := List.take_append_drop n all
    have hdrop : x ∈ all.drop n := by
      have hmem : x ∈ all := mem_newestFirst_before.mpr ⟨hx, hbefore⟩
      rw [← hsplit] at hmem
      exact (List.mem_append.mp hmem).resolve_left hpage
    have hlength : (page key n cursor xs).length = n := by
      have hlt := List.length_pos_of_mem hdrop
      rw [List.length_drop] at hlt
      show (all.take n).length = n
      rw [List.length_take]
      omega
    have hne : page key n cursor xs ≠ [] := List.ne_nil_of_length_pos (by omega)
    have hsorted := before_sorted hnodup cursor
    rw [← hall, ← hsplit] at hsorted
    refine Or.inr ⟨key ((page key n cursor xs).getLast hne), ?_, ?_⟩
    · rw [next, if_pos hlength, List.getLast?_eq_some_getLast hne]
      rfl
    · exact (List.pairwise_append.mp hsorted).2.2 _ (List.getLast_mem hne) x hdrop

/-! ## All pages -/

variable {items : Nat → List α} {fuel i : Nat} {pages : List (List α)}

theorem follow_succ (h : follow key n items (fuel + 1) i cursor = some pages) :
    ∃ rest, pages = page key n cursor (items i) :: rest ∧
      match next key n (page key n cursor (items i)) with
      | none => rest = []
      | some c => follow key n items fuel (i + 1) (some c) = some rest := by
  rw [follow] at h
  cases hnext : next key n (page key n cursor (items i)) with
  | none =>
    rw [hnext] at h
    exact ⟨[], (Option.some.inj h).symm, rfl⟩
  | some c =>
    rw [hnext] at h
    obtain ⟨rest, hrest, rfl⟩ := Option.map_eq_some_iff.mp h
    exact ⟨rest, rfl, hrest⟩

/-- **No key comes twice**, and the largest comes first. -/
theorem follow_sorted (hnodup : ∀ i, ((items i).map key).Nodup)
    (h : follow key n items fuel i cursor = some pages) :
    (pages.flatten.Pairwise fun x y => key y < key x) ∧
      ∀ x ∈ pages.flatten, before cursor (key x) = true := by
  induction fuel generalizing i cursor pages with
  | zero => cases h
  | succ fuel ih =>
    obtain ⟨rest, rfl, hrest⟩ := follow_succ h
    have hpage := page_sorted (hnodup i) n cursor
    have hfirst : ∀ x ∈ page key n cursor (items i), before cursor (key x) = true :=
      fun x hx => (mem_of_mem_page hx).2
    rw [List.flatten_cons]
    cases hnext : next key n (page key n cursor (items i)) with
    | none =>
      rw [hnext] at hrest
      obtain rfl : rest = [] := hrest
      rw [List.flatten_nil, List.append_nil]
      exact ⟨hpage, hfirst⟩
    | some c =>
      rw [hnext] at hrest
      obtain ⟨hsorted, hbelow⟩ := ih hrest
      have hlt : ∀ x ∈ rest.flatten, key x < c := fun x hx => of_decide_eq_true (hbelow x hx)
      refine ⟨List.pairwise_append.mpr ⟨hpage, hsorted, fun x hx y hy => ?_⟩, fun x hx => ?_⟩
      · exact (hlt y hy).trans_le (next_le hpage hnext hx)
      · rcases List.mem_append.mp hx with hx | hx
        · exact hfirst x hx
        · exact before_of_lt (hlt x hx) (before_next hnext)

/-- What comes was there when its page was loaded. -/
theorem exists_of_mem_follow (h : follow key n items fuel i cursor = some pages) {x : α}
    (hx : x ∈ pages.flatten) : ∃ j, i ≤ j ∧ j < i + pages.length ∧ x ∈ items j := by
  induction fuel generalizing i cursor pages with
  | zero => cases h
  | succ fuel ih =>
    obtain ⟨rest, rfl, hrest⟩ := follow_succ h
    rw [List.flatten_cons] at hx
    rw [List.length_cons]
    rcases List.mem_append.mp hx with hx | hx
    · exact ⟨i, le_rfl, by omega, (mem_of_mem_page hx).1⟩
    · cases hnext : next key n (page key n cursor (items i)) with
      | none =>
        rw [hnext] at hrest
        obtain rfl : rest = [] := hrest
        cases hx
      | some c =>
        rw [hnext] at hrest
        obtain ⟨j, hle, hlt, hmem⟩ := ih hrest hx
        exact ⟨j, by omega, by omega, hmem⟩

/-- **A key that is there at every page** comes. -/
theorem exists_mem_follow (hpos : 0 < n) (hnodup : ∀ i, ((items i).map key).Nodup)
    (h : follow key n items fuel i cursor = some pages) {k : Nat} (hbefore : before cursor k = true)
    (hthere : ∀ j, i ≤ j → j < i + pages.length → ∃ x ∈ items j, key x = k) :
    ∃ x ∈ pages.flatten, key x = k := by
  induction fuel generalizing i cursor pages with
  | zero => cases h
  | succ fuel ih =>
    obtain ⟨rest, rfl, hrest⟩ := follow_succ h
    rw [List.length_cons] at hthere
    obtain ⟨x, hx, rfl⟩ := hthere i le_rfl (by omega)
    rcases mem_page_or hpos (hnodup i) hx hbefore with hpage | ⟨c, hnext, hlt⟩
    · exact ⟨x, List.mem_append_left _ hpage, rfl⟩
    · rw [hnext] at hrest
      obtain ⟨y, hy, hkey⟩ := ih hrest (decide_eq_true hlt) fun j hle hlt =>
        hthere j (by omega) (by omega)
      exact ⟨y, List.mem_append_right _ hy, hkey⟩

/-- **The pages come to an end**: each cursor is smaller than the one before. -/
theorem exists_follow (key : α → Nat) (n : Nat) (items : Nat → List α) (i : Nat) (cursor : Option Nat) :
    ∃ fuel, (follow key n items fuel i cursor).isSome = true := by
  have hsome : ∀ c i, ∃ fuel, (follow key n items fuel i (some c)).isSome = true := by
    intro c
    induction c using Nat.strong_induction_on with
    | _ c ih =>
      intro i
      cases hnext : next key n (page key n (some c) (items i)) with
      | none => exact ⟨1, by rw [follow, hnext]; rfl⟩
      | some c' =>
        obtain ⟨fuel, hfuel⟩ := ih c' (of_decide_eq_true (before_next hnext)) (i + 1)
        refine ⟨fuel + 1, ?_⟩
        rw [follow, hnext]
        simpa using hfuel
  cases cursor with
  | some c => exact hsome c i
  | none =>
    cases hnext : next key n (page key n none (items i)) with
    | none => exact ⟨1, by rw [follow, hnext]; rfl⟩
    | some c =>
      obtain ⟨fuel, hfuel⟩ := hsome c (i + 1)
      refine ⟨fuel + 1, ?_⟩
      rw [follow, hnext]
      simpa using hfuel

/-- **The pages of items that do not change** are these, the largest key first. -/
theorem follow_constant (hpos : 0 < n) (hnodup : (xs.map key).Nodup)
    (h : follow key n (fun _ => xs) fuel i none = some pages) : pages.flatten = newestFirst key xs := by
  obtain ⟨hsorted, -⟩ := follow_sorted (fun _ => hnodup) h
  have hall := newestFirst_sorted hnodup
  have hirrefl : ∀ {ys : List α}, (ys.Pairwise fun x y => key y < key x) → ys.Nodup := by
    intro ys hys
    refine hys.imp ?_
    rintro x y hlt rfl
    exact lt_irrefl _ hlt
  refine List.Perm.eq_of_pairwise (fun x y _ _ hxy hyx => absurd hxy (not_lt.mpr hyx.le)) hsorted hall ?_
  refine (List.perm_ext_iff_of_nodup (hirrefl hsorted) (hirrefl hall)).mpr fun x => ?_
  rw [(newestFirst_perm xs).mem_iff]
  constructor
  · intro hx
    obtain ⟨j, -, -, hmem⟩ := exists_of_mem_follow h hx
    exact hmem
  · intro hx
    obtain ⟨y, hy, hkey⟩ := exists_mem_follow hpos (fun _ => hnodup) h (k := key x) rfl
      fun j _ _ => ⟨x, hx, rfl⟩
    obtain ⟨j, -, -, hmem⟩ := exists_of_mem_follow h hy
    rwa [List.inj_on_of_nodup_map hnodup hmem hx hkey] at hy

end Keyset
