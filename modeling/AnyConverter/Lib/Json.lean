import Mathlib.Algebra.Ring.Int.Defs
import Mathlib.Algebra.Ring.Nat
import Mathlib.Data.List.Basic

/-!
# JSON values

The value type of a JSON library: `Value`, its accessors (`get`, `asStr`, `asU64`, …) and the
field insertion of a key-sorted map.  An object is the list of its fields in the order the map
iterates them; a map sorted by key is written with its fields in that order.

Numbers are integers or decimals `mantissa · 10 ^ exponent`; a decimal is carried, never computed
with, so its rounding to a machine float is not modelled.

`JsonCodec` is the reader and printer of a JSON library, as parameters; `JsonCodec.Lawful` states
that reading inverts printing and how compact printing lays out objects.
-/

set_option autoImplicit false

/-- A JSON number. -/
inductive Number where
  | int (i : Int)
  | decimal (mantissa exponent : Int)
  deriving DecidableEq, Repr

inductive Value where
  | null
  | bool (b : Bool)
  | number (n : Number)
  | string (s : String)
  | array (items : List Value)
  | object (fields : List (String × Value))
  deriving Repr, Inhabited

namespace Value

/-! ## Decidable equality -/

mutual
/-- Structural comparison. -/
def beq : Value → Value → Bool
  | .null, .null => true
  | .bool a, .bool b => a == b
  | .number a, .number b => a == b
  | .string a, .string b => a == b
  | .array xs, .array ys => beqItems xs ys
  | .object xs, .object ys => beqFields xs ys
  | _, _ => false
def beqItems : List Value → List Value → Bool
  | [], [] => true
  | x :: xs, y :: ys => beq x y && beqItems xs ys
  | _, _ => false
def beqFields : List (String × Value) → List (String × Value) → Bool
  | [], [] => true
  | (k, x) :: xs, (l, y) :: ys => k == l && beq x y && beqFields xs ys
  | _, _ => false
end

mutual
theorem eq_of_beq : ∀ {a b : Value}, beq a b = true → a = b
  | .null, b, h => by cases b <;> simp_all [beq]
  | .bool _, b, h => by cases b <;> simp_all [beq]
  | .number _, b, h => by cases b <;> simp_all [beq]
  | .string _, b, h => by cases b <;> simp_all [beq]
  | .array xs, b, h => by
    cases b with
    | array ys =>
      have hi : beqItems xs ys = true := by simpa [beq] using h
      rw [eq_of_beqItems hi]
    | _ => simp [beq] at h
  | .object xs, b, h => by
    cases b with
    | object ys =>
      have hf : beqFields xs ys = true := by simpa [beq] using h
      rw [eq_of_beqFields hf]
    | _ => simp [beq] at h
theorem eq_of_beqItems : ∀ {xs ys : List Value}, beqItems xs ys = true → xs = ys
  | [], ys, h => by cases ys <;> simp_all [beqItems]
  | x :: xs, ys, h => by
    cases ys with
    | nil => simp [beqItems] at h
    | cons y ys =>
      simp only [beqItems, Bool.and_eq_true] at h
      rw [eq_of_beq h.1, eq_of_beqItems h.2]
theorem eq_of_beqFields : ∀ {xs ys : List (String × Value)}, beqFields xs ys = true → xs = ys
  | [], ys, h => by cases ys <;> simp_all [beqFields]
  | (k, x) :: xs, ys, h => by
    cases ys with
    | nil => simp [beqFields] at h
    | cons y ys =>
      obtain ⟨l, y⟩ := y
      simp only [beqFields, Bool.and_eq_true, beq_iff_eq] at h
      rw [h.1.1, eq_of_beq h.1.2, eq_of_beqFields h.2]
end

mutual
theorem beq_self : ∀ a : Value, beq a a = true
  | .null => rfl
  | .bool _ => by simp [beq]
  | .number _ => by simp [beq]
  | .string _ => by simp [beq]
  | .array xs => by simpa [beq] using beqItems_self xs
  | .object xs => by simpa [beq] using beqFields_self xs
theorem beqItems_self : ∀ xs : List Value, beqItems xs xs = true
  | [] => rfl
  | x :: xs => by simp [beqItems, beq_self x, beqItems_self xs]
theorem beqFields_self : ∀ xs : List (String × Value), beqFields xs xs = true
  | [] => rfl
  | (k, x) :: xs => by simp [beqFields, beq_self x, beqFields_self xs]
end

instance : DecidableEq Value := fun a b =>
  decidable_of_iff (beq a b = true) ⟨eq_of_beq, fun h => h ▸ beq_self a⟩

/-! ## Accessors -/

/-- A natural number as a JSON number. -/
def nat (n : Nat) : Value := .number (.int n)

/-- `Value::get` with a field name. -/
def get (v : Value) (key : String) : Option Value :=
  match v with
  | .object fields => fields.lookup key
  | _ => none

def asStr : Value → Option String
  | .string s => some s
  | _ => none

def asBool : Value → Option Bool
  | .bool b => some b
  | _ => none

/-- `Value::as_u64`: an integer from `0` to `2 ^ 64 - 1`. -/
def asU64 : Value → Option Nat
  | .number (.int i) => if 0 ≤ i ∧ i < 2 ^ 64 then some i.toNat else none
  | _ => none

def asI64 : Value → Option Int
  | .number (.int i) => if -(2 ^ 63) ≤ i ∧ i < 2 ^ 63 then some i else none
  | _ => none

def asArray : Value → Option (List Value)
  | .array items => some items
  | _ => none

def asObject : Value → Option (List (String × Value))
  | .object fields => some fields
  | _ => none

def isNull : Value → Bool
  | .null => true
  | _ => false

@[simp] theorem asU64_nat (n : Nat) (h : n < 2 ^ 64) : (nat n).asU64 = some n := by
  have h' : 0 ≤ (n : Int) ∧ (n : Int) < 2 ^ 64 := ⟨by omega, by exact_mod_cast h⟩
  rw [nat, asU64, if_pos h', Int.toNat_natCast]

@[simp] theorem asStr_string (s : String) : (Value.string s).asStr = some s := rfl

/-- Insert a field into a key-sorted map, replacing an equal key. -/
def insertField (key : String) (v : Value) : List (String × Value) → List (String × Value)
  | [] => [(key, v)]
  | (k, w) :: rest =>
    if key = k then (key, v) :: rest
    else if key < k then (key, v) :: (k, w) :: rest
    else (k, w) :: insertField key v rest

theorem lookup_insertField_self (key : String) (v : Value) (fields : List (String × Value)) :
    (insertField key v fields).lookup key = some v := by
  induction fields with
  | nil => simp [insertField]
  | cons f rest ih =>
    obtain ⟨k, w⟩ := f
    unfold insertField
    split
    · simp
    · split
      · simp
      · rename_i hne _
        simp [List.lookup_cons, beq_false_of_ne hne, ih]

theorem lookup_insertField_ne {key key' : String} (h : key' ≠ key) (v : Value)
    (fields : List (String × Value)) :
    (insertField key v fields).lookup key' = fields.lookup key' := by
  induction fields with
  | nil => simp [insertField, h]
  | cons f rest ih =>
    obtain ⟨k, w⟩ := f
    unfold insertField
    split
    · rename_i heq
      subst heq
      simp [List.lookup_cons, beq_false_of_ne h]
    · split
      · simp [List.lookup_cons, beq_false_of_ne h]
      · simp [List.lookup_cons, ih]

/-- The fields of a map sorted by key. -/
def SortedByKey (fields : List (String × Value)) : Prop :=
  fields.Pairwise fun a b => a.1 < b.1

theorem mem_insertField {key : String} {v : Value} {fields : List (String × Value)}
    {f : String × Value} (h : f ∈ insertField key v fields) : f = (key, v) ∨ f ∈ fields := by
  induction fields with
  | nil => exact Or.inl (List.mem_singleton.mp h)
  | cons g rest ih =>
    unfold insertField at h
    split at h
    · rcases List.mem_cons.mp h with h | h
      · exact Or.inl h
      · exact Or.inr (List.mem_cons_of_mem _ h)
    · split at h
      · exact List.mem_cons.mp h
      · rcases List.mem_cons.mp h with h | h
        · exact Or.inr (h ▸ List.mem_cons_self)
        · exact (ih h).imp_right (List.mem_cons_of_mem _)

theorem SortedByKey.insertField {fields : List (String × Value)} (h : SortedByKey fields)
    (key : String) (v : Value) : SortedByKey (insertField key v fields) := by
  induction fields with
  | nil => exact List.pairwise_singleton _ _
  | cons g rest ih =>
    obtain ⟨k, w⟩ := g
    obtain ⟨hhead, htail⟩ := List.pairwise_cons.mp h
    unfold Value.insertField
    split
    · rename_i heq
      subst heq
      exact List.pairwise_cons.mpr ⟨hhead, htail⟩
    · rename_i hne
      split
      · rename_i hlt
        refine List.pairwise_cons.mpr ⟨?_, h⟩
        intro f hf
        rcases List.mem_cons.mp hf with rfl | hf
        · exact hlt
        · exact String.lt_trans hlt (hhead f hf)
      · rename_i hge
        have hgt : k < key := by
          by_contra hlt
          exact hne (String.le_antisymm (String.not_lt.mp hlt) (String.not_lt.mp hge))
        refine List.pairwise_cons.mpr ⟨?_, ih htail⟩
        intro f hf
        rcases mem_insertField hf with rfl | hf
        · exact hgt
        · exact hhead f hf

/-- A key below all others is not in the map. -/
theorem lookup_below {key : String} {fields : List (String × Value)} (h : ∀ f ∈ fields, key < f.1) :
    fields.lookup key = none := by
  refine List.lookup_eq_none_iff.mpr fun f hf => ?_
  have hne : key ≠ f.1 := by
    intro heq
    exact String.lt_irrefl f.1 (heq ▸ h f hf)
  exact bne_iff_ne.mpr hne

theorem le_first_of_lookup {f g : String × Value} {xs ys : List (String × Value)}
    (hy : SortedByKey (g :: ys)) (h : ∀ key, (f :: xs).lookup key = (g :: ys).lookup key) :
    g.1 ≤ f.1 := by
  refine String.not_lt.mp fun hlt => ?_
  have habsent : (g :: ys).lookup f.1 = none := by
    refine lookup_below fun e he => ?_
    rcases List.mem_cons.mp he with rfl | he
    · exact hlt
    · exact String.lt_trans hlt ((List.pairwise_cons.mp hy).1 e he)
  have hfirst := h f.1
  rw [List.lookup_cons_self, habsent] at hfirst
  cases hfirst

/-- A sorted map is what it holds under every key. -/
theorem SortedByKey.ext {xs ys : List (String × Value)} (hx : SortedByKey xs) (hy : SortedByKey ys)
    (h : ∀ key, xs.lookup key = ys.lookup key) : xs = ys := by
  induction xs generalizing ys with
  | nil =>
    cases ys with
    | nil => rfl
    | cons g ys =>
      have hfirst := h g.1
      rw [List.lookup_cons_self] at hfirst
      cases hfirst
  | cons f xs ih =>
    cases ys with
    | nil =>
      have hfirst := h f.1
      rw [List.lookup_cons_self] at hfirst
      cases hfirst
    | cons g ys =>
      have hkeys : f.1 = g.1 := String.le_antisymm
        (le_first_of_lookup hx fun key => (h key).symm) (le_first_of_lookup hy h)
      have hvalues : f.2 = g.2 := by
        have hfirst := h f.1
        rw [List.lookup_cons_self, hkeys, List.lookup_cons_self] at hfirst
        exact Option.some.inj hfirst
      obtain ⟨hfx, hxs⟩ := List.pairwise_cons.mp hx
      obtain ⟨hgy, hys⟩ := List.pairwise_cons.mp hy
      have hrest : xs = ys := by
        refine ih hxs hys fun key => ?_
        by_cases hkey : key = f.1
        · rw [hkey, lookup_below hfx, hkeys, lookup_below hgy]
        · have hmore := h key
          rwa [List.lookup_cons, List.lookup_cons, ← hkeys, beq_false_of_ne hkey] at hmore
      rw [hrest, show f = g from Prod.ext hkeys hvalues]

/-- A key above all others goes to the end. -/
theorem insertField_last {key : String} {fields : List (String × Value)}
    (h : ∀ f ∈ fields, f.1 < key) (v : Value) :
    insertField key v fields = fields ++ [(key, v)] := by
  induction fields with
  | nil => rfl
  | cons g rest ih =>
    obtain ⟨k, w⟩ := g
    have hk : k < key := h (k, w) List.mem_cons_self
    have hne : key ≠ k := by
      rintro rfl
      exact String.lt_irrefl _ hk
    have hrest := ih fun f hf => h f (List.mem_cons_of_mem _ hf)
    rw [insertField, if_neg hne, if_neg (String.lt_asymm hk), hrest]
    rfl

/-- A map filled field by field is sorted, and holds nothing else. -/
theorem foldl_insertField (fields : List (String × Value)) {map : List (String × Value)}
    (h : SortedByKey map) :
    SortedByKey (fields.foldl (fun map f => insertField f.1 f.2 map) map) ∧
      ∀ f ∈ fields.foldl (fun map f => insertField f.1 f.2 map) map, f ∈ map ∨ f ∈ fields := by
  induction fields generalizing map with
  | nil => exact ⟨h, fun f hf => Or.inl hf⟩
  | cons g fields ih =>
    obtain ⟨hsorted, hmem⟩ := ih (h.insertField g.1 g.2)
    refine ⟨hsorted, ?_⟩
    intro f hf
    rcases hmem f hf with hin | hin
    · rcases mem_insertField hin with rfl | hin
      · exact Or.inr List.mem_cons_self
      · exact Or.inl hin
    · exact Or.inr (List.mem_cons_of_mem _ hin)

/-- Filling a map with the fields of a sorted one gives these. -/
theorem foldl_insertField_sorted {fields map : List (String × Value)}
    (h : SortedByKey (map ++ fields)) :
    fields.foldl (fun map f => insertField f.1 f.2 map) map = map ++ fields := by
  induction fields generalizing map with
  | nil => exact (List.append_nil _).symm
  | cons g fields ih =>
    have hlast : ∀ f ∈ map, f.1 < g.1 := by
      intro f hf
      exact (List.pairwise_append.mp h).2.2 f hf g List.mem_cons_self
    rw [List.foldl_cons, insertField_last hlast]
    have hmap : map ++ [(g.1, g.2)] ++ fields = map ++ g :: fields := by
      rw [List.append_assoc]
      rfl
    rw [ih (hmap.symm ▸ h), hmap]

/-- `value[key] = v` on an object; anything else is left as it is. -/
def set (value : Value) (key : String) (v : Value) : Value :=
  match value with
  | .object fields => .object (insertField key v fields)
  | other => other

end Value

/-! ## Reading and printing -/

/-- The UTF-8 bytes of a text. -/
def utf8 (s : String) : List UInt8 := s.toUTF8.data.toList

/-- A JSON library: a reader of bytes, a compact printer, and the text of the error a failed
read reports. -/
structure JsonCodec where
  fromSlice : List UInt8 → Option Value
  toText : Value → String
  errorText : String → String

namespace JsonCodec

/-- Read a text. -/
def fromStr (c : JsonCodec) (s : String) : Option Value := c.fromSlice (utf8 s)

/-- Read a text and decode the value, as a typed read does. -/
def decode {α : Type} (c : JsonCodec) (ofValue : Value → Option α) (s : String) : Option α :=
  (c.fromStr s).bind ofValue

/-- What reading and compact printing are documented to do. -/
structure Lawful (c : JsonCodec) : Prop where
  /-- reading what was printed gives the value back -/
  read_print : ∀ v, c.fromStr (c.toText v) = some v
  /-- a compact object is its fields, comma-separated between braces -/
  print_object : ∀ fields, c.toText (.object fields) =
    "\x7b" ++ ",".intercalate
      (fields.map fun f => c.toText (.string f.1) ++ ":" ++ c.toText f.2) ++ "\x7d"
  /-- a text without characters to escape is printed between quotes -/
  print_plain : ∀ s : String, (∀ c ∈ s.toList, c.isAlphanum ∨ c = '_') →
    c.toText (.string s) = "\"" ++ s ++ "\""
  /-- the empty text is not JSON -/
  read_empty : c.fromStr "" = none

/-- Compact printing is documented to write no line feeds. -/
def OneLine (c : JsonCodec) : Prop := ∀ v, '\n' ∉ (c.toText v).toList

/-- The condition on a plain text, as a test. -/
theorem Lawful.print_word {c : JsonCodec} (h : c.Lawful) {s : String}
    (hs : s.toList.all (fun c => c.isAlphanum || c == '_') = true) :
    c.toText (.string s) = "\"" ++ s ++ "\"" := by
  refine h.print_plain s fun c hc => ?_
  simpa using List.all_eq_true.mp hs c hc

/-- So nothing is printed as the empty text. -/
theorem Lawful.print_ne_empty {c : JsonCodec} (h : c.Lawful) (v : Value) : c.toText v ≠ "" := by
  intro hv
  have hread := h.read_print v
  rw [hv, h.read_empty] at hread
  cases hread

theorem decode_of_read {α : Type} {c : JsonCodec} {ofValue : Value → Option α} {s : String}
    {v : Value} {a : α} (hr : c.fromStr s = some v) (ha : ofValue v = some a) :
    c.decode ofValue s = some a := by
  simp [decode, hr, ha]

end JsonCodec
