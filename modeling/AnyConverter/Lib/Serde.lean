import AnyConverter.Lib.Json

/-!
# Derived readers and writers of records

What a derived deserializer does with the fields of a JSON object, and a derived serializer with
the fields of a record: a plain field must be there, an optional one may be absent or null, an
absent optional field is not written.  Fields nobody names are ignored.
-/

set_option autoImplicit false

namespace Serde

variable {α : Type}

/-- A field that must be there. -/
def required (key : String) (read : Value → Option α) (obj : List (String × Value)) : Option α :=
  (obj.lookup key).bind read

/-- A field that may be absent or null. -/
def optional (key : String) (read : Value → Option α) (obj : List (String × Value)) :
    Option (Option α) :=
  match obj.lookup key with
  | none => some none
  | some .null => some none
  | some v => (read v).map some

/-- A field with a default for its absence. -/
def withDefault (key : String) (default : α) (read : Value → Option α)
    (obj : List (String × Value)) : Option α :=
  match obj.lookup key with
  | none => some default
  | some v => read v

/-- Any value. -/
def any (v : Value) : Option Value := some v

def string : Value → Option String := Value.asStr

def bool : Value → Option Bool := Value.asBool

def u64 : Value → Option Nat := Value.asU64

def u32 (v : Value) : Option Nat :=
  match v.asU64 with
  | some n => if n < 2 ^ 32 then some n else none
  | none => none

def i64 : Value → Option Int := Value.asI64

/-- A list, every item of which must read. -/
def vec (read : Value → Option α) : Value → Option (List α)
  | .array items => items.mapM read
  | _ => none

/-- A field to write. -/
def field (key : String) (v : Value) : List (String × Value) := [(key, v)]

/-- A field to write when it has a value. -/
def fieldOpt (key : String) : Option Value → List (String × Value)
  | some v => [(key, v)]
  | none => []

def strings (xs : List String) : Value := .array (xs.map .string)

/-- An optional value written as null when it is absent. -/
def orNull : Option Value → Value
  | some v => v
  | none => .null

/-- Any list of values reads as itself. -/
theorem vec_any (items : List Value) : vec any (.array items) = some items := by
  unfold vec
  induction items with
  | nil => rfl
  | cons v items ih => simp only [List.mapM_cons, ih, any, bind, pure, Option.bind_some]

@[simp] theorem required_cons_self (key : String) (read : Value → Option α) (v : Value)
    (obj : List (String × Value)) : required key read ((key, v) :: obj) = read v := by
  simp [required]

/-- An optional field that has a value was read from one. -/
theorem of_optional {key : String} {read : Value → Option α} {obj : List (String × Value)} {a : α}
    (h : optional key read obj = some (some a)) : ∃ v, read v = some a := by
  unfold optional at h
  split at h
  · cases h
  · cases h
  · rename_i v _ _
    obtain ⟨b, hb, heq⟩ := Option.map_eq_some_iff.mp h
    exact ⟨v, Option.some.inj heq ▸ hb⟩

theorem u32_lt {v : Value} {n : Nat} (h : u32 v = some n) : n < 2 ^ 32 := by
  unfold u32 at h
  split at h
  · split at h
    · rename_i hlt
      cases h
      exact hlt
    · cases h
  · cases h

theorem i64_range {v : Value} {i : Int} (h : i64 v = some i) : -(2 ^ 63) ≤ i ∧ i < 2 ^ 63 := by
  unfold i64 Value.asI64 at h
  split at h
  · split at h
    · rename_i hrange
      cases h
      exact hrange
    · cases h
  · cases h

/-! ## Fields read back -/

theorem lookup_field (key k : String) (v : Value) (rest : List (String × Value)) :
    (field k v ++ rest).lookup key = if key = k then some v else rest.lookup key := by
  show ((k, v) :: rest).lookup key = _
  rw [List.lookup_cons]
  by_cases hk : key = k
  · rw [if_pos hk, beq_iff_eq.mpr hk]
  · rw [if_neg hk, beq_eq_false_iff_ne.mpr hk]

theorem lookup_fieldOpt (key k : String) (v : Option Value) (rest : List (String × Value)) :
    (fieldOpt k v ++ rest).lookup key = if key = k then v.or (rest.lookup key) else rest.lookup key := by
  cases v with
  | none => simp [fieldOpt]
  | some v => exact lookup_field key k v rest

theorem lookup_fieldOpt_last (key k : String) (v : Option Value) :
    (fieldOpt k v).lookup key = if key = k then v else none := by
  have h := lookup_fieldOpt key k v []
  rw [List.append_nil] at h
  rw [h, List.lookup_nil, Option.or_none]

theorem required_of_lookup {key : String} {read : Value → Option α} {v : Value} {a : α}
    {obj : List (String × Value)} (hlookup : obj.lookup key = some v) (hread : read v = some a) :
    required key read obj = some a := by
  unfold required
  rw [hlookup]
  exact hread

theorem optional_of_some {key : String} {read : Value → Option α} {v : Value} {a : α}
    {obj : List (String × Value)} (hlookup : obj.lookup key = some v) (hnull : v ≠ .null)
    (hread : read v = some a) : optional key read obj = some (some a) := by
  unfold optional
  rw [hlookup]
  cases v with
  | null => exact absurd rfl hnull
  | _ => exact congrArg (Option.map some) hread

theorem withDefault_of_lookup {key : String} {default : α} {read : Value → Option α} {v : Value} {a : α}
    {obj : List (String × Value)} (hlookup : obj.lookup key = some v) (hread : read v = some a) :
    withDefault key default read obj = some a := by
  unfold withDefault
  rw [hlookup]
  exact hread

/-- What a field holds of an optional value reads back. -/
theorem optional_of_lookup {key : String} {read : Value → Option α} {write : α → Value} {o : Option α}
    {obj : List (String × Value)} (hlookup : obj.lookup key = o.map write)
    (hread : ∀ a, o = some a → read (write a) = some a) (hnull : ∀ a, o = some a → write a ≠ .null) :
    optional key read obj = some o := by
  unfold optional
  rw [hlookup]
  cases o with
  | none => rfl
  | some a =>
    have hne := hnull a rfl
    have hback := hread a rfl
    show (match some (write a) with
      | none => some none
      | some .null => some none
      | some v => (read v).map some) = some (some a)
    split
    · rename_i h
      cases h
    · rename_i h
      exact absurd (Option.some.inj h) hne
    · rename_i h
      rw [← Option.some.inj h, hback]
      rfl

theorem optional_string {key : String} {o : Option String} {obj : List (String × Value)}
    (hlookup : obj.lookup key = o.map .string) : optional key string obj = some o :=
  optional_of_lookup hlookup (fun _ _ => rfl) fun _ _ => Value.noConfusion

theorem u64_nat {n : Nat} (h : n < 2 ^ 64) : u64 (.nat n) = some n := Value.asU64_nat n h

theorem u32_of_asU64 {v : Value} {n : Nat} (hv : v.asU64 = some n) (h : n < 2 ^ 32) :
    u32 v = some n := by
  unfold u32
  rw [hv]
  exact if_pos h

theorem u32_nat {n : Nat} (h : n < 2 ^ 32) : u32 (.nat n) = some n :=
  u32_of_asU64 (Value.asU64_nat n (by omega)) h

theorem vec_map {write : α → Value} {read : Value → Option α} {xs : List α}
    (h : ∀ x ∈ xs, read (write x) = some x) : vec read (.array (xs.map write)) = some xs := by
  show (xs.map write).mapM read = some xs
  induction xs with
  | nil => rfl
  | cons x xs ih =>
    rw [List.map_cons, List.mapM_cons, h x List.mem_cons_self,
      ih fun y hy => h y (List.mem_cons_of_mem x hy)]
    rfl

end Serde
