import AnyConverter.Wiring.Edit.Jsonc

/-!
# Values at paths

What a document holds once a value stands at a path: missing objects are created on the way, and
nothing else changes.

* `walk_setAt_self`: the path reads as the value;
* `walk_setAt_other`: a path that neither leads to it nor through it reads as before.
-/

set_option autoImplicit false

namespace AnyConverter.JsonEdit

/-- A path goes through objects as far as it exists. -/
def Passes : Value → List String → Prop
  | _, [] => True
  | .object fields, key :: rest => ∀ w, fields.lookup key = some w → Passes w rest
  | _, _ :: _ => False

/-- A value with another one at a path through objects. -/
def setAt (value : Value) : Value → List String → Value
  | _, [] => value
  | .object fields, key :: rest =>
    .object (Value.insertField key
      (setAt value ((fields.lookup key).getD (.object [])) rest) fields)
  | other, _ :: _ => other

theorem Passes.object {v : Value} {key : String} {rest : List String} (h : Passes v (key :: rest)) :
    ∃ fields, v = .object fields ∧ ∀ w, fields.lookup key = some w → Passes w rest := by
  cases v with
  | object fields => exact ⟨fields, rfl, h⟩
  | _ => cases h

theorem passes_empty (path : List String) : Passes (.object []) path := by
  cases path with
  | nil => trivial
  | cons key rest => exact fun w hw => by cases hw

/-- What is created on the way. -/
theorem Passes.next {fields : List (String × Value)} {key : String} {rest : List String}
    (h : ∀ w, fields.lookup key = some w → Passes w rest) :
    Passes ((fields.lookup key).getD (.object [])) rest := by
  cases hlookup : fields.lookup key with
  | none => exact passes_empty rest
  | some w => exact h w hlookup

theorem walk_object (fields : List (String × Value)) (key : String) (rest : List String) :
    walk (.object fields) (key :: rest) = (fields.lookup key).bind fun v => walk v rest := rfl

/-- **The path reads as the value.** -/
theorem walk_setAt_self (value : Value) {v : Value} {path : List String} (h : Passes v path) :
    walk (setAt value v path) path = some value := by
  induction path generalizing v with
  | nil =>
    cases v <;> rfl
  | cons key rest ih =>
    obtain ⟨fields, rfl, hnext⟩ := h.object
    rw [setAt, walk_object, Value.lookup_insertField_self, Option.bind_some]
    exact ih (Passes.next hnext)

/-- **A path that neither leads to the value nor through it reads as before.** -/
theorem walk_setAt_other (value : Value) {v : Value} {path other : List String} (h : Passes v path)
    (hto : ¬other <+: path) (hthrough : ¬path <+: other) :
    walk (setAt value v path) other = walk v other := by
  induction path generalizing v other with
  | nil => exact absurd (List.nil_prefix) hthrough
  | cons key rest ih =>
    obtain ⟨fields, rfl, hnext⟩ := h.object
    cases other with
    | nil => exact absurd (List.nil_prefix) hto
    | cons key' rest' =>
      rw [setAt, walk_object, walk_object]
      by_cases hkey : key' = key
      · subst hkey
        have hto' : ¬rest' <+: rest := fun hp => hto (List.cons_prefix_cons.mpr ⟨rfl, hp⟩)
        have hthrough' : ¬rest <+: rest' := fun hp => hthrough (List.cons_prefix_cons.mpr ⟨rfl, hp⟩)
        rw [Value.lookup_insertField_self, Option.bind_some, ih (Passes.next hnext) hto' hthrough']
        cases hlookup : fields.lookup key' with
        | some w => rfl
        | none =>
          -- nothing is read from an object that was created
          cases rest' with
          | nil => exact absurd List.nil_prefix hto'
          | cons next more => rfl
      · rw [Value.lookup_insertField_ne hkey]

end AnyConverter.JsonEdit
