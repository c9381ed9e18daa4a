import AnyConverter.Lib.JsonText

/-!
# Reading JSON text

The grammar of JSON as a reader over characters: white space, objects, arrays, and literals, whose
values a parameter gives.  A map keeps the last of several equal keys and is sorted by key.

* `collect_concat`, `collect_replaced`: the map of more fields, and of another value under a key.
-/

set_option autoImplicit false

namespace JsonReader

def isWs (c : Char) : Bool := c == ' ' || c == '\t' || c == '\n' || c == '\r'

def skipWs (cs : List Char) : List Char := cs.dropWhile isWs

/-- A character of a number or of a name. -/
def atomChar (c : Char) : Bool := c.isAlphanum || c == '+' || c == '-' || c == '.'

/-- The length of a string literal after its opening quote; a character behind a backslash is
passed over. -/
def literalLength : Bool → List Char → Option Nat
  | _, [] => none
  | true, _ :: cs => (literalLength false cs).map (· + 1)
  | false, c :: cs =>
    if c = '\\' then (literalLength true cs).map (· + 1)
    else if c = '"' then some 1
    else (literalLength false cs).map (· + 1)

/-- The map of some fields: the last one of a key stays. -/
def collect (fields : List (String × Value)) : List (String × Value) :=
  fields.foldl (fun map f => Value.insertField f.1 f.2 map) []

/-- What literals read as. -/
abbrev Atoms := List Char → Option Value

/-- A key and the colon behind it. -/
def readKey (atom : Atoms) : List Char → Option (String × List Char)
  | '"' :: cs => do
    let n ← literalLength false cs
    let v ← atom ('"' :: cs.take n)
    let key ← v.asStr
    match skipWs (cs.drop n) with
    | ':' :: after => some (key, after)
    | _ => none
  | _ => none

/-- A literal. -/
def readAtom (atom : Atoms) (cs : List Char) : Option (Value × List Char) :=
  let token := cs.takeWhile atomChar
  if token = [] then none else (atom token).map fun v => (v, cs.drop token.length)

def readString (atom : Atoms) (cs : List Char) : Option (Value × List Char) := do
  let n ← literalLength false cs
  let v ← atom ('"' :: cs.take n)
  return (v, cs.drop n)

mutual

/-- A value, when its first character is ahead. -/
def readValue (atom : Atoms) : Nat → List Char → Option (Value × List Char)
  | 0, _ => none
  | fuel + 1, '\x7b' :: cs =>
    match skipWs cs with
    | '\x7d' :: after => some (.object [], after)
    | inner => (readMembers atom fuel inner).map fun p => (.object (collect p.1), p.2)
  | fuel + 1, '[' :: cs =>
    match skipWs cs with
    | ']' :: after => some (.array [], after)
    | inner => (readItems atom fuel inner).map fun p => (.array p.1, p.2)
  | _ + 1, '"' :: cs => readString atom cs
  | _ + 1, cs => readAtom atom cs

/-- The members of an object from a key on, and its closing brace. -/
def readMembers (atom : Atoms) : Nat → List Char → Option (List (String × Value) × List Char)
  | 0, _ => none
  | fuel + 1, cs => do
    let (key, after) ← readKey atom cs
    let (v, after) ← readValue atom fuel (skipWs after)
    match skipWs after with
    | '\x7d' :: after => some ([(key, v)], after)
    | ',' :: after => do
      let (more, after) ← readMembers atom fuel (skipWs after)
      return ((key, v) :: more, after)
    | _ => none

/-- The items of an array from one of them on, and its closing bracket. -/
def readItems (atom : Atoms) : Nat → List Char → Option (List Value × List Char)
  | 0, _ => none
  | fuel + 1, cs => do
    let (v, after) ← readValue atom fuel cs
    match skipWs after with
    | ']' :: after => some ([v], after)
    | ',' :: after => do
      let (more, after) ← readItems atom fuel (skipWs after)
      return (v :: more, after)
    | _ => none

end

/-- A whole text. -/
def read (atom : Atoms) (cs : List Char) : Option Value := do
  let (v, after) ← readValue atom (cs.length + 1) (skipWs cs)
  if skipWs after = [] then some v else none

/-! ## Maps -/

theorem sorted_collect (fields : List (String × Value)) : Value.SortedByKey (collect fields) :=
  (Value.foldl_insertField fields List.Pairwise.nil).1

/-- What a map holds under a key comes from that key alone. -/
theorem lookup_foldl_congr (fields : List (String × Value)) {map map' : List (String × Value)}
    {key : String} (h : map.lookup key = map'.lookup key) :
    (fields.foldl (fun map f => Value.insertField f.1 f.2 map) map).lookup key =
      (fields.foldl (fun map f => Value.insertField f.1 f.2 map) map').lookup key := by
  induction fields generalizing map map' with
  | nil => exact h
  | cons f fields ih =>
    refine ih ?_
    by_cases hkey : key = f.1
    · rw [hkey, Value.lookup_insertField_self, Value.lookup_insertField_self]
    · rw [Value.lookup_insertField_ne hkey, Value.lookup_insertField_ne hkey, h]

theorem lookup_foldl_absent {fields : List (String × Value)} {key : String}
    (h : key ∉ fields.map Prod.fst) (map : List (String × Value)) :
    (fields.foldl (fun map f => Value.insertField f.1 f.2 map) map).lookup key = map.lookup key := by
  induction fields generalizing map with
  | nil => rfl
  | cons f fields ih =>
    obtain ⟨hkey, hrest⟩ := not_or.mp fun hin => h (List.mem_cons.mpr hin)
    rw [List.foldl_cons, ih hrest, Value.lookup_insertField_ne hkey]

theorem lookup_collect_absent {fields : List (String × Value)} {key : String}
    (h : key ∉ fields.map Prod.fst) : (collect fields).lookup key = none :=
  lookup_foldl_absent h []

theorem collect_append (fields more : List (String × Value)) :
    collect (fields ++ more) =
      more.foldl (fun map f => Value.insertField f.1 f.2 map) (collect fields) :=
  List.foldl_append

theorem lookup_collect {fields more : List (String × Value)} {key : String}
    (h : key ∉ more.map Prod.fst) (v : Value) :
    (collect (fields ++ (key, v) :: more)).lookup key = some v := by
  rw [collect_append, List.foldl_cons, lookup_foldl_absent h, Value.lookup_insertField_self]

/-- One more field. -/
theorem collect_concat (fields : List (String × Value)) (key : String) (v : Value) :
    collect (fields ++ [(key, v)]) = Value.insertField key v (collect fields) :=
  collect_append fields [(key, v)]

/-- Another value under the last field of a key. -/
theorem collect_replaced {fields more : List (String × Value)} {key : String}
    (h : key ∉ more.map Prod.fst) (v w : Value) :
    collect (fields ++ (key, w) :: more) =
      Value.insertField key w (collect (fields ++ (key, v) :: more)) := by
  refine (sorted_collect _).ext ((sorted_collect _).insertField key w) fun k => ?_
  by_cases hk : k = key
  · rw [hk, lookup_collect h, Value.lookup_insertField_self]
  · rw [Value.lookup_insertField_ne hk, collect_append, collect_append, List.foldl_cons,
      List.foldl_cons]
    refine lookup_foldl_congr more ?_
    rw [Value.lookup_insertField_ne hk, Value.lookup_insertField_ne hk]

/-! ## White space -/

/-- White space alone. -/
def Blank (cs : List Char) : Prop := ∀ c ∈ cs, isWs c = true

instance (cs : List Char) : Decidable (Blank cs) := List.decidableBAll (fun c => isWs c = true) cs

theorem Blank.append {xs ys : List Char} (hxs : Blank xs) (hys : Blank ys) : Blank (xs ++ ys) := by
  intro c hc
  rcases List.mem_append.mp hc with hin | hin
  · exact hxs c hin
  · exact hys c hin

theorem skipWs_append {blank : List Char} (h : Blank blank) (cs : List Char) :
    skipWs (blank ++ cs) = skipWs cs := by
  induction blank with
  | nil => rfl
  | cons c blank ih =>
    have hc := h c List.mem_cons_self
    have hrest := ih fun d hd => h d (List.mem_cons_of_mem _ hd)
    rw [List.cons_append, skipWs, List.dropWhile_cons_of_pos hc]
    exact hrest

theorem skipWs_cons {c : Char} (h : isWs c = false) (cs : List Char) : skipWs (c :: cs) = c :: cs := by
  rw [skipWs, List.dropWhile_cons_of_neg (by simp [h])]

/-! ## String literals -/

theorem literalLength_append {escaped : Bool} {cs : List Char} {n : Nat}
    (h : literalLength escaped cs = some n) (rest : List Char) :
    literalLength escaped (cs ++ rest) = some n := by
  induction cs generalizing escaped n with
  | nil => cases escaped <;> cases h
  | cons c cs ih =>
    cases escaped with
    | true =>
      obtain ⟨m, hm, rfl⟩ := Option.map_eq_some_iff.mp h
      simp [literalLength, ih hm]
    | false =>
      unfold literalLength at h
      rw [List.cons_append]
      unfold literalLength
      split at h
      · obtain ⟨m, hm, rfl⟩ := Option.map_eq_some_iff.mp h
        simp [ih hm, *]
      · split at h
        · cases h
          simp [*]
        · obtain ⟨m, hm, rfl⟩ := Option.map_eq_some_iff.mp h
          simp [ih hm, *]

/-! ## A library -/

/-- A literal reads as what is printed so. -/
def printedAtom : Atoms := fun token => (JsonText.read token).filter fun v => v.asObject.isNone

/-- A library that reads every text of the grammar, and prints compactly. -/
def readerCodec : JsonCodec where
  fromSlice bytes := (String.fromUTF8? ⟨bytes.toArray⟩).bind fun s => read printedAtom s.toList
  toText := JsonText.compactCodec.toText
  errorText := JsonText.compactCodec.errorText

theorem readerCodec_fromStr (s : String) : readerCodec.fromStr s = read printedAtom s.toList := by
  simp [JsonCodec.fromStr, readerCodec, JsonText.fromUTF8_utf8]

end JsonReader
