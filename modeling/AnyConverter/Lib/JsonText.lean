import Mathlib.Data.Nat.Digits.Defs
import AnyConverter.Lib.Text
import AnyConverter.Lib.Json

/-!
# Compact JSON text

A reader and a compact printer for `Value`, so that a statement about every lawful `JsonCodec`
is about something: `compactCodec` prints without white space, in the order of the fields, and
reads its own output back (`compactCodec_lawful`).  Decimals are printed in exponent form.
-/

set_option autoImplicit false

namespace JsonText

/-! ## Numbers -/

def showNat (n : Nat) : List Char :=
  if n = 0 then ['0'] else ((Nat.digits 10 n).map Nat.digitChar).reverse

def digitValue (c : Char) : Nat := c.toNat - 48

/-- The longest run of digits and what follows it. -/
def spanDigits : List Char → List Char × List Char
  | [] => ([], [])
  | c :: cs => if c.isDigit then let p := spanDigits cs; (c :: p.1, p.2) else ([], c :: cs)

def readNat (cs : List Char) : Option (Nat × List Char) :=
  let p := spanDigits cs
  if p.1.isEmpty then none else some (Nat.ofDigits 10 (p.1.reverse.map digitValue), p.2)

def showInt : Int → List Char
  | .ofNat n => showNat n
  | .negSucc n => '-' :: showNat (n + 1)

def readInt : List Char → Option (Int × List Char)
  | [] => none
  | c :: cs =>
    if c = '-' then (readNat cs).map fun p => (-(p.1 : Int), p.2)
    else (readNat (c :: cs)).map fun p => ((p.1 : Int), p.2)

def showNumber : Number → List Char
  | .int i => showInt i
  | .decimal m e => showInt m ++ 'e' :: showInt e

def readNumber (cs : List Char) : Option (Number × List Char) :=
  match readInt cs with
  | none => none
  | some (m, rest) =>
    match rest with
    | [] => some (.int m, [])
    | c :: rest' =>
      if c = 'e' then (readInt rest').map fun p => (.decimal m p.1, p.2)
      else some (.int m, c :: rest')

/-- What may follow a number: nothing a number could go on with. -/
def Stops : List Char → Prop
  | [] => True
  | c :: _ => c.isDigit = false ∧ c ≠ 'e'

theorem digitChar_facts : ∀ d < 10, (Nat.digitChar d).isDigit = true ∧
    digitValue (Nat.digitChar d) = d ∧ Nat.digitChar d ≠ '-' := by decide

theorem spanDigits_append {ds rest : List Char} (hd : ∀ c ∈ ds, c.isDigit = true)
    (hr : ∀ c r, rest = c :: r → c.isDigit = false) : spanDigits (ds ++ rest) = (ds, rest) := by
  induction ds with
  | nil =>
    cases rest with
    | nil => rfl
    | cons c r => simp [spanDigits, hr c r rfl]
  | cons c ds ih =>
    have hc := hd c List.mem_cons_self
    have ih' := ih fun x hx => hd x (List.mem_cons_of_mem _ hx)
    simp [spanDigits, hc, ih']

theorem showNat_ne_nil (n : Nat) : showNat n ≠ [] := by
  unfold showNat
  split
  · simp
  · rename_i h
    simpa [Nat.digits_eq_nil_iff_eq_zero] using h

theorem showNat_isDigit (n : Nat) : ∀ c ∈ showNat n, c.isDigit = true := by
  unfold showNat
  split
  · simp
  · intro c hc
    rw [List.mem_reverse, List.mem_map] at hc
    obtain ⟨d, hd, rfl⟩ := hc
    exact (digitChar_facts d (Nat.digits_lt_base (by omega) hd)).1

theorem ofDigits_showNat (n : Nat) :
    Nat.ofDigits 10 ((showNat n).reverse.map digitValue) = n := by
  unfold showNat
  split
  · subst_vars; decide
  · have hmap : ((Nat.digits 10 n).map Nat.digitChar).map digitValue = Nat.digits 10 n := by
      rw [List.map_map]
      refine (List.map_congr_left fun d hd => ?_).trans (List.map_id _)
      exact (digitChar_facts d (Nat.digits_lt_base (by omega) hd)).2.1
    rw [List.reverse_reverse, hmap, Nat.ofDigits_digits]

theorem readNat_showNat (n : Nat) {rest : List Char}
    (hr : ∀ c r, rest = c :: r → c.isDigit = false) : readNat (showNat n ++ rest) = some (n, rest) := by
  unfold readNat
  rw [spanDigits_append (showNat_isDigit n) hr]
  have hne : (showNat n).isEmpty = false := by simp [showNat_ne_nil n]
  simp only [hne, Bool.false_eq_true, if_false, ofDigits_showNat]

theorem showNat_head (n : Nat) : ∃ c cs, showNat n = c :: cs ∧ c.isDigit = true ∧ c ≠ '-' := by
  obtain ⟨c, cs, hcs⟩ := List.exists_cons_of_ne_nil (showNat_ne_nil n)
  have hc := showNat_isDigit n c (by rw [hcs]; exact List.mem_cons_self)
  refine ⟨c, cs, hcs, hc, ?_⟩
  rintro rfl
  exact absurd hc (by decide)

theorem readInt_showInt (i : Int) {rest : List Char}
    (hr : ∀ c r, rest = c :: r → c.isDigit = false) : readInt (showInt i ++ rest) = some (i, rest) := by
  cases i with
  | ofNat n =>
    obtain ⟨c, cs, hcs, -, hc⟩ := showNat_head n
    have hn := readNat_showNat n hr
    simp only [showInt, hcs, List.cons_append, readInt, if_neg hc] at hn ⊢
    simp [hn]
  | negSucc n =>
    have hn := readNat_showNat (n + 1) hr
    simp [showInt, readInt, hn, Int.negSucc_eq]

theorem showNumber_head (n : Number) :
    ∃ c cs, showNumber n = c :: cs ∧ (c.isDigit = true ∨ c = '-') := by
  have hint : ∀ i : Int, ∃ c cs, showInt i = c :: cs ∧ (c.isDigit = true ∨ c = '-') := by
    intro i
    cases i with
    | ofNat n =>
      obtain ⟨c, cs, hcs, hc, -⟩ := showNat_head n
      exact ⟨c, cs, hcs, Or.inl hc⟩
    | negSucc n => exact ⟨'-', _, rfl, Or.inr rfl⟩
  cases n with
  | int i => exact hint i
  | decimal m e =>
    obtain ⟨c, cs, hcs, hc⟩ := hint m
    exact ⟨c, cs ++ 'e' :: showInt e, by rw [showNumber, hcs, List.cons_append], hc⟩

theorem readNumber_showNumber (n : Number) {rest : List Char} (hr : Stops rest) :
    readNumber (showNumber n ++ rest) = some (n, rest) := by
  have hdig : ∀ c r, rest = c :: r → c.isDigit = false := by
    rintro c r rfl
    exact hr.1
  cases n with
  | int i =>
    rw [readNumber, showNumber, readInt_showInt i hdig]
    cases rest with
    | nil => rfl
    | cons c r => simp [hr.2]
  | decimal m e =>
    have hm : readInt (showInt m ++ ('e' :: showInt e ++ rest)) = some (m, 'e' :: showInt e ++ rest) :=
      readInt_showInt m (by rintro c r h; cases h; decide)
    rw [readNumber, showNumber, List.append_assoc, hm]
    simp [readInt_showInt e hdig]

/-! ## Strings -/

/-- The characters with a two-character escape, and the letter of it. -/
def escapes : List (Char × Char) :=
  [('"', '"'), ('\\', '\\'), ('\n', 'n'), ('\r', 'r'), ('\t', 't'), (Char.ofNat 8, 'b'),
    (Char.ofNat 12, 'f')]

def unescape (letter : Char) : Option Char := (escapes.find? (·.2 == letter)).map (·.1)

def escapeChar (c : Char) : List Char :=
  match escapes.lookup c with
  | some letter => ['\\', letter]
  | none =>
    if c.toNat < 32 then
      ['\\', 'u', '0', '0', Nat.digitChar (c.toNat / 16), Nat.digitChar (c.toNat % 16)]
    else [c]

def hexValue (c : Char) : Nat := if c.isDigit then c.toNat - 48 else c.toNat - 87

def showString (s : List Char) : List Char := '"' :: s.flatMap escapeChar ++ ['"']

/-- The characters of a string after its opening quote. -/
def readChars : List Char → Option (List Char × List Char)
  | [] => none
  | c :: cs =>
    if c = '"' then some ([], cs)
    else if c = '\\' then
      match cs with
      | [] => none
      | letter :: cs1 =>
        if letter = 'u' then
          match cs1 with
          | h1 :: h2 :: h3 :: h4 :: cs2 =>
            let code := ((hexValue h1 * 16 + hexValue h2) * 16 + hexValue h3) * 16 + hexValue h4
            (readChars cs2).map fun p => (Char.ofNat code :: p.1, p.2)
          | _ => none
        else
          match unescape letter with
          | none => none
          | some x => (readChars cs1).map fun p => (x :: p.1, p.2)
    else (readChars cs).map fun p => (c :: p.1, p.2)

theorem escapes_facts : ∀ p ∈ escapes, p.2 ≠ 'u' ∧ unescape p.2 = some p.1 := by decide

theorem hexValue_digitChar : ∀ d < 16, hexValue (Nat.digitChar d) = d := by decide

theorem readChars_escapeChar (c : Char) (rest : List Char) :
    readChars (escapeChar c ++ rest) = (readChars rest).map fun p => (c :: p.1, p.2) := by
  unfold escapeChar
  split
  · rename_i letter hl
    have hmem : (c, letter) ∈ escapes := by
      obtain ⟨l₁, l₂, hsplit, -⟩ := List.lookup_eq_some_iff.mp hl
      rw [hsplit]
      simp
    obtain ⟨hu, hun⟩ := escapes_facts _ hmem
    have hne : letter ≠ 'u' := hu
    have hun' : unescape letter = some c := hun
    rw [readChars.eq_def]
    simp [hne, hun']
  · rename_i hl
    have hne : ∀ p ∈ escapes, c ≠ p.1 := fun p hp => by
      simpa using List.lookup_eq_none_iff.mp hl p hp
    split
    · rename_i hlt
      have h1 := hexValue_digitChar (c.toNat / 16) (by omega)
      have h2 := hexValue_digitChar (c.toNat % 16) (by omega)
      have h0 : hexValue '0' = 0 := by decide
      have hc : c.toNat / 16 * 16 + c.toNat % 16 = c.toNat := by omega
      rw [readChars.eq_def]
      simp [h0, h1, h2, hc]
    · have hq : c ≠ '"' := hne ('"', '"') (by decide)
      have hb : c ≠ '\\' := hne ('\\', '\\') (by decide)
      rw [List.singleton_append, readChars.eq_def]
      simp [hq, hb]

theorem readChars_showString (s rest : List Char) :
    readChars (s.flatMap escapeChar ++ ('"' :: rest)) = some (s, rest) := by
  induction s with
  | nil =>
    rw [List.flatMap_nil, List.nil_append, readChars.eq_def]
    simp
  | cons c s ih =>
    rw [List.flatMap_cons, List.append_assoc, readChars_escapeChar, ih]
    rfl

/-! ## Values -/

mutual
def showValue : Value → List Char
  | .null => "null".toList
  | .bool true => "true".toList
  | .bool false => "false".toList
  | .number n => showNumber n
  | .string s => showString s.toList
  | .array [] => ['[', ']']
  | .array (x :: xs) => '[' :: (showValue x ++ showItems xs)
  | .object [] => [Char.ofNat 123, Char.ofNat 125]
  | .object ((k, v) :: fs) =>
    Char.ofNat 123 :: (showString k.toList ++ ':' :: (showValue v ++ showFields fs))
/-- The items after the first one, and the closing bracket. -/
def showItems : List Value → List Char
  | [] => [']']
  | x :: xs => ',' :: (showValue x ++ showItems xs)
/-- The fields after the first one, and the closing brace. -/
def showFields : List (String × Value) → List Char
  | [] => [Char.ofNat 125]
  | (k, v) :: fs => ',' :: (showString k.toList ++ ':' :: (showValue v ++ showFields fs))
end

mutual
/-- Recursive descent; `fuel` bounds the nesting and the number of elements. -/
def readValue : Nat → List Char → Option (Value × List Char)
  | 0, _ => none
  | _ + 1, [] => none
  | fuel + 1, c :: cs =>
    if c = 'n' then (Text.stripList "ull".toList cs).map fun r => (.null, r)
    else if c = 't' then (Text.stripList "rue".toList cs).map fun r => (.bool true, r)
    else if c = 'f' then (Text.stripList "alse".toList cs).map fun r => (.bool false, r)
    else if c = '"' then (readChars cs).map fun p => (.string (String.ofList p.1), p.2)
    else if c = '[' then
      match cs with
      | [] => none
      | d :: ds =>
        if d = ']' then some (.array [], ds)
        else
          match readValue fuel (d :: ds) with
          | none => none
          | some (x, r) => (readItems fuel r).map fun p => (.array (x :: p.1), p.2)
    else if c = Char.ofNat 123 then
      match cs with
      | [] => none
      | d :: ds =>
        if d = Char.ofNat 125 then some (.object [], ds)
        else
          match readField fuel (d :: ds) with
          | none => none
          | some (f, r) => (readFields fuel r).map fun p => (.object (f :: p.1), p.2)
    else (readNumber (c :: cs)).map fun p => (.number p.1, p.2)
def readItems : Nat → List Char → Option (List Value × List Char)
  | 0, _ => none
  | _ + 1, [] => none
  | fuel + 1, c :: cs =>
    if c = ']' then some ([], cs)
    else if c = ',' then
      match readValue fuel cs with
      | none => none
      | some (x, r) => (readItems fuel r).map fun p => (x :: p.1, p.2)
    else none
/-- A key, a colon and a value. -/
def readField : Nat → List Char → Option ((String × Value) × List Char)
  | 0, _ => none
  | _ + 1, [] => none
  | fuel + 1, c :: cs =>
    if c = '"' then
      match readChars cs with
      | some (k, d :: r) =>
        if d = ':' then (readValue fuel r).map fun p => ((String.ofList k, p.1), p.2) else none
      | _ => none
    else none
def readFields : Nat → List Char → Option (List (String × Value) × List Char)
  | 0, _ => none
  | _ + 1, [] => none
  | fuel + 1, c :: cs =>
    if c = Char.ofNat 125 then some ([], cs)
    else if c = ',' then
      match readField fuel cs with
      | none => none
      | some (f, r) => (readFields fuel r).map fun p => (f :: p.1, p.2)
    else none
end

mutual
/-- The fuel reading a value back takes. -/
def cost : Value → Nat
  | .array xs => 1 + costItems xs
  | .object fs => 1 + costFields fs
  | _ => 1
def costItems : List Value → Nat
  | [] => 1
  | x :: xs => 1 + cost x + costItems xs
def costFields : List (String × Value) → Nat
  | [] => 1
  | (_, v) :: fs => 2 + cost v + costFields fs
end

mutual
theorem cost_lt : ∀ v : Value, cost v + 1 ≤ 2 * (showValue v).length
  | .null | .bool true | .bool false => by decide
  | .number n => by
    obtain ⟨c, cs, hcs, -⟩ := showNumber_head n
    simp only [cost, showValue, hcs, List.length_cons]
    omega
  | .string s => by
    simp only [cost, showValue, showString, List.length_append, List.length_cons]
    omega
  | .array [] => by decide
  | .array (x :: xs) => by
    have hx := cost_lt x
    have hxs := costItems_lt xs
    simp only [cost, costItems, showValue, List.length_append, List.length_cons]
    omega
  | .object [] => by decide
  | .object ((k, v) :: fs) => by
    have hv := cost_lt v
    have hfs := costFields_lt fs
    simp only [cost, costFields, showValue, List.length_append, List.length_cons]
    omega
theorem costItems_lt : ∀ xs : List Value, costItems xs + 1 ≤ 2 * (showItems xs).length
  | [] => by decide
  | x :: xs => by
    have hx := cost_lt x
    have hxs := costItems_lt xs
    simp only [costItems, showItems, List.length_append, List.length_cons]
    omega
theorem costFields_lt : ∀ fs : List (String × Value),
    costFields fs + 1 ≤ 2 * (showFields fs).length
  | [] => by decide
  | (k, v) :: fs => by
    have hv := cost_lt v
    have hfs := costFields_lt fs
    simp only [costFields, showFields, List.length_append, List.length_cons]
    omega
end

/-! ## Reading back what was printed -/

/-- The first character of a value neither closes a list nor an object. -/
theorem showValue_head (v : Value) :
    ∃ c cs, showValue v = c :: cs ∧ c ≠ ']' ∧ c ≠ Char.ofNat 125 := by
  cases v with
  | null => exact ⟨_, _, rfl, by decide, by decide⟩
  | bool b => cases b <;> exact ⟨_, _, rfl, by decide, by decide⟩
  | number n =>
    obtain ⟨c, cs, hcs, hc⟩ := showNumber_head n
    refine ⟨c, cs, hcs, ?_, ?_⟩ <;> rintro rfl <;> revert hc <;> decide
  | string s => exact ⟨_, _, rfl, by decide, by decide⟩
  | array xs => cases xs <;> exact ⟨_, _, rfl, by decide, by decide⟩
  | object fs => cases fs <;> exact ⟨_, _, rfl, by decide, by decide⟩

theorem stops_showItems (xs : List Value) (rest : List Char) : Stops (showItems xs ++ rest) := by
  cases xs <;> exact ⟨by decide, by decide⟩

theorem stops_showFields (fs : List (String × Value)) (rest : List Char) :
    Stops (showFields fs ++ rest) := by
  cases fs <;> exact ⟨by decide, by decide⟩

theorem readValue_number (n : Number) (fuel : Nat) {rest : List Char} (hr : Stops rest) :
    readValue (fuel + 1) (showNumber n ++ rest) = some (.number n, rest) := by
  obtain ⟨c, cs, hcs, hc⟩ := showNumber_head n
  have hread := readNumber_showNumber n hr
  rw [hcs, List.cons_append] at hread ⊢
  have hne : ∀ d : Char, (d.isDigit = false ∧ d ≠ '-') → c ≠ d := by
    rintro d ⟨hd, hd'⟩ rfl
    rcases hc with hc | hc
    · rw [hc] at hd
      cases hd
    · exact hd' hc
  rw [readValue.eq_def]
  dsimp only
  rw [if_neg (hne _ (by decide)), if_neg (hne _ (by decide)),
    if_neg (hne _ (by decide)), if_neg (hne _ (by decide)), if_neg (hne _ (by decide)),
    if_neg (hne _ (by decide)), hread]
  rfl

theorem readValue_string (s : String) (fuel : Nat) (rest : List Char) :
    readValue (fuel + 1) (showString s.toList ++ rest) = some (.string s, rest) := by
  have hread := readChars_showString s.toList rest
  simp only [showString, List.cons_append, List.append_assoc, List.nil_append]
  rw [readValue.eq_def]
  simp [hread]

theorem readField_showString (k : String) (v : Value) (fuel : Nat) {text rest : List Char}
    (hv : readValue fuel text = some (v, rest)) :
    readField (fuel + 1) (showString k.toList ++ ':' :: text) = some ((k, v), rest) := by
  have hread := readChars_showString k.toList (':' :: text)
  simp only [showString, List.cons_append, List.append_assoc, List.nil_append]
  rw [readField]
  simp [hread, hv]

mutual
theorem readValue_showValue : ∀ (v : Value) (fuel : Nat) (rest : List Char), cost v ≤ fuel →
    Stops rest → readValue fuel (showValue v ++ rest) = some (v, rest)
  | v, 0, _, hf, _ => by cases v <;> simp [cost] at hf
  | .null, fuel + 1, rest, _, _ => by simp [showValue, readValue, Text.stripList]
  | .bool true, fuel + 1, rest, _, _ => by simp [showValue, readValue, Text.stripList]
  | .bool false, fuel + 1, rest, _, _ => by simp [showValue, readValue, Text.stripList]
  | .number n, fuel + 1, _, _, hr => readValue_number n fuel hr
  | .string s, fuel + 1, rest, _, _ => readValue_string s fuel rest
  | .array [], fuel + 1, rest, _, _ => by simp [showValue, readValue]
  | .array (x :: xs), fuel + 1, rest, hf, _ => by
    simp only [cost, costItems] at hf
    obtain ⟨c, cs, hcs, hc, -⟩ := showValue_head x
    have hx := readValue_showValue x fuel (showItems xs ++ rest) (by omega)
      (stops_showItems xs rest)
    have hxs := readItems_showItems xs fuel rest (by omega)
    simp only [showValue, List.cons_append, List.append_assoc]
    rw [hcs, List.cons_append] at hx ⊢
    rw [readValue]
    simp [hc, hx, hxs]
  | .object [], fuel + 1, rest, _, _ => by simp [showValue, readValue]
  | .object ((k, v) :: fs), fuel + 1, rest, hf, _ => by
    simp only [cost, costFields] at hf
    obtain ⟨fuel, rfl⟩ : ∃ n, fuel = n + 1 := ⟨fuel - 1, by omega⟩
    have hv := readValue_showValue v fuel (showFields fs ++ rest) (by omega)
      (stops_showFields fs rest)
    have hfield := readField_showString k v fuel hv
    have hfs := readFields_showFields fs (fuel + 1) rest (by omega)
    simp only [showValue, showString, List.cons_append, List.append_assoc, List.nil_append]
      at hfield ⊢
    rw [readValue]
    simp [hfield, hfs]
theorem readItems_showItems : ∀ (xs : List Value) (fuel : Nat) (rest : List Char),
    costItems xs ≤ fuel → readItems fuel (showItems xs ++ rest) = some (xs, rest)
  | xs, 0, _, hf => by cases xs <;> simp [costItems] at hf
  | [], fuel + 1, rest, _ => by simp [showItems, readItems]
  | x :: xs, fuel + 1, rest, hf => by
    simp only [costItems] at hf
    have hx := readValue_showValue x fuel (showItems xs ++ rest) (by omega)
      (stops_showItems xs rest)
    have hxs := readItems_showItems xs fuel rest (by omega)
    simp only [showItems, List.cons_append, List.append_assoc]
    rw [readItems]
    simp [hx, hxs]
theorem readFields_showFields : ∀ (fs : List (String × Value)) (fuel : Nat) (rest : List Char),
    costFields fs ≤ fuel → readFields fuel (showFields fs ++ rest) = some (fs, rest)
  | fs, 0, _, hf => by
    cases fs with
    | nil => simp [costFields] at hf
    | cons f fs =>
      simp only [costFields] at hf
      omega
  | [], fuel + 1, rest, _ => by simp [showFields, readFields]
  | (k, v) :: fs, fuel + 1, rest, hf => by
    simp only [costFields] at hf
    obtain ⟨fuel, rfl⟩ : ∃ n, fuel = n + 1 := ⟨fuel - 1, by omega⟩
    have hv := readValue_showValue v fuel (showFields fs ++ rest) (by omega)
      (stops_showFields fs rest)
    have hfield := readField_showString k v fuel hv
    have hfs := readFields_showFields fs (fuel + 1) rest (by omega)
    simp only [showFields, List.cons_append, List.append_assoc]
    rw [readFields]
    simp [hfield, hfs]
end

/-! ## The codec -/

/-- Read a whole text. -/
def read (s : List Char) : Option Value :=
  match readValue (2 * s.length) s with
  | some (v, []) => some v
  | _ => none

theorem read_showValue (v : Value) : read (showValue v) = some v := by
  have hcost := cost_lt v
  have hread := readValue_showValue v (2 * (showValue v).length) [] (by omega) trivial
  rw [List.append_nil] at hread
  rw [read, hread]

/-- Compact JSON text. -/
def compactCodec : JsonCodec where
  fromSlice bytes := (String.fromUTF8? ⟨bytes.toArray⟩).bind fun s => read s.toList
  toText v := String.ofList (showValue v)
  errorText _ := "expected value"

theorem fromUTF8_utf8 (s : String) : String.fromUTF8? ⟨(utf8 s).toArray⟩ = some s := by
  have hb : (⟨(utf8 s).toArray⟩ : ByteArray) = s.toUTF8 := by simp [utf8]
  have hv : s.toUTF8.IsValidUTF8 := s.isValidUTF8
  rw [hb, String.fromUTF8?, dif_pos hv]
  rfl

theorem escapeChar_ne_nil (c : Char) : escapeChar c ≠ [] := by
  unfold escapeChar
  split
  · exact List.cons_ne_nil _ _
  · split <;> exact List.cons_ne_nil _ _

/-- A text gets longer when it is printed. -/
theorem length_toText_string (text : String) :
    text.length < (compactCodec.toText (.string text)).length := by
  have hchars : ∀ cs : List Char, cs.length ≤ (cs.flatMap escapeChar).length := by
    intro cs
    induction cs with
    | nil => exact Nat.le_refl _
    | cons c cs ih =>
      have hc := List.length_pos_iff.mpr (escapeChar_ne_nil c)
      rw [List.flatMap_cons, List.length_append, List.length_cons]
      omega
  have htext := hchars text.toList
  show text.length < (String.ofList (showValue (.string text))).length
  rw [showValue, showString, String.length_ofList, List.length_append, List.length_cons,
    List.length_singleton]
  rw [String.length_toList] at htext
  omega

theorem compactCodec_fromStr (s : String) : compactCodec.fromStr s = read s.toList := by
  simp [JsonCodec.fromStr, compactCodec, fromUTF8_utf8]

theorem showFields_eq_intercalate (f : String × Value) (fs : List (String × Value)) :
    showString f.1.toList ++ ':' :: (showValue f.2 ++ showFields fs) =
      [','].intercalate
        ((f :: fs).map fun g => showString g.1.toList ++ ':' :: showValue g.2) ++
        [Char.ofNat 125] := by
  induction fs generalizing f with
  | nil => simp [showFields]
  | cons g gs ih =>
    have ih' := ih g
    rw [showFields, ih']
    simp [List.intercalate]

theorem escapes_special : ∀ p ∈ escapes, ¬(p.1.isAlphanum ∨ p.1 = '_') := by decide

theorem control_special : ∀ n < 32, ¬((Char.ofNat n).isAlphanum ∨ Char.ofNat n = '_') := by decide

theorem escapeChar_plain {c : Char} (h : c.isAlphanum ∨ c = '_') : escapeChar c = [c] := by
  have hl : escapes.lookup c = none := by
    rw [List.lookup_eq_none_iff]
    intro p hp
    have hne : c ≠ p.1 := by
      rintro rfl
      exact escapes_special p hp h
    simpa using hne
  have hn : ¬c.toNat < 32 := by
    intro hlt
    have hc := control_special c.toNat hlt
    rw [Char.ofNat_toNat] at hc
    exact hc h
  simp only [escapeChar, hl, if_neg hn]

theorem flatMap_escapeChar_plain {cs : List Char} (h : ∀ c ∈ cs, c.isAlphanum ∨ c = '_') :
    cs.flatMap escapeChar = cs := by
  induction cs with
  | nil => rfl
  | cons c cs ih =>
    have hc := escapeChar_plain (h c List.mem_cons_self)
    have hcs := ih fun d hd => h d (List.mem_cons_of_mem _ hd)
    simp [hc, hcs]

/-- **Reading inverts printing.** -/
theorem compactCodec_lawful : compactCodec.Lawful where
  read_print v := by
    rw [compactCodec_fromStr]
    simpa [compactCodec] using read_showValue v
  print_object fields := by
    apply String.toList_inj.mp
    cases fields with
    | nil => simp [compactCodec, showValue]
    | cons f fs =>
      have hfs := showFields_eq_intercalate f fs
      obtain ⟨k, v⟩ := f
      simp only [compactCodec, showValue, hfs]
      simp [Function.comp_def, -String.intercalate_cons_append]
  print_plain s h := by
    apply String.toList_inj.mp
    simp [compactCodec, showValue, showString, flatMap_escapeChar_plain h]
  read_empty := by
    rw [compactCodec_fromStr]
    rfl

/-- What was printed decodes as its value does. -/
theorem compactCodec_decode {α : Type} (ofValue : Value → Option α) (v : Value) :
    compactCodec.decode ofValue (compactCodec.toText v) = ofValue v := by
  simp [JsonCodec.decode, compactCodec_lawful.read_print v]

theorem compactCodec_toList (v : Value) : (compactCodec.toText v).toList = showValue v := by
  simp [compactCodec]

/-! ## One line -/

theorem lineFeed_not_mem_escapeChar (c : Char) : '\n' ∉ escapeChar c := by
  have hdigit : ∀ d < 16, Nat.digitChar d ≠ '\n' := by decide
  have hletter : ∀ p ∈ escapes, p.2 ≠ '\n' := by decide
  unfold escapeChar
  split
  · rename_i letter hlookup
    obtain ⟨before, after, heq, -⟩ := List.lookup_eq_some_iff.mp hlookup
    have hmem : (c, letter) ∈ escapes := heq ▸ List.mem_append_right before List.mem_cons_self
    simp [Ne.symm (hletter _ hmem)]
  · rename_i hnone
    have hc : c ≠ '\n' := by
      rintro rfl
      exact absurd hnone (by decide)
    split
    · rename_i hlt
      have hhigh := hdigit (c.toNat / 16) (by omega)
      have hlow := hdigit (c.toNat % 16) (by omega)
      simp [Ne.symm hhigh, Ne.symm hlow]
    · simp [Ne.symm hc]

theorem lineFeed_not_mem_showString (s : List Char) : '\n' ∉ showString s := by
  simp [showString, lineFeed_not_mem_escapeChar]

theorem lineFeed_not_mem_showInt (i : Int) : '\n' ∉ showInt i := by
  have hnat : ∀ n, '\n' ∉ showNat n := fun n hmem => absurd (showNat_isDigit n _ hmem) (by decide)
  cases i with
  | ofNat n => exact hnat n
  | negSucc n => simp [showInt, hnat]

theorem lineFeed_not_mem_showNumber (n : Number) : '\n' ∉ showNumber n := by
  cases n <;> simp [showNumber, lineFeed_not_mem_showInt]

mutual
theorem lineFeed_not_mem_showValue : ∀ v : Value, '\n' ∉ showValue v
  | .null | .bool true | .bool false => by decide
  | .number n => lineFeed_not_mem_showNumber n
  | .string s => lineFeed_not_mem_showString s.toList
  | .array [] => by decide
  | .array (x :: xs) => by
    simp [showValue, lineFeed_not_mem_showValue x, lineFeed_not_mem_showItems xs]
  | .object [] => by decide
  | .object ((k, v) :: fs) => by
    simp [showValue, lineFeed_not_mem_showString, lineFeed_not_mem_showValue v,
      lineFeed_not_mem_showFields fs]
theorem lineFeed_not_mem_showItems : ∀ xs : List Value, '\n' ∉ showItems xs
  | [] => by decide
  | x :: xs => by simp [showItems, lineFeed_not_mem_showValue x, lineFeed_not_mem_showItems xs]
theorem lineFeed_not_mem_showFields : ∀ fs : List (String × Value), '\n' ∉ showFields fs
  | [] => by decide
  | (k, v) :: fs => by
    simp [showFields, lineFeed_not_mem_showString, lineFeed_not_mem_showValue v,
      lineFeed_not_mem_showFields fs]
end

theorem compactCodec_oneLine : compactCodec.OneLine := by
  intro v
  rw [compactCodec_toList]
  exact lineFeed_not_mem_showValue v

end JsonText
