import AnyConverter.Lib.Text
import AnyConverter.Lib.Json

/-!
# Format-preserving editors

What the JSON, dotenv and TOML editors share.  Every editor works on text alone; an edit that fails
has written nothing.
-/

set_option autoImplicit false

namespace AnyConverter

/-- Errors of the editors. -/
inductive EditError where
  | parse (message : String)
  | notFound (key : String)
  deriving DecidableEq, Repr

/-- A step that went on gave a value to go on with. -/
theorem of_bind_ok {ε α β : Type} {first : Except ε α} {next : α → Except ε β} {result : β}
    (h : (first >>= next) = .ok result) : ∃ a, first = .ok a ∧ next a = .ok result := by
  cases first with
  | ok a => exact ⟨a, rfl, h⟩
  | error e => cases h

/-- A single assignment: a dotted path, or the name of a variable, and its value. -/
structure KV where
  path : String
  value : Value

/-- The UTF-8 byte order mark. -/
def bom : Char := '\uFEFF'

/-- A leading byte order mark, and the body of a document. -/
def splitBom : List Char → List Char × List Char
  | c :: body => if c = bom then ([c], body) else ([], c :: body)
  | [] => ([], [])

theorem splitBom_append (text : List Char) : (splitBom text).1 ++ (splitBom text).2 = text := by
  unfold splitBom
  split
  · split <;> rfl
  · rfl

/-- The value under a key is replaced, or added behind the others. -/
def insertKey {α : Type} (key : String) (v : α) : List (String × α) → List (String × α)
  | [] => [(key, v)]
  | f :: fields => if f.1 = key then (key, v) :: fields else f :: insertKey key v fields

def removeKey {α : Type} (key : String) (fields : List (String × α)) : List (String × α) :=
  fields.filter fun f => f.1 ≠ key

/-- The segments of a dotted path. -/
def segmentsOf (path : String) : List String :=
  ((Text.splitChar '.' path.toList).filter (· ≠ [])).map String.ofList

/-- `text[start..stop]`. -/
def slice (text : List Char) (start stop : Nat) : List Char := (text.take stop).drop start

/-- `text` with `text[start..stop]` replaced. -/
def splice (text : List Char) (start stop : Nat) (replacement : List Char) : List Char :=
  text.take start ++ replacement ++ text.drop stop

theorem length_splice {text : List Char} {start stop : Nat} (hstart : start ≤ stop)
    (hstop : stop ≤ text.length) (replacement : List Char) :
    (splice text start stop replacement).length + (stop - start) =
      text.length + replacement.length := by
  unfold splice
  simp only [List.length_append, List.length_take, List.length_drop]
  omega

end AnyConverter
