import AnyConverter.Wiring.Edit.Basic

/-!
# The dotenv editor

A changed variable stays on its line; comments, blank lines and other variables are kept as they
are.
-/

set_option autoImplicit false

namespace AnyConverter.EnvEdit

/-! ## Lines -/

/-- A line and its line end. -/
def splitLineEnd (line : List Char) : List Char × List Char :=
  if line.getLast? = some '\n' then
    let stripped := line.dropLast
    if stripped.getLast? = some '\r' then (stripped.dropLast, ['\r', '\n']) else (stripped, ['\n'])
  else (line, [])

inductive Quote where
  | none
  | single
  | double
  deriving DecidableEq

/-- An assignment: its variable, where its value stands, and how it is quoted. -/
structure Assignment where
  key : List Char
  valueStart : Nat
  valueStop : Nat
  quote : Quote

def isBlank (c : Char) : Bool := c == ' ' || c == '\t'

def blanks (cs : List Char) : Nat := (cs.takeWhile isBlank).length

/-- The length of a double-quoted value after its opening quote. -/
def doubleLength : List Char → Nat
  | [] => 0
  | ['\\'] => 1
  | '\\' :: _ :: cs => 2 + doubleLength cs
  | '"' :: _ => 1
  | _ :: cs => 1 + doubleLength cs

/-- The length of a single-quoted value after its opening quote. -/
def singleLength (cs : List Char) : Nat :=
  let n := (cs.takeWhile (· ≠ '\'')).length
  if n < cs.length then n + 1 else n

/-- The length of a value without quotes: `#` begins a comment at its start and after a blank. -/
def plainLength : Bool → Nat → Nat → List Char → Nat
  | _, _, stop, [] => stop
  | fresh, i, stop, c :: cs =>
    if c = '#' ∧ fresh then stop
    else plainLength (isBlank c) (i + 1) (if isBlank c then stop else i + 1) cs

/-- The blanks of a line, and its `export `. -/
def leadLength (content : List Char) : Nat :=
  let index := blanks content
  match Text.stripList "export".toList (content.drop index) with
  | some rest => if 0 < blanks rest then index + 6 + blanks rest else index
  | none => index

def endsKey (c : Char) : Bool := c == '=' || isBlank c || c == '#' || c == '\r'

def parseLine (content : List Char) : Option Assignment :=
  match content.drop (blanks content) with
  | [] => none
  | '#' :: _ => none
  | _ =>
    let keyStart := leadLength content
    let key := (content.drop keyStart).takeWhile fun c => !endsKey c
    if key = [] then none
    else
      let index := keyStart + key.length
      let index := index + blanks (content.drop index)
      match content.drop index with
      | '=' :: after =>
        let start := index + 1 + blanks after
        match content.drop start with
        | '"' :: cs => some ⟨key, start, start + 1 + doubleLength cs, .double⟩
        | '\'' :: cs => some ⟨key, start, start + 1 + singleLength cs, .single⟩
        | cs => some ⟨key, start, start + plainLength true 0 0 cs, .none⟩
      | _ => none

/-! ## Values -/

def unescapeDouble : List Char → List Char
  | [] => []
  | ['\\'] => ['\\']
  | '\\' :: c :: cs =>
    (if c = 'n' then ['\n'] else if c = 'r' then ['\r'] else if c = 't' then ['\t']
      else if c = '\\' ∨ c = '"' ∨ c = '\'' then [c] else ['\\', c]) ++ unescapeDouble cs
  | c :: cs => c :: unescapeDouble cs

def escapeDouble (raw : List Char) : List Char :=
  raw.flatMap fun c =>
    if c = '\\' then ['\\', '\\'] else if c = '"' then ['\\', '"'] else if c = '\n' then ['\\', 'n']
    else if c = '\r' then ['\\', 'r'] else if c = '\t' then ['\\', 't'] else [c]

/-- A value without its quotes, when it has both. -/
def unquote (quote : Char) (raw : List Char) : List Char :=
  match raw with
  | c :: cs => if c = quote ∧ cs.getLast? = some quote then cs.dropLast else raw
  | [] => []

def valueFromAssignment (content : List Char) (a : Assignment) : List Char :=
  let raw := slice content a.valueStart a.valueStop
  match a.quote with
  | .double => unescapeDouble (unquote '"' raw)
  | .single => unquote '\'' raw
  | .none => raw

def inDouble (raw : List Char) : List Char := '"' :: escapeDouble raw ++ ['"']

def quoteEnv (raw : List Char) : List Char :=
  if raw = [] ∨ raw.any fun c =>
      Text.isWhitespace c || c == '#' || c == '"' || c == '\'' || c == '\\' then inDouble raw
  else raw

def replaceValue (content : List Char) (a : Assignment) (raw : List Char) : List Char :=
  let value := match a.quote with
    | .double => inDouble raw
    | .single =>
      if '\'' ∈ raw ∨ '\n' ∈ raw ∨ '\r' ∈ raw then inDouble raw else '\'' :: raw ++ ['\'']
    | .none => quoteEnv raw
  splice content a.valueStart a.valueStop value

def kvRawValue (codec : JsonCodec) : Value → List Char
  | .string text => text.toList
  | .null => []
  | other => (codec.toText other).toList

/-! ## The editor -/

/-- The assignment on a line to one variable. -/
def assignmentOf (key : String) (line : List Char) : Option Assignment :=
  (parseLine (splitLineEnd line).1).filter fun a => a.key = key.toList

/-- The last assignment wins. -/
def get (original : String) (key : String) : Option String :=
  ((Text.splitInclusive (splitBom original.toList).2).foldl
    (fun result line =>
      match assignmentOf key line with
      | some a => some (valueFromAssignment (splitLineEnd line).1 a)
      | none => result) none).map String.ofList

/-- The last assignment gets the value; `none` when there is none. -/
def replaceLast (key : String) (raw : List Char) : List (List Char) → Option (List (List Char))
  | [] => none
  | line :: lines =>
    match replaceLast key raw lines with
    | some lines' => some (line :: lines')
    | none => (assignmentOf key line).map fun a =>
        (replaceValue (splitLineEnd line).1 a raw ++ (splitLineEnd line).2) :: lines

/-- The last line, ended. -/
def endLast (newline : List Char) (lines : List (List Char)) : List (List Char) :=
  match lines.getLast? with
  | some last =>
    if last.getLast? = some '\n' then lines else lines.dropLast ++ [last ++ newline]
  | none => []

def setOne (codec : JsonCodec) (newline : List Char) (lines : List (List Char)) (kv : KV) :
    List (List Char) :=
  let raw := kvRawValue codec kv.value
  match replaceLast kv.path raw lines with
  | some lines => lines
  | none => endLast newline lines ++ [kv.path.toList ++ '=' :: quoteEnv raw ++ newline]

def set (codec : JsonCodec) (original : String) (kvs : List KV) : String :=
  let (bom, body) := splitBom original.toList
  let newline := if (Text.splitList ['\r', '\n'] body).isSome then ['\r', '\n'] else ['\n']
  let lines := kvs.foldl (setOne codec newline) (Text.splitInclusive body)
  String.ofList (bom ++ lines.flatten)

/-- Whether a line assigns one of the variables. -/
def assigns (keys : List String) (line : List Char) : Bool :=
  match parseLine (splitLineEnd line).1 with
  | some a => keys.contains (String.ofList a.key)
  | none => false

def del (original : String) (keys : List String) : String :=
  let (bom, body) := splitBom original.toList
  String.ofList (bom ++ ((Text.splitInclusive body).filter fun line => !assigns keys line).flatten)

end AnyConverter.EnvEdit
