import AnyConverter.Wiring.Edit.Basic

/-!
# The TOML editor

Documents are read and printed by a TOML library that keeps their layout; the editor walks and
changes its tables.  The library's reader and printers are parameters, and a layout is whatever the
library remembers of how a value or a table was written.
-/

set_option autoImplicit false

namespace AnyConverter.TomlEdit

/-- A value with its layout. -/
inductive TomlValue (Layout : Type) where
  | string (text : String) (layout : Layout)
  | integer (n : Int) (layout : Layout)
  /-- a float or a date, by the text it is shown as -/
  | other (text : String) (layout : Layout)
  | boolean (flag : Bool) (layout : Layout)
  | array (items : List (TomlValue Layout)) (layout : Layout)
  | inlineTable (fields : List (String × TomlValue Layout)) (layout : Layout)

/-- What stands under a key of a table. -/
inductive TomlItem (Layout : Type) where
  | none
  | value (v : TomlValue Layout)
  | table (fields : List (String × TomlItem Layout)) (isImplicit : Bool) (layout : Layout)
  | arrayOfTables (tables : List (TomlItem Layout))

/-- The TOML library. -/
structure TomlLibrary where
  Layout : Type
  /-- the layout of what was not read from a text -/
  plain : Layout
  /-- a new value in the place of an old one: the space around the old one -/
  inPlace : Layout → Layout
  /-- the fields and the layout of a document -/
  parse : String → Except String (List (String × TomlItem Layout) × Layout)
  print : List (String × TomlItem Layout) × Layout → String
  itemText : TomlItem Layout → String
  valueText : TomlValue Layout → String
  floatText : Number → String

namespace TomlLibrary

variable (lib : TomlLibrary)

abbrev Item := TomlItem lib.Layout

abbrev Val := TomlValue lib.Layout

abbrev Fields := List (String × lib.Item)

abbrev Document := lib.Fields × lib.Layout

end TomlLibrary

section
variable (lib : TomlLibrary)

def parseDocument (body : List Char) : Except EditError lib.Document :=
  match lib.parse (String.ofList body) with
  | .ok document => .ok document
  | .error message => .error (.parse message)

/-! ## Reading -/

def valueString : lib.Val → String
  | .string text _ => text
  | .integer n _ => toString n
  | .other text _ => text
  | .boolean flag _ => toString flag
  | v => Text.trim (lib.valueText v)

def lookupInline : List (String × lib.Val) → List String → Option String
  | _, [] => none
  | fields, [key] => (fields.lookup key).map (valueString lib)
  | fields, key :: next :: rest =>
    match fields.lookup key with
    | some (.inlineTable inner _) => lookupInline inner (next :: rest)
    | _ => none

def lookupTable : lib.Fields → List String → Option String
  | _, [] => none
  | fields, [key] =>
    match fields.lookup key with
    | none | some .none => none
    | some (.value v) => some (valueString lib v)
    | some item => some (lib.itemText item)
  | fields, key :: next :: rest =>
    match fields.lookup key with
    | some (.table inner _ _) => lookupTable inner (next :: rest)
    | some (.value (.inlineTable inner _)) => lookupInline lib inner (next :: rest)
    | _ => none

def get (original : String) (keyPath : String) : Option String :=
  match parseDocument lib (splitBom original.toList).2 with
  | .ok document => lookupTable lib document.1 (segmentsOf keyPath)
  | .error _ => none

/-! ## Writing -/

mutual

def jsonToValue : Value → Except EditError lib.Val
  | .null => .error (.parse "TOML has no null value")
  | .bool flag => .ok (.boolean flag lib.plain)
  | .number n =>
    match (Value.number n).asI64 with
    | some i => .ok (.integer i lib.plain)
    | none => .ok (.other (lib.floatText n) lib.plain)
  | .string text => .ok (.string text lib.plain)
  | .array items => do return .array (← jsonToItems items) lib.plain
  | .object fields => do return .inlineTable (← jsonToFields fields) lib.plain

def jsonToItems : List Value → Except EditError (List lib.Val)
  | [] => .ok []
  | v :: items => do return (← jsonToValue v) :: (← jsonToItems items)

def jsonToFields : List (String × Value) → Except EditError (List (String × lib.Val))
  | [] => .ok []
  | (key, v) :: fields => do return (key, ← jsonToValue v) :: (← jsonToFields fields)

end

def layoutOf : lib.Val → lib.Layout
  | .string _ layout | .integer _ layout | .other _ layout | .boolean _ layout
  | .array _ layout | .inlineTable _ layout => layout

def withLayout (layout : lib.Layout) : lib.Val → lib.Val
  | .string text _ => .string text layout
  | .integer n _ => .integer n layout
  | .other text _ => .other text layout
  | .boolean flag _ => .boolean flag layout
  | .array items _ => .array items layout
  | .inlineTable fields _ => .inlineTable fields layout

def setKey (key : String) (value : Value) (fields : lib.Fields) : Except EditError lib.Fields := do
  let new ← jsonToValue lib value
  let item := match fields.lookup key with
    | some (.value old) => withLayout lib (lib.inPlace (layoutOf lib old)) new
    | _ => new
  return insertKey key (.value item) fields

/-- A change of the table at a path; the tables that are missing are made, the last one explicit. -/
def ensureTable (change : lib.Fields → Except EditError lib.Fields) :
    List String → lib.Fields → Except EditError lib.Fields
  | [], fields => change fields
  | segment :: rest, fields =>
    match fields.lookup segment with
    | some (.table inner isImplicit layout) => do
      let inner ← ensureTable change rest inner
      return insertKey segment (.table inner isImplicit layout) fields
    | some _ => .error (.parse ("\x60" ++ segment ++ "\x60 is not a TOML table"))
    | none => do
      let inner ← ensureTable change rest []
      return insertKey segment (.table inner (!rest.isEmpty) lib.plain) fields

/-- The line ends of the original, if it had carriage returns. -/
def render (document : lib.Document) (bom : List Char) (crlf : Bool) : String :=
  let text := (lib.print document).toList
  String.ofList (bom ++ if crlf then toCrlf text else text)
where
  /-- Every line end as a carriage return and a line feed. -/
  toCrlf : List Char → List Char
    | '\r' :: '\n' :: cs => '\r' :: '\n' :: toCrlf cs
    | '\n' :: cs => '\r' :: '\n' :: toCrlf cs
    | c :: cs => c :: toCrlf cs
    | [] => []

def hasCrlf (body : List Char) : Bool := (Text.splitList ['\r', '\n'] body).isSome

def setOne (table : List String) (fields : lib.Fields) (kv : KV) : Except EditError lib.Fields :=
  let segments := segmentsOf kv.path
  match segments.getLast? with
  | some key =>
    ensureTable lib (ensureTable lib (setKey lib key kv.value) segments.dropLast) table fields
  | none => .error (.parse "empty key path")

def setTable (original : String) (tablePath : String) (kvs : List KV) : Except EditError String := do
  let (bom, body) := splitBom original.toList
  let document ← parseDocument lib body
  let fields ← kvs.foldlM (setOne lib (segmentsOf tablePath)) document.1
  return render lib (fields, document.2) bom (hasCrlf body)

def set (original : String) (kvs : List KV) : Except EditError String :=
  setTable lib original "" kvs

/-! ## Deleting -/

def removeInline : List String → List (String × lib.Val) → List (String × lib.Val)
  | [], fields => fields
  | [key], fields => removeKey key fields
  | key :: next :: rest, fields =>
    match fields.lookup key with
    | some (.inlineTable inner layout) =>
      let inner := removeInline (next :: rest) inner
      if inner.isEmpty then removeKey key fields
      else insertKey key (.inlineTable inner layout) fields
    | _ => fields

/-- A table that is left without fields is removed too. -/
def removePath : List String → lib.Fields → lib.Fields
  | [], fields => fields
  | [key], fields => removeKey key fields
  | key :: next :: rest, fields =>
    match fields.lookup key with
    | some (.table inner isImplicit layout) =>
      let inner := removePath (next :: rest) inner
      if inner.isEmpty then removeKey key fields
      else insertKey key (.table inner isImplicit layout) fields
    | some (.value (.inlineTable inner layout)) =>
      let inner := removeInline lib (next :: rest) inner
      if inner.isEmpty then removeKey key fields
      else insertKey key (.value (.inlineTable inner layout)) fields
    | _ => fields

def del (original : String) (keys : List String) : Except EditError String := do
  let (bom, body) := splitBom original.toList
  let document ← parseDocument lib body
  let fields := keys.foldl (fun fields key => removePath lib (segmentsOf key) fields) document.1
  return render lib (fields, document.2) bom (hasCrlf body)

end

end AnyConverter.TomlEdit
