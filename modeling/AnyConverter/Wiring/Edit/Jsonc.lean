import AnyConverter.Wiring.Edit.Basic

/-!
# The JSON and JSONC editor

`get` reads a stripped copy of the text; `set` and `del` parse the text itself into spans and splice
the original, so comments, layout and trailing commas stay.
-/

set_option autoImplicit false

namespace AnyConverter.JsonEdit

/-! ## Comments and trailing commas -/

/-- `u8::is_ascii_whitespace`. -/
def isSpace (c : Char) : Bool :=
  c == ' ' || c == '\t' || c == '\n' || c == '\x0C' || c == '\r'

inductive StripMode where
  | code
  | string
  | escaped
  | line
  | block
  deriving DecidableEq

/-- Inside a string literal: what follows a character. -/
def stringMode (c : Char) : StripMode :=
  if c = '\\' then .escaped else if c = '"' then .code else .string

/-- Comments become spaces; line ends stay. -/
def blankComments : StripMode → List Char → List Char
  | _, [] => []
  | .string, c :: cs => c :: blankComments (stringMode c) cs
  | .escaped, c :: cs => c :: blankComments .string cs
  | .line, c :: cs =>
    if c = '\n' then c :: blankComments .code cs
    else (if c = '\r' then '\r' else ' ') :: blankComments .line cs
  | .block, '*' :: '/' :: cs => ' ' :: ' ' :: blankComments .code cs
  | .block, c :: cs => (if c = '\n' ∨ c = '\r' then c else ' ') :: blankComments .block cs
  | .code, '/' :: '/' :: cs => ' ' :: ' ' :: blankComments .line cs
  | .code, '/' :: '*' :: cs => ' ' :: ' ' :: blankComments .block cs
  | .code, c :: cs => c :: blankComments (if c = '"' then .string else .code) cs

/-- Whether the next character that is no white space closes an object or an array. -/
def closes (cs : List Char) : Bool :=
  match cs.dropWhile isSpace with
  | c :: _ => c == '\x7d' || c == ']'
  | [] => false

/-- A comma before a closing bracket becomes a space. -/
def blankTrailingCommas : StripMode → List Char → List Char
  | _, [] => []
  | .string, c :: cs => c :: blankTrailingCommas (stringMode c) cs
  | .escaped, c :: cs => c :: blankTrailingCommas .string cs
  | _, c :: cs =>
    if c = '"' then c :: blankTrailingCommas .string cs
    else (if c = ',' ∧ closes cs then ' ' else c) :: blankTrailingCommas .code cs

def stripJsonc (src : List Char) : List Char :=
  blankTrailingCommas .code (blankComments .code src)

def parseJson (codec : JsonCodec) (src : List Char) : Except EditError Value :=
  let stripped := String.ofList (stripJsonc (splitBom src).2)
  match codec.fromStr stripped with
  | some value => .ok value
  | none => .error (.parse (codec.errorText stripped))

/-! ## Reading -/

/-- `str::parse::<usize>`. -/
def parseUsize (segment : String) : Option Nat :=
  let digits := match segment.toList with
    | '+' :: cs => cs
    | cs => cs
  if digits = [] ∨ ¬digits.all Char.isDigit then none
  else
    let n := digits.foldl (fun n c => 10 * n + (c.toNat - 48)) 0
    if n < 2 ^ 64 then some n else none

def walk : Value → List String → Option Value
  | value, [] => some value
  | .object fields, segment :: rest => (fields.lookup segment).bind fun v => walk v rest
  | .array items, segment :: rest =>
    (parseUsize segment).bind fun i => items[i]?.bind fun v => walk v rest
  | _, _ :: _ => none

/-- A text without its quotes, anything else as compact JSON. -/
def shown (codec : JsonCodec) : Value → String
  | .string text => text
  | other => codec.toText other

def get (codec : JsonCodec) (text : String) (keyPath : String) : Option String :=
  match parseJson codec text.toList with
  | .ok value => (walk value (segmentsOf keyPath)).map (shown codec)
  | .error _ => none

/-! ## Spans -/

mutual

/-- A parsed value: where it stands, and the members of an object. -/
inductive Node where
  | object (start stop : Nat) (members : List Member)
  | array (start stop : Nat)
  | scalar (start stop : Nat)

/-- A member of an object, with the place of its key. -/
inductive Member where
  | mk (key : String) (keyStart : Nat) (value : Node)

end

namespace Node

def start : Node → Nat
  | object start _ _ => start
  | array start _ => start
  | scalar start _ => start

def stop : Node → Nat
  | object _ stop _ => stop
  | array _ stop => stop
  | scalar _ stop => stop

end Node

namespace Member

def key : Member → String
  | mk key _ _ => key

def keyStart : Member → Nat
  | mk _ keyStart _ => keyStart

def value : Member → Node
  | mk _ _ value => value

end Member

/-- What has not been read yet, and where it begins. -/
structure Cursor where
  pos : Nat
  rest : List Char

def Cursor.advance (c : Cursor) (n : Nat) : Cursor := ⟨c.pos + n, c.rest.drop n⟩

inductive TriviaMode where
  | plain
  | line
  | block

/-- The length of the white space and the comments ahead.  A block comment that does not end is
read to the end of the text, or, when it is not `eager`, to its last character. -/
def triviaLength (eager : Bool) : TriviaMode → List Char → Nat
  | _, [] => 0
  | .plain, '/' :: '/' :: cs => 2 + triviaLength eager .line cs
  | .plain, '/' :: '*' :: cs => 2 + triviaLength eager .block cs
  | .plain, c :: cs => if isSpace c then 1 + triviaLength eager .plain cs else 0
  | .line, c :: cs => 1 + triviaLength eager (if c = '\n' then .plain else .line) cs
  | .block, [c] => if eager || isSpace c then 1 else 0
  | .block, '*' :: '/' :: cs => 2 + triviaLength eager .plain cs
  | .block, _ :: c :: cs => 1 + triviaLength eager .block (c :: cs)

def skipTrivia (c : Cursor) : Cursor := c.advance (triviaLength false .plain c.rest)

/-- The length of a string literal after its opening quote. -/
def stringLength : Bool → List Char → Option Nat
  | _, [] => none
  | true, _ :: cs => (stringLength false cs).map (· + 1)
  | false, c :: cs =>
    if c = '\\' then (stringLength true cs).map (· + 1)
    else if c = '"' then some 1
    else (stringLength false cs).map (· + 1)

def endsScalar (c : Char) : Bool :=
  isSpace c || c == ',' || c == '\x7d' || c == ']' || c == '/'

def scalarLength (cs : List Char) : Nat := (cs.takeWhile fun c => !endsScalar c).length

def errorAt (message : String) (pos : Nat) : EditError :=
  .parse (message ++ " at byte " ++ toString pos)

/-- A comma is passed over. -/
def skipComma (c : Cursor) : Cursor := if c.rest.head? = some ',' then c.advance 1 else c

mutual

def parseValue (codec : JsonCodec) : Nat → Cursor → Except EditError (Node × Cursor)
  | 0, c => .error (errorAt "unexpected end of JSON input" c.pos)
  | fuel + 1, c =>
    let c := skipTrivia c
    match c.rest with
    | [] => .error (errorAt "unexpected end of JSON input" c.pos)
    | '\x7b' :: _ => do
      let (members, after) ← parseMembers codec fuel (c.advance 1)
      return (.object c.pos after.pos members, after)
    | '[' :: _ => do
      let after ← parseItems codec fuel (c.advance 1)
      return (.array c.pos after.pos, after)
    | '"' :: rest =>
      match stringLength false rest with
      | some n => .ok (.scalar c.pos (c.pos + 1 + n), c.advance (1 + n))
      | none => .error (errorAt "unterminated JSON string" (c.pos + c.rest.length))
    | _ =>
      let n := scalarLength c.rest
      if n = 0 then .error (errorAt "unexpected character in JSON value" c.pos)
      else .ok (.scalar c.pos (c.pos + n), c.advance n)

/-- The members of an object, after its opening brace. -/
def parseMembers (codec : JsonCodec) : Nat → Cursor → Except EditError (List Member × Cursor)
  | 0, c => .error (errorAt "unterminated JSON object" c.pos)
  | fuel + 1, c =>
    let c := skipTrivia c
    match c.rest with
    | [] => .error (errorAt "unterminated JSON object" c.pos)
    | '\x7d' :: _ => .ok ([], c.advance 1)
    | ',' :: _ => parseMembers codec fuel (c.advance 1)
    | '"' :: rest =>
      match stringLength false rest with
      | none => .error (errorAt "unterminated JSON string" (c.pos + c.rest.length))
      | some n =>
        let rawKey := String.ofList (c.rest.take (1 + n))
        match codec.decode Value.asStr rawKey with
        | none => .error (.parse (codec.errorText rawKey))
        | some key =>
          let colon := skipTrivia (c.advance (1 + n))
          match colon.rest with
          | ':' :: _ => do
            let (value, after) ← parseValue codec fuel (colon.advance 1)
            let (members, done) ← parseMembers codec fuel (skipComma (skipTrivia after))
            return (.mk key c.pos value :: members, done)
          | _ => .error (errorAt "expected ':' after JSON object key" colon.pos)
    | _ => .error (errorAt "expected a JSON object key" c.pos)

/-- The items of an array, after its opening bracket. -/
def parseItems (codec : JsonCodec) : Nat → Cursor → Except EditError Cursor
  | 0, c => .error (errorAt "unterminated JSON array" c.pos)
  | fuel + 1, c =>
    let c := skipTrivia c
    match c.rest with
    | [] => .error (errorAt "unterminated JSON array" c.pos)
    | ']' :: _ => .ok (c.advance 1)
    | ',' :: _ => parseItems codec fuel (c.advance 1)
    | _ => do
      let (_, after) ← parseValue codec fuel c
      parseItems codec fuel (skipComma (skipTrivia after))

end

/-- Every nested value is shorter than what it stands in, so the length of the text is fuel enough. -/
def parseDocument (codec : JsonCodec) (text : List Char) : Except EditError Node := do
  let c := skipTrivia ⟨0, text⟩
  if c.rest = [] then .error (.parse "empty JSON document")
  let (node, after) ← parseValue codec (c.rest.length + 1) c
  let done := skipTrivia after
  if done.rest ≠ [] then .error (errorAt "trailing data after JSON document" done.pos)
  return node

/-! ## Layout -/

def nextSignificant (text : List Char) (pos : Nat) : Nat :=
  pos + triviaLength true .plain (text.drop pos)

def lineStart (text : List Char) (pos : Nat) : Nat :=
  pos - ((text.take pos).reverse.takeWhile (· ≠ '\n')).length

def isBlank (c : Char) : Bool := c == ' ' || c == '\t'

def lineIndent (text : List Char) (pos : Nat) : List Char :=
  (slice text (lineStart text pos) pos).takeWhile isBlank

def memberIndent (text : List Char) (start : Nat) (members : List Member) (unit : List Char) :
    List Char :=
  match members with
  | first :: _ =>
    if '\n' ∈ slice text start first.keyStart then lineIndent text first.keyStart
    else lineIndent text start ++ unit
  | [] => lineIndent text start ++ unit

/-- What the first line that is indented deeper than the line before it adds. -/
def indentStep : Option Nat → List (List Char) → Option (List Char)
  | _, [] => none
  | previous, line :: lines =>
    let trimmed := line.dropWhile isBlank
    if trimmed.all Text.isWhitespace then indentStep previous lines
    else
      let indent := line.length - trimmed.length
      match previous with
      | some before =>
        if before < indent then some (slice line before indent) else indentStep (some indent) lines
      | none => indentStep (some indent) lines

def detectIndentUnit (text : List Char) : List Char :=
  (indentStep none ((Text.lines (String.ofList text)).map String.toList)).getD [' ', ' ']

def newlineOf (text : List Char) : List Char :=
  if (Text.splitList ['\r', '\n'] text).isSome then ['\r', '\n'] else ['\n']

/-! ## Writing -/

/-- A member as text; the rest of the path becomes nested objects. -/
def buildMember (codec : JsonCodec) (key : String) (tail : List String) (value : Value)
    (indent newline unit : List Char) : List Char :=
  let keyText := (codec.toText (.string key)).toList
  match tail with
  | [] => keyText ++ [':', ' '] ++ (codec.toText value).toList
  | next :: tail =>
    let childIndent := indent ++ unit
    keyText ++ [':', ' ', '\x7b'] ++ newline ++ childIndent ++
      buildMember codec next tail value childIndent newline unit ++ newline ++ indent ++ ['\x7d']

/-- The blanks right before a position, on its line. -/
def blanksBefore (text : List Char) (pos : Nat) : Nat :=
  ((slice text (lineStart text pos) pos).reverse.takeWhile
    fun c => c == ' ' || c == '\t' || c == '\r').length

/-- Nothing at the beginning of a line, a line end anywhere else. -/
def leadBefore (text : List Char) (pos : Nat) (newline : List Char) : List Char :=
  if pos = 0 ∨ text[pos - 1]? = some '\n' then [] else newline

def insertMember (text : List Char) (start stop : Nat) (members : List Member)
    (memberText newline unit : List Char) : List Char :=
  let indent := memberIndent text start members unit
  let close := stop - 1
  let closeLine := lineStart text close
  let closeIndent := lineIndent text close
  let insert := close - blanksBefore text close
  let lead := leadBefore text insert newline
  match members.getLast? with
  | some last =>
    let trailingComma := text[nextSignificant text last.value.stop]? = some ','
    let comma : List Char := if trailingComma then [','] else []
    let result :=
      if (slice text closeLine close).all Text.isWhitespace then
        splice text closeLine closeLine (indent ++ memberText ++ comma ++ newline)
      else
        splice text insert close
          (lead ++ indent ++ memberText ++ comma ++ newline ++ closeIndent)
    if trailingComma then result else splice result last.value.stop last.value.stop [',']
  | none => splice text insert close (lead ++ indent ++ memberText ++ newline ++ closeIndent)

/-- The members of the object a key is edited in, and the rest of the path. -/
def editObject (codec : JsonCodec) (text : List Char) (value : Value) (newline unit : List Char) :
    Node → List String → Except EditError (List Char)
  | .object start stop members, [key] =>
    match members.find? fun m => m.key = key with
    | some member =>
      let serialized := (codec.toText value).toList
      if slice text member.value.start member.value.stop = serialized then .ok text
      else .ok (splice text member.value.start member.value.stop serialized)
    | none =>
      let indent := memberIndent text start members unit
      let memberText := buildMember codec key [] value indent newline unit
      .ok (insertMember text start stop members memberText newline unit)
  | .object start stop members, key :: next :: tail =>
    match members.find? fun m => m.key = key with
    | some member =>
      match member.value with
      | .object .. => editObject codec text value newline unit member.value (next :: tail)
      | _ => .error (.parse ("key \x60" ++ key ++ "\x60 is not a JSON object"))
    | none =>
      let indent := memberIndent text start members unit
      let memberText := buildMember codec key (next :: tail) value indent newline unit
      .ok (insertMember text start stop members memberText newline unit)
  | _, [] => .error (.parse "empty key path")
  | _, _ => .error (.parse "expected a JSON object")

/-- The root object of a text. -/
def parseRoot (codec : JsonCodec) (text : List Char) : Except EditError Node := do
  let root ← parseDocument codec text
  match root with
  | .object .. => return root
  | _ => .error (.parse "JSON root is not an object")

def setOne (codec : JsonCodec) (text : List Char) (kv : KV) : Except EditError (List Char) := do
  let _ ← parseJson codec text
  if segmentsOf kv.path = [] then .error (.parse "empty key path")
  let root ← parseRoot codec text
  editObject codec text kv.value (newlineOf text) (detectIndentUnit text) root (segmentsOf kv.path)

def set (codec : JsonCodec) (original : String) (kvs : List KV) : Except EditError String := do
  let (bom, body) := splitBom original.toList
  if kvs.isEmpty then
    let _ ← parseJson codec body
    return original
  let normalized := if (stripJsonc body).all Text.isWhitespace then ['\x7b', '\x7d'] else body
  let _ ← parseJson codec normalized
  let text ← kvs.foldlM (setOne codec) normalized
  return String.ofList (bom ++ text)

/-! ## Deleting -/

/-- The end of what belongs to a member behind its value: a comma and one comment. -/
def memberTailEnd (text : List Char) (pos : Nat) : Nat :=
  let pos := pos + ((text.drop pos).takeWhile isBlank).length
  let pos := if text[pos]? = some ',' then pos + 1 else pos
  let pos := pos + ((text.drop pos).takeWhile isBlank).length
  match text.drop pos with
  | '/' :: '/' :: cs => pos + 2 + (cs.takeWhile (· ≠ '\n')).length
  | '/' :: '*' :: cs => pos + 2 + blockLength cs
  | _ => pos
where
  /-- The length of a block comment after its opening. -/
  blockLength : List Char → Nat
    | '*' :: '/' :: _ => 2
    | _ :: c :: cs => 1 + blockLength (c :: cs)
    | _ => 0

def extendLineEnd (text : List Char) (pos : Nat) : Nat :=
  let pos := if text[pos]? = some '\r' then pos + 1 else pos
  if text[pos]? = some '\n' then pos + 1 else pos

/-- Whether a text holds the opening of a comment. -/
def holdsComment (text : List Char) : Bool :=
  (Text.splitList ['/', '/'] text).isSome || (Text.splitList ['/', '*'] text).isSome

/-- Where the line of a member begins, when the member is the first thing on it. -/
def ownLine (text : List Char) (start : Nat) (member : Member) : Option Nat :=
  let line := lineStart text member.keyStart
  if start < line ∧ (slice text line member.keyStart).all Text.isWhitespace then some line else none

/-- The one member of an object is removed. -/
def removeOnly (text : List Char) (start stop : Nat) (member : Member) : List Char :=
  if !holdsComment (slice text (start + 1) (stop - 1)) then
    splice text start stop ['\x7b', '\x7d']
  else
    let line := lineStart text member.keyStart
    let from_ := (ownLine text start member).getD member.keyStart
    let tail := memberTailEnd text member.value.stop
    splice text from_ (if from_ = line then extendLineEnd text tail else tail) []

/-- A member with another one behind it is removed. -/
def removeBefore (text : List Char) (start : Nat) (member next : Member) : List Char :=
  match ownLine text start member with
  | some line =>
    splice text line (extendLineEnd text (memberTailEnd text member.value.stop)) []
  | none => splice text member.keyStart next.keyStart []

/-- The last of several members is removed. -/
def removeLast (text : List Char) (previous member : Member) : List Char :=
  let hadTrailingComma := text[nextSignificant text member.value.stop]? = some ','
  let result := splice text previous.value.stop (memberTailEnd text member.value.stop) []
  if hadTrailingComma then splice result previous.value.stop previous.value.stop [','] else result

def removeMember (text : List Char) (start stop : Nat) (members : List Member) (index : Nat) :
    List Char :=
  match members[index]? with
  | none => text
  | some member =>
    if members.length = 1 then removeOnly text start stop member
    else
      match members[index + 1]? with
      | some next => removeBefore text start member next
      | none =>
        match members[index - 1]? with
        | some previous => removeLast text previous member
        | none => text

def delPath (text : List Char) : Node → List String → List Char
  | .object start stop members, [key] =>
    match members.findIdx? fun m => m.key = key with
    | some index => removeMember text start stop members index
    | none => text
  | .object _ _ members, key :: next :: tail =>
    match members.find? fun m => m.key = key with
    | some member => delPath text member.value (next :: tail)
    | none => text
  | _, _ => text

def delOne (codec : JsonCodec) (text : List Char) (keyPath : String) :
    Except EditError (List Char) := do
  let _ ← parseJson codec text
  if segmentsOf keyPath = [] then .error (.parse "empty key path")
  let root ← parseRoot codec text
  return delPath text root (segmentsOf keyPath)

def del (codec : JsonCodec) (original : String) (keys : List String) : Except EditError String := do
  let (bom, body) := splitBom original.toList
  if (stripJsonc body).all Text.isWhitespace then return original
  let _ ← parseJson codec body
  let text ← keys.foldlM (delOne codec) body
  return String.ofList (bom ++ text)

end AnyConverter.JsonEdit
