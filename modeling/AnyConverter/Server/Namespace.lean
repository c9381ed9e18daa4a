import AnyConverter.Formats.OpenAIResp.Build
import AnyConverter.Formats.OpenAIResp.Read
import AnyConverter.Lib.JsonText

/-!
# Namespaced tools

A Responses client may declare tools inside a namespace.  Upstream they are known under one
qualified name, and the server puts the namespace and the short name back into the replies.

* `readTools_names`: the names upstream are those of the declared tools, qualified;
* `restored_iff`, `choice_iff`: when restoration and `tool_choice` find the tool that was declared;
* `echoed_short`: a delivered call comes back under its short name;
* `names_never_agree`: so no request with a namespaced tool has its calls echoed under the name
  they were made by.
-/

set_option autoImplicit false

namespace AnyConverter

open OpenAIResponses (OpenAIResponsesRequest qualify)

/-! ## The map of a request -/

/-- Qualified names with the namespace and the short name they stand for, the last one first. -/
abbrev NamespaceMap := List (String × String × String)

def childEntry (ns : String) (child : Value) : Option (String × String × String) :=
  ((child.get "name").bind Value.asStr).map fun name => (ns ++ "__" ++ name, ns, name)

def namespaceEntries (tool : Value) : NamespaceMap :=
  if (tool.get "type").bind Value.asStr ≠ some "namespace" then []
  else
    let ns := ((tool.get "name").bind Value.asStr).getD ""
    if ns = "" then []
    else
      match (tool.get "tools").bind Value.asArray with
      | some children => children.filterMap (childEntry ns)
      | none => []

/-- A name that is inserted again stands for what was inserted last. -/
def extractNamespaceMap (codec : JsonCodec) (body : List UInt8) (clientFormat : Format) :
    NamespaceMap :=
  if clientFormat ≠ .openAIResponses then []
  else
    match codec.fromSlice body with
    | none => []
    | some value =>
      match (value.get "tools").bind Value.asArray with
      | some tools => (tools.flatMap namespaceEntries).reverse
      | none => []

/-! ## Replies -/

/-- One item of a reply, and whether it was patched. -/
def patchFunctionCallItem (nsMap : NamespaceMap) (item : Value) : Value × Bool :=
  if (item.get "type").bind Value.asStr ≠ some "function_call" then (item, false)
  else
    match (item.get "name").bind Value.asStr with
    | none => (item, false)
    | some name =>
      match nsMap.lookup name with
      | none => (item, false)
      | some (ns, short) =>
        ((item.set "name" (.string short)).set "namespace" (.string ns), true)

/-- The calls among the items of an `output`. -/
def patchOutput (nsMap : NamespaceMap) (value : Value) : Value × Bool :=
  match (value.get "output").bind Value.asArray with
  | some items =>
    let patched := items.map (patchFunctionCallItem nsMap)
    (value.set "output" (.array (patched.map Prod.fst)), patched.any Prod.snd)
  | none => (value, false)

def patchResponseNamespaces (codec : JsonCodec) (nsMap : NamespaceMap) (body : List UInt8) :
    List UInt8 :=
  if nsMap = [] then body
  else
    match codec.fromSlice body with
    | none => body
    | some value =>
      if (patchOutput nsMap value).2 then utf8 (codec.toText (patchOutput nsMap value).1) else body

/-- `response.completed` holds its output in a `response`. -/
def patchResponseField (nsMap : NamespaceMap) (value : Value) : Value × Bool :=
  match value.get "response" with
  | some response =>
    let patched := patchOutput nsMap response
    (value.set "response" patched.1, patched.2)
  | none => (value, false)

/-- `response.output_item.added` and `response.output_item.done` hold one item. -/
def patchItemField (nsMap : NamespaceMap) (value : Value) : Value × Bool :=
  let eventType := ((value.get "type").bind Value.asStr).getD ""
  if eventType = "response.output_item.added" ∨ eventType = "response.output_item.done" then
    match value.get "item" with
    | some item =>
      let patched := patchFunctionCallItem nsMap item
      (value.set "item" patched.1, patched.2)
    | none => (value, false)
  else (value, false)

def patchEventNamespaces (nsMap : NamespaceMap) (value : Value) : Value × Bool :=
  let output := patchOutput nsMap value
  let response := patchResponseField nsMap output.1
  let item := patchItemField nsMap response.1
  (item.1, output.2 || response.2 || item.2)

/-- What stands before the payload of a line, and the payload.  A line that begins with a line
feed loses one character less. -/
def splitData (line : String) : Option (String × String) :=
  match Text.splitOnce "\ndata: " line with
  | some (head, rest) => if head = "" then some ("", " " ++ rest) else some (head ++ "\n", rest)
  | none => (Text.stripPrefix "data: " line).map fun rest => ("", rest)

def patchSseNamespaces (codec : JsonCodec) (nsMap : NamespaceMap) (line : String) : String :=
  if nsMap = [] then line
  else
    match splitData line with
    | none => line
    | some (before, data) =>
      let json := Text.trimEnd data
      if json = "" ∨ json = "[DONE]" then line
      else
        match codec.fromStr json with
        | none => line
        | some value =>
          let patched := patchEventNamespaces nsMap value
          if patched.2 then before ++ "data: " ++ codec.toText patched.1 ++ "\n\n" else line

/-! ## Declared tools -/

/-- A tool as the client knows it: its namespace, empty at the top level, and its short name. -/
structure ToolName where
  space : String
  short : String
  deriving DecidableEq, Repr

/-- The name upstream. -/
def ToolName.upstream (t : ToolName) : String := qualify t.space t.short

def declaredFunction (space : String) (tool : Value) : Option ToolName :=
  tool.asObject.bind fun tool =>
    if typeOf tool = some "function" ∧ takeString tool "name" ≠ "" then
      some ⟨space, takeString tool "name"⟩
    else none

def declaredIn (tool : Value) : List ToolName :=
  match tool.asObject with
  | none => []
  | some obj =>
    if typeOf obj = some "function" then (declaredFunction "" tool).toList
    else if typeOf obj = some "namespace" then
      match obj.lookup "tools" with
      | some (.array children) => children.filterMap (declaredFunction (takeString obj "name"))
      | _ => []
    else []

def declaredTools (tools : Option (List Value)) : List ToolName := (tools.getD []).flatMap declaredIn

/-! ## What agreement means -/

/-- A call item as a reply of the gateway carries it: no namespace yet. -/
structure CallItem (item : List (String × Value)) (name : String) : Prop where
  type_eq : item.lookup "type" = some (.string "function_call")
  name_eq : item.lookup "name" = some (.string name)
  space_eq : item.lookup "namespace" = none

/-- An item that tells the client which tool is called. -/
structure Delivers (item : Value) (t : ToolName) : Prop where
  name_eq : item.get "name" = some (.string t.short)
  space_eq : item.get "namespace" = if t.space = "" then none else some (.string t.space)

/-- The ids of the calls the history of a request holds, with the names they go upstream under. -/
def historyCalls (ir : IrRequest) : List (String × String) :=
  ir.messages.flatMap fun m => m.parts.filterMap fun
    | .toolCall id name _ _ => some (id, name)
    | _ => none

/-- A tool choice that names a function. -/
def choiceOf (name : String) : Value :=
  .object [("name", .string name), ("type", .string "function")]

/-- The request a body holds. -/
def Received (codec : JsonCodec) (body : List UInt8) (req : OpenAIResponsesRequest) : Prop :=
  (codec.fromSlice body).bind OpenAIResponsesRequest.ofValue = some req

/-- Every place that names a tool means the same tool. -/
structure NamesAgree (codec : JsonCodec) (body : List UInt8) (req : OpenAIResponsesRequest) :
    Prop where
  /-- the tools upstream are the declared ones, and distinct tools have distinct names there -/
  distinct : ∀ t ∈ declaredTools req.tools, ∀ t' ∈ declaredTools req.tools,
    t.upstream = t'.upstream → t = t'
  /-- a choice of a tool names it upstream -/
  choice : ∀ t ∈ declaredTools req.tools,
    (OpenAIResponses.read codec { req with toolChoice := some (choiceOf t.short) }).toolChoice =
      some (.named t.upstream)
  /-- a delivered call that the next request holds has the name it was made by -/
  echoed : ∀ t ∈ declaredTools req.tools, ∀ item, CallItem item t.upstream →
    ∀ next : OpenAIResponsesRequest, ∀ before after, next.input = some (.array (before ++
        (patchFunctionCallItem (extractNamespaceMap codec body .openAIResponses)
          (.object item)).1 :: after)) →
      (takeString item "call_id", t.upstream) ∈ historyCalls (OpenAIResponses.read codec next)
  /-- a call is delivered as a call of its tool -/
  restored : ∀ t ∈ declaredTools req.tools, ∀ item, CallItem item t.upstream →
    Delivers (patchFunctionCallItem (extractNamespaceMap codec body .openAIResponses)
      (.object item)).1 t

/-! ## Names upstream -/

section
variable {codec : JsonCodec}

theorem qualify_eq_self {space shortName : String} (h : qualify space shortName = shortName) :
    space = "" := by
  unfold OpenAIResponses.qualify at h
  split at h
  · assumption
  · have hlength := congrArg String.length h
    simp only [String.length_append] at hlength
    have hsep : "__".length = 2 := rfl
    omega

/-- With the short name, the qualified name tells the namespace. -/
theorem ToolName.eq_of_short {t t' : ToolName} (hshort : t.short = t'.short)
    (hup : t.upstream = t'.upstream) : t = t' := by
  obtain ⟨space, short⟩ := t
  obtain ⟨space', short'⟩ := t'
  obtain rfl : short = short' := hshort
  unfold upstream at hup
  by_cases hs : space = ""
  · subst hs
    have hself : qualify space' short = short := hup.symm
    rw [qualify_eq_self hself]
  · by_cases hs' : space' = ""
    · subst hs'
      exact absurd (qualify_eq_self hup) hs
    · simp only [OpenAIResponses.qualify, if_neg hs, if_neg hs'] at hup
      rw [String.append_assoc, String.append_assoc] at hup
      have hlist := congrArg String.toList hup
      simp only [String.toList_append] at hlist
      have hspace := List.append_cancel_right hlist
      rw [String.toList_inj.mp hspace]

theorem readChild_names (space : String) (description : Option String) (acc : OpenAIResponses.Tools)
    (child : Value) :
    (OpenAIResponses.readChild space description acc child).tools.map (·.name) =
      acc.tools.map (·.name) ++
        (declaredFunction space child).toList.map ToolName.upstream := by
  unfold OpenAIResponses.readChild declaredFunction
  cases child.asObject with
  | none => simp
  | some obj =>
    by_cases htype : typeOf obj = some "function"
    · have hname : ((obj.lookup "name").bind Value.asStr).getD "" = takeString obj "name" := by
        unfold takeString
        cases obj.lookup "name" with
        | none => rfl
        | some v => cases v <;> rfl
      by_cases hempty : takeString obj "name" = ""
      · simp [htype, OpenAIResponses.functionTool, hempty]
      · simp [htype, OpenAIResponses.functionTool, hempty, hname, ToolName.upstream]
    · simp [htype]

theorem readTool_names (acc : OpenAIResponses.Tools) (tool : Value) :
    (OpenAIResponses.readTool acc tool).tools.map (·.name) =
      acc.tools.map (·.name) ++ (declaredIn tool).map ToolName.upstream := by
  have hchildren : ∀ (space : String) (description : Option String) (children : List Value)
      (acc : OpenAIResponses.Tools),
      (children.foldl (OpenAIResponses.readChild space description) acc).tools.map (·.name) =
        acc.tools.map (·.name) ++
          (children.filterMap (declaredFunction space)).map ToolName.upstream := by
    intro space description children
    induction children with
    | nil => simp
    | cons child children ih =>
      intro acc
      rw [List.foldl_cons, ih, readChild_names]
      cases h : declaredFunction space child <;> simp [h]
  unfold OpenAIResponses.readTool declaredIn
  cases hobj : tool.asObject with
  | none => simp
  | some obj =>
    dsimp only
    by_cases hfunction : typeOf obj = some "function"
    · by_cases hempty : takeString obj "name" = ""
      · simp [hfunction, OpenAIResponses.functionTool, hempty, declaredFunction, hobj]
      · simp [hfunction, OpenAIResponses.functionTool, hempty, declaredFunction, hobj,
          ToolName.upstream, OpenAIResponses.qualify]
    · by_cases hspace : typeOf obj = some "namespace"
      · rw [if_neg hfunction, if_pos hspace, if_neg hfunction, if_pos hspace]
        cases obj.lookup "tools" with
        | none => simp
        | some children =>
          cases children with
          | array children => exact hchildren _ _ _ _
          | _ => simp
      · simp [hfunction, hspace]

/-- **The names upstream are those of the declared tools, qualified.** -/
theorem readTools_names (tools : Option (List Value)) :
    (OpenAIResponses.readTools tools).tools.map (·.name) =
      (declaredTools tools).map ToolName.upstream := by
  have hfold : ∀ (tools : List Value) (acc : OpenAIResponses.Tools),
      (tools.foldl OpenAIResponses.readTool acc).tools.map (·.name) =
        acc.tools.map (·.name) ++ (tools.flatMap declaredIn).map ToolName.upstream := by
    intro tools
    induction tools with
    | nil => simp
    | cons tool tools ih =>
      intro acc
      rw [List.foldl_cons, ih, readTool_names]
      simp
  unfold OpenAIResponses.readTools declaredTools
  rw [hfold]
  rfl

/-! ## Tool choice -/

/-- The short names tell the declared tools apart. -/
def ShortNamesDistinct (tools : Option (List Value)) : Prop :=
  ∀ t ∈ declaredTools tools, ∀ t' ∈ declaredTools tools, t.short = t'.short → t = t'

/-- What the reader remembers of a short name: the names of the tools declared under it. -/
def Remembers (tools : List ToolName) (nsNames : List (String × String)) : Prop :=
  ∀ short, short ≠ "" → ∀ name, nsNames.lookup short = some name ↔
    (tools.filter fun t => t.space ≠ "" ∧ t.short = short).getLast?.map ToolName.upstream = some name

theorem Remembers.nil : Remembers [] [] := by
  intro short _ name
  simp

theorem readChild_remembers (space : String) (description : Option String) {tools : List ToolName}
    {acc : OpenAIResponses.Tools} (h : Remembers tools acc.nsNames) (child : Value) :
    Remembers (tools ++ (declaredFunction space child).toList)
      (OpenAIResponses.readChild space description acc child).nsNames := by
  unfold OpenAIResponses.readChild declaredFunction
  cases child.asObject with
  | none => simpa using h
  | some obj =>
    by_cases htype : typeOf obj = some "function"
    · have hname : ((obj.lookup "name").bind Value.asStr).getD "" = takeString obj "name" := by
        unfold takeString
        cases obj.lookup "name" with
        | none => rfl
        | some v => cases v <;> rfl
      intro short hshort name
      by_cases hempty : takeString obj "name" = ""
      · by_cases hspace : space = ""
        · simpa [htype, OpenAIResponses.functionTool, hempty, hspace] using h short hshort name
        · simpa [htype, OpenAIResponses.functionTool, hempty, hspace, hname, List.lookup_cons,
            beq_false_of_ne hshort] using h short hshort name
      · by_cases hspace : space = ""
        · simpa [htype, OpenAIResponses.functionTool, hempty, hspace] using h short hshort name
        · by_cases heq : takeString obj "name" = short
          · simp [htype, OpenAIResponses.functionTool, hspace, hname, heq, ToolName.upstream,
              hshort]
          · simpa [htype, OpenAIResponses.functionTool, hempty, hspace, hname, heq,
              List.lookup_cons, beq_false_of_ne (Ne.symm heq)] using h short hshort name
    · simpa [htype] using h

theorem readTool_remembers {tools : List ToolName} {acc : OpenAIResponses.Tools}
    (h : Remembers tools acc.nsNames) (tool : Value) :
    Remembers (tools ++ declaredIn tool) (OpenAIResponses.readTool acc tool).nsNames := by
  have hchildren : ∀ (space : String) (description : Option String) (children : List Value)
      (tools : List ToolName) (acc : OpenAIResponses.Tools), Remembers tools acc.nsNames →
      Remembers (tools ++ children.filterMap (declaredFunction space))
        (children.foldl (OpenAIResponses.readChild space description) acc).nsNames := by
    intro space description children
    induction children with
    | nil =>
      intro tools acc h
      simpa using h
    | cons child children ih =>
      intro tools acc h
      have hnext := ih _ _ (readChild_remembers space description h child)
      rw [List.foldl_cons]
      cases hd : declaredFunction space child with
      | none => simpa [hd] using hnext
      | some t => simpa [hd] using hnext
  unfold OpenAIResponses.readTool declaredIn
  cases hobj : tool.asObject with
  | none => simpa using h
  | some obj =>
    dsimp only
    by_cases hfunction : typeOf obj = some "function"
    · rw [if_pos hfunction, if_pos hfunction]
      -- a top-level tool is not remembered
      intro short hshort name
      have hdeclared : ((declaredFunction "" tool).toList.filter
          fun t => t.space ≠ "" ∧ t.short = short) = [] := by
        rw [declaredFunction, hobj]
        by_cases hempty : takeString obj "name" = ""
        · simp [hempty]
        · simp [hempty, hfunction]
      rw [List.filter_append, hdeclared, List.append_nil]
      exact h short hshort name
    · rw [if_neg hfunction, if_neg hfunction]
      by_cases hspace : typeOf obj = some "namespace"
      · rw [if_pos hspace, if_pos hspace]
        cases obj.lookup "tools" with
        | none => simpa using h
        | some children =>
          cases children with
          | array children => exact hchildren _ _ _ _ _ h
          | _ => simpa using h
      · rw [if_neg hspace, if_neg hspace]
        simpa using h

theorem readTools_remembers (tools : Option (List Value)) :
    Remembers (declaredTools tools) (OpenAIResponses.readTools tools).nsNames := by
  have hfold : ∀ (tools : List Value) (declared : List ToolName) (acc : OpenAIResponses.Tools),
      Remembers declared acc.nsNames → Remembers (declared ++ tools.flatMap declaredIn)
        (tools.foldl OpenAIResponses.readTool acc).nsNames := by
    intro tools
    induction tools with
    | nil =>
      intro declared acc h
      simpa using h
    | cons tool tools ih =>
      intro declared acc h
      have hnext := ih _ _ (readTool_remembers h tool)
      simpa using hnext
  exact hfold (tools.getD []) [] {} Remembers.nil

theorem short_ne_empty {tools : Option (List Value)} {t : ToolName} (ht : t ∈ declaredTools tools) :
    t.short ≠ "" := by
  have hfunction : ∀ space tool, declaredFunction space tool = some t → t.short ≠ "" := by
    intro space tool h
    obtain ⟨obj, -, hobj⟩ := Option.bind_eq_some_iff.mp h
    split at hobj
    · rename_i hname
      cases hobj
      exact hname.2
    · cases hobj
  obtain ⟨tool, -, hin⟩ := List.mem_flatMap.mp ht
  unfold declaredIn at hin
  split at hin
  · cases hin
  · split at hin
    · exact hfunction _ _ (Option.mem_toList.mp hin)
    · split at hin
      · split at hin
        · obtain ⟨child, -, hchild⟩ := List.mem_filterMap.mp hin
          exact hfunction _ _ hchild
        · cases hin
      · cases hin

/-- A choice of a tool by its short name goes upstream under that tool's name, for every declared
tool, exactly if no two of them share a short name. -/
theorem choice_iff (req : OpenAIResponsesRequest) :
    (∀ t ∈ declaredTools req.tools,
      (OpenAIResponses.read codec { req with toolChoice := some (choiceOf t.short) }).toolChoice =
        some (.named t.upstream)) ↔ ShortNamesDistinct req.tools := by
  have hread : ∀ short,
      (OpenAIResponses.read codec { req with toolChoice := some (choiceOf short) }).toolChoice =
        some (.named (((OpenAIResponses.readTools req.tools).nsNames.lookup short).getD short)) := by
    intro short
    have htype : typeOf [("name", .string short), ("type", .string "function")] =
        some "function" := rfl
    simp [OpenAIResponses.read, OpenAIResponses.readToolChoice, choiceOf, htype,
      OpenAIResponses.chosenName]
  have hremembers := readTools_remembers req.tools
  constructor
  · intro h t ht t' ht' hshort
    have hchosen := (hread t.short).symm.trans (h t ht)
    rw [hshort] at hchosen
    have hchosen' := (hread t'.short).symm.trans (h t' ht')
    have hup : t.upstream = t'.upstream := by
      rw [hchosen] at hchosen'
      simpa using hchosen'
    exact ToolName.eq_of_short hshort hup
  · intro hdistinct t ht
    rw [hread]
    have hname : ((OpenAIResponses.readTools req.tools).nsNames.lookup t.short).getD t.short =
        t.upstream := by
      cases hlookup : (OpenAIResponses.readTools req.tools).nsNames.lookup t.short with
      | some name =>
        have hlast := (hremembers t.short (short_ne_empty ht) name).mp hlookup
        obtain ⟨t', ht', rfl⟩ := Option.map_eq_some_iff.mp hlast
        have hmem := List.mem_of_getLast? ht'
        rw [List.mem_filter, decide_eq_true_eq] at hmem
        rw [hdistinct t ht t' hmem.1 hmem.2.2.symm]
        rfl
      | none =>
        by_cases hspace : t.space = ""
        · rw [ToolName.upstream, hspace]
          rfl
        · -- a namespaced tool is among those remembered under its short name
          have hmem : t ∈ (declaredTools req.tools).filter
              fun t' => t'.space ≠ "" ∧ t'.short = t.short := by
            rw [List.mem_filter]
            exact ⟨ht, by simpa using hspace⟩
          have hne := List.ne_nil_of_mem hmem
          have hlast := (hremembers t.short (short_ne_empty ht) _).mpr
            (by rw [List.getLast?_eq_some_getLast hne]; rfl)
          rw [hlookup] at hlast
          cases hlast
    rw [hname]

/-! ## Restoration -/

/-- The `tools` a request was read from. -/
theorem ofValue_tools {obj : List (String × Value)} {req : OpenAIResponsesRequest}
    (h : OpenAIResponsesRequest.ofValue (.object obj) = some req) :
    Serde.optional "tools" (Serde.vec Serde.any) obj = some req.tools := by
  unfold OpenAIResponsesRequest.ofValue at h
  obtain ⟨_, -, h⟩ := Option.bind_eq_some_iff.mp h
  obtain ⟨_, -, h⟩ := Option.bind_eq_some_iff.mp h
  obtain ⟨_, -, h⟩ := Option.bind_eq_some_iff.mp h
  obtain ⟨_, -, h⟩ := Option.bind_eq_some_iff.mp h
  obtain ⟨_, -, h⟩ := Option.bind_eq_some_iff.mp h
  obtain ⟨_, -, h⟩ := Option.bind_eq_some_iff.mp h
  obtain ⟨_, -, h⟩ := Option.bind_eq_some_iff.mp h
  obtain ⟨tools, htools, h⟩ := Option.bind_eq_some_iff.mp h
  obtain ⟨_, -, h⟩ := Option.bind_eq_some_iff.mp h
  obtain ⟨_, -, h⟩ := Option.bind_eq_some_iff.mp h
  obtain ⟨_, -, h⟩ := Option.bind_eq_some_iff.mp h
  obtain ⟨_, -, h⟩ := Option.bind_eq_some_iff.mp h
  obtain ⟨_, -, h⟩ := Option.bind_eq_some_iff.mp h
  cases h
  exact htools

theorem received_tools {body : List UInt8} {req : OpenAIResponsesRequest}
    (h : Received codec body req) : extractNamespaceMap codec body .openAIResponses =
      ((req.tools.getD []).flatMap namespaceEntries).reverse := by
  obtain ⟨value, hvalue, hreq⟩ := Option.bind_eq_some_iff.mp h
  have htools : (value.get "tools").bind Value.asArray = req.tools := by
    cases value with
    | object obj =>
      have htools := ofValue_tools hreq
      show (obj.lookup "tools").bind Value.asArray = req.tools
      unfold Serde.optional at htools
      split at htools
      · rename_i hnone
        rw [hnone, ← Option.some.inj htools]
        rfl
      · rename_i hnull
        rw [hnull, ← Option.some.inj htools]
        rfl
      · rename_i v _ hv
        rw [hv]
        cases v with
        | array items =>
          rw [Serde.vec_any, Option.map_some, Option.some.injEq] at htools
          exact htools
        | _ => cases htools
    | _ => cases hreq
  simp only [extractNamespaceMap, ne_eq, not_true_eq_false, if_false, hvalue, htools]
  cases req.tools <;> rfl

/-- Every entry is its namespace and its short name put together. -/
theorem entry_eq {tools : List Value} {name ns short : String}
    (h : (name, ns, short) ∈ tools.flatMap namespaceEntries) :
    ns ≠ "" ∧ name = ns ++ "__" ++ short := by
  obtain ⟨tool, -, hin⟩ := List.mem_flatMap.mp h
  unfold namespaceEntries at hin
  split at hin
  · cases hin
  · dsimp only at hin
    split at hin
    · cases hin
    · rename_i hns
      split at hin
      · obtain ⟨child, -, hchild⟩ := List.mem_filterMap.mp hin
        obtain ⟨short', -, heq⟩ := Option.map_eq_some_iff.mp hchild
        obtain ⟨rfl, rfl, rfl⟩ : _ ∧ _ ∧ _ := by simpa using heq
        exact ⟨hns, rfl⟩
      · cases hin

/-- Every declared tool of a namespace has an entry. -/
theorem declared_entry {tools : Option (List Value)} {t : ToolName} (ht : t ∈ declaredTools tools)
    (hspace : t.space ≠ "") :
    (t.upstream, t.space, t.short) ∈ (tools.getD []).flatMap namespaceEntries := by
  obtain ⟨tool, htool, hin⟩ := List.mem_flatMap.mp ht
  refine List.mem_flatMap.mpr ⟨tool, htool, ?_⟩
  unfold declaredIn at hin
  split at hin
  · cases hin
  · rename_i obj hobj
    obtain rfl : tool = .object obj := by
      cases tool with
      | object fields => rw [show fields = obj from by simpa [Value.asObject] using hobj]
      | _ => simp [Value.asObject] at hobj
    split at hin
    · -- a top-level tool has no namespace
      obtain ⟨_, _, hdeclared⟩ := Option.bind_eq_some_iff.mp (Option.mem_toList.mp hin)
      split at hdeclared
      · cases hdeclared
        exact absurd rfl hspace
      · cases hdeclared
    · split at hin
      · rename_i hkind
        split at hin
        · rename_i children hchildren
          obtain ⟨child, hchild, hdeclared⟩ := List.mem_filterMap.mp hin
          obtain ⟨fields, hfields, hfunction⟩ := Option.bind_eq_some_iff.mp hdeclared
          obtain rfl : child = .object fields := by
            cases child with
            | object fields' => rw [show fields' = fields from by simpa [Value.asObject] using hfields]
            | _ => simp [Value.asObject] at hfields
          split at hfunction
          · rename_i hname
            cases hfunction
            have hstring : ∀ (f : List (String × Value)), takeString f "name" ≠ "" →
                (f.lookup "name").bind Value.asStr = some (takeString f "name") := by
              intro f hf
              unfold takeString at hf ⊢
              cases hl : f.lookup "name" with
              | none => simp [hl] at hf
              | some v =>
                cases v with
                | string s => rfl
                | _ => simp [hl] at hf
            have hns : ((obj.lookup "name").bind Value.asStr).getD "" = takeString obj "name" := by
              rw [hstring obj hspace]
              rfl
            have htype : (obj.lookup "type").bind Value.asStr = some "namespace" := hkind
            simp only [namespaceEntries, Value.get, htype, hns, hchildren, Option.bind_some,
              Value.asArray, ne_eq, not_true_eq_false, if_false]
            rw [if_neg hspace]
            refine List.mem_filterMap.mpr ⟨_, hchild, ?_⟩
            simp [childEntry, Value.get, hstring fields hname.2, ToolName.upstream,
              OpenAIResponses.qualify, hspace]
          · cases hfunction
        · cases hin
      · cases hin

/-- What the map holds for the name of a declared tool of a namespace. -/
theorem lookup_declared {tools : Option (List Value)} {t : ToolName} (ht : t ∈ declaredTools tools)
    (hspace : t.space ≠ "") : ∃ ns short,
      ((tools.getD []).flatMap namespaceEntries).reverse.lookup t.upstream = some (ns, short) ∧
      ns ≠ "" ∧ t.upstream = ns ++ "__" ++ short := by
  have hmem := List.mem_reverse.mpr (declared_entry ht hspace)
  have hsome : (((tools.getD []).flatMap namespaceEntries).reverse.lookup t.upstream).isSome := by
    rw [List.lookup_isSome_iff]
    exact ⟨_, hmem, by simp⟩
  obtain ⟨⟨ns, short⟩, hlookup⟩ := Option.isSome_iff_exists.mp hsome
  have hentry : (t.upstream, ns, short) ∈ ((tools.getD []).flatMap namespaceEntries).reverse := by
    obtain ⟨before, after, heq, -⟩ := List.lookup_eq_some_iff.mp hlookup
    rw [heq]
    exact List.mem_append_right _ List.mem_cons_self
  obtain ⟨hns, hname⟩ := entry_eq (List.mem_reverse.mp hentry)
  exact ⟨ns, short, hlookup, hns, hname⟩

/-! ## Delivery -/

/-- The fields of an item that is delivered as a call of a namespaced tool. -/
def deliveredFields (ns short : String) (item : List (String × Value)) : List (String × Value) :=
  Value.insertField "namespace" (.string ns) (Value.insertField "name" (.string short) item)

theorem patchFunctionCallItem_call {nsMap : NamespaceMap} {item : List (String × Value)}
    {name : String} (hitem : CallItem item name) :
    (patchFunctionCallItem nsMap (.object item)).1 =
      match nsMap.lookup name with
      | none => .object item
      | some (ns, short) => .object (deliveredFields ns short item) := by
  unfold patchFunctionCallItem
  simp only [Value.get, hitem.type_eq, hitem.name_eq, Option.bind_some, Value.asStr, ne_eq,
    not_true_eq_false, if_false]
  cases nsMap.lookup name <;> rfl

theorem deliveredFields_name (ns short : String) (item : List (String × Value)) :
    (deliveredFields ns short item).lookup "name" = some (.string short) := by
  unfold deliveredFields
  rw [Value.lookup_insertField_ne (by decide), Value.lookup_insertField_self]

theorem deliveredFields_other (ns short : String) (item : List (String × Value)) {key : String}
    (hname : key ≠ "name") (hspace : key ≠ "namespace") :
    (deliveredFields ns short item).lookup key = item.lookup key := by
  unfold deliveredFields
  rw [Value.lookup_insertField_ne hspace, Value.lookup_insertField_ne hname]

/-- The calls of every declared tool are delivered as its own exactly if the map holds its
namespace and its short name, and nothing for a top-level tool. -/
theorem restored_iff (nsMap : NamespaceMap) (tools : Option (List Value)) :
    (∀ t ∈ declaredTools tools, ∀ item, CallItem item t.upstream →
      Delivers (patchFunctionCallItem nsMap (.object item)).1 t) ↔
    ∀ t ∈ declaredTools tools,
      nsMap.lookup t.upstream = if t.space = "" then none else some (t.space, t.short) := by
  have hsample : ∀ name, CallItem [("name", .string name), ("type", .string "function_call")] name :=
    fun name => ⟨rfl, rfl, rfl⟩
  constructor
  · intro h t ht
    have hdelivers := h t ht _ (hsample t.upstream)
    rw [patchFunctionCallItem_call (hsample t.upstream)] at hdelivers
    cases hlookup : nsMap.lookup t.upstream with
    | none =>
      rw [hlookup] at hdelivers
      have hspace : none = if t.space = "" then none else some (Value.string t.space) :=
        hdelivers.space_eq
      by_cases hempty : t.space = ""
      · rw [if_pos hempty]
      · rw [if_neg hempty] at hspace
        cases hspace
    | some entry =>
      obtain ⟨ns, short⟩ := entry
      rw [hlookup] at hdelivers
      have hname := hdelivers.name_eq
      have hspace := hdelivers.space_eq
      rw [show (Value.object (deliveredFields ns short _)).get "name" = some (.string short) from
        deliveredFields_name _ _ _] at hname
      rw [show (Value.object (deliveredFields ns short _)).get "namespace" = some (.string ns) from
        Value.lookup_insertField_self _ _ _] at hspace
      by_cases hempty : t.space = ""
      · rw [if_pos hempty] at hspace
        cases hspace
      · rw [if_neg hempty] at hspace
        cases hname
        cases hspace
        rw [if_neg hempty]
  · intro h t ht item hitem
    rw [patchFunctionCallItem_call hitem, h t ht]
    by_cases hempty : t.space = ""
    · simp only [if_pos hempty]
      have hup : t.upstream = t.short := by
        rw [ToolName.upstream, hempty]
        rfl
      exact ⟨by rw [← hup]; exact hitem.name_eq, by rw [if_pos hempty]; exact hitem.space_eq⟩
    · simp only [if_neg hempty]
      exact ⟨deliveredFields_name _ _ _,
        by rw [if_neg hempty]; exact Value.lookup_insertField_self _ _ _⟩

/-- The items of a reply's output are patched one by one. -/
theorem patchOutput_items (nsMap : NamespaceMap) {value : Value} {items : List Value}
    (houtput : value.get "output" = some (.array items)) :
    (patchOutput nsMap value).1.get "output" =
      some (.array (items.map fun item => (patchFunctionCallItem nsMap item).1)) := by
  cases value with
  | object fields =>
    have hlookup : fields.lookup "output" = some (.array items) := houtput
    simp only [patchOutput, Value.get, hlookup, Option.bind_some, Value.asArray, Value.set,
      Value.lookup_insertField_self, List.map_map]
    rfl
  | _ => cases houtput

/-- The item of a streamed event is patched like an item of a whole reply. -/
theorem patchEvent_item (nsMap : NamespaceMap) {fields : List (String × Value)} {item : Value}
    (htype : fields.lookup "type" = some (.string "response.output_item.added") ∨
      fields.lookup "type" = some (.string "response.output_item.done"))
    (hitem : fields.lookup "item" = some item) (houtput : fields.lookup "output" = none)
    (hresponse : fields.lookup "response" = none) :
    (patchEventNamespaces nsMap (.object fields)).1.get "item" =
      some (patchFunctionCallItem nsMap item).1 := by
  have hkeep : patchOutput nsMap (.object fields) = (.object fields, false) := by
    simp [patchOutput, Value.get, houtput]
  have hkeep' : patchResponseField nsMap (.object fields) = (.object fields, false) := by
    simp [patchResponseField, Value.get, hresponse]
  have hkind : ∃ kind, fields.lookup "type" = some (.string kind) ∧
      (kind = "response.output_item.added" ∨ kind = "response.output_item.done") := by
    rcases htype with h | h
    · exact ⟨_, h, Or.inl rfl⟩
    · exact ⟨_, h, Or.inr rfl⟩
  obtain ⟨kind, hkind, hcase⟩ := hkind
  simp only [patchEventNamespaces, hkeep, hkeep', patchItemField, Value.get, hkind, hitem,
    Option.bind_some, Value.asStr, Option.getD_some, if_pos hcase, Value.set,
    Value.lookup_insertField_self]

/-! ## The echo -/

/-- **A delivered call comes back under its short name**, whatever its namespace says. -/
theorem echoed_short (ns short : String) {item : List (String × Value)} {name : String}
    (hitem : CallItem item name) (next : OpenAIResponsesRequest)
    (hnext : next.input = some (.array [.object (deliveredFields ns short item)])) :
    historyCalls (OpenAIResponses.read codec next) =
      if short = "" then [] else [(takeString item "call_id", short)] := by
  have htype : typeOf (deliveredFields ns short item) = some "function_call" := by
    rw [typeOf, deliveredFields_other _ _ _ (by decide) (by decide), hitem.type_eq]
    rfl
  have hname : takeString (deliveredFields ns short item) "name" = short := by
    rw [takeString, deliveredFields_name]
  have hid : takeString (deliveredFields ns short item) "call_id" = takeString item "call_id" := by
    rw [takeString, deliveredFields_other _ _ _ (by decide) (by decide), takeString]
  have hkind : OpenAIResponses.inputItemKind (deliveredFields ns short item) = .functionCall := by
    simp [OpenAIResponses.inputItemKind, htype]
  have hmessages : (OpenAIResponses.read codec next).messages =
      OpenAIResponses.pushMessage [] .assistant
        (OpenAIResponses.readFunctionCall codec (deliveredFields ns short item)).toList := by
    simp [OpenAIResponses.read, hnext, OpenAIResponses.readInput, OpenAIResponses.readInputItem,
      OpenAIResponses.readItem, hkind]
  unfold historyCalls
  rw [hmessages, OpenAIResponses.readFunctionCall, hname, hid]
  by_cases hempty : short = ""
  · rw [if_pos hempty, if_pos hempty]
    rfl
  · rw [if_neg hempty, if_neg hempty]
    rfl

/-- **No request with a namespaced tool has every place that names a tool agree.** -/
theorem names_never_agree (codec : JsonCodec) (body : List UInt8) (req : OpenAIResponsesRequest)
    (hreceived : Received codec body req)
    (hspaced : ∃ t ∈ declaredTools req.tools, t.space ≠ "") : ¬ NamesAgree codec body req := by
  intro hagree
  obtain ⟨t, ht, hspace⟩ := hspaced
  have hitem : CallItem [("name", .string t.upstream), ("type", .string "function_call")]
      t.upstream := ⟨rfl, rfl, rfl⟩
  obtain ⟨ns, short, hlookup, -, hname⟩ := lookup_declared ht hspace
  have hdelivered := @patchFunctionCallItem_call
    (extractNamespaceMap codec body .openAIResponses) _ _ hitem
  rw [received_tools hreceived, hlookup] at hdelivered
  have hechoed := hagree.echoed t ht _ hitem
    { req with input := some (.array [.object (deliveredFields ns short
      [("name", .string t.upstream), ("type", .string "function_call")])]) } [] []
    (by rw [received_tools hreceived, hdelivered]; rfl)
  rw [echoed_short ns short hitem _ rfl] at hechoed
  -- the short name is shorter than the qualified one
  split at hechoed
  · cases hechoed
  · have hshort : t.upstream = short := (Prod.mk.inj (List.mem_singleton.mp hechoed)).2
    have hlength := congrArg String.length (hname.symm.trans hshort)
    simp only [String.length_append] at hlength
    have hsep : "__".length = 2 := rfl
    omega

end

/-- A request with one tool, in a namespace. -/
def crmRequest : OpenAIResponsesRequest where
  model := "m"
  input := some (.string "Find Ada")
  instructions := none
  maxOutputTokens := none
  temperature := none
  topP := none
  stream := none
  tools := some [.object [("name", .string "crm"),
    ("tools", .array [.object [("name", .string "find"), ("type", .string "function")]]),
    ("type", .string "namespace")]]
  toolChoice := none
  text := none
  reasoning := none
  previousResponseId := none
  store := none
  extra := []

def crmBody : List UInt8 := utf8 (JsonText.compactCodec.toText crmRequest.toValue)

theorem crmBody_received : Received JsonText.compactCodec crmBody crmRequest := by
  show JsonText.compactCodec.decode OpenAIResponsesRequest.ofValue
    (JsonText.compactCodec.toText crmRequest.toValue) = some crmRequest
  rw [JsonText.compactCodec_decode]
  decide +kernel

theorem names_never_agree_crm :
    Received JsonText.compactCodec crmBody crmRequest ∧
    (∃ t ∈ declaredTools crmRequest.tools, t.space ≠ "") ∧
    ¬ NamesAgree JsonText.compactCodec crmBody crmRequest :=
  ⟨crmBody_received, ⟨⟨"crm", "find"⟩, by decide +kernel, by decide⟩,
    names_never_agree _ _ _ crmBody_received ⟨⟨"crm", "find"⟩, by decide +kernel, by decide⟩⟩

/-- The call of `crm__find` is delivered as `find` of `crm`, and comes back as a call of `find`. -/
theorem crmEcho_renamed : Received JsonText.compactCodec crmBody crmRequest ∧
    ¬ NamesAgree JsonText.compactCodec crmBody crmRequest := by
  refine ⟨crmBody_received, ?_⟩
  intro hagree
  have hitem : CallItem [("call_id", .string "call_1"), ("name", .string "crm__find"),
      ("type", .string "function_call")] "crm__find" := ⟨rfl, rfl, rfl⟩
  have hnext := hagree.echoed ⟨"crm", "find"⟩ (by decide +kernel) _ hitem
    { crmRequest with input := some (.array [.object (deliveredFields "crm" "find"
      [("call_id", .string "call_1"), ("name", .string "crm__find"),
        ("type", .string "function_call")])]) } [] []
    (by rw [received_tools crmBody_received]; decide +kernel)
  rw [echoed_short "crm" "find" hitem _ rfl] at hnext
  revert hnext
  decide +kernel

end AnyConverter
