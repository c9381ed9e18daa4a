import AnyConverter.Lib.Csv
import Mathlib.Data.Rat.Defs

/-!
# The ledger as comma-separated values

A field is quoted when it holds a comma, a quote, a line feed or a carriage return; a record is a line.

* `isField_pushCsvField`: what is written of a field has its value;
* `ledgerCsv_read`: the rows can be read back.
-/

set_option autoImplicit false

namespace AnyConverter.Storage

open Csv

structure LedgerRow where
  requestId : String
  timestamp : String
  provider : String
  clientModel : String
  upstreamModel : String
  servedModel : Option String
  agent : Option String
  account : Option String
  sessionId : Option String
  status : Nat
  attempt : Nat
  streaming : Bool
  latencyMs : Nat
  ttftMs : Nat
  inputTokens : Nat
  outputTokens : Nat
  cacheReadTokens : Nat
  cacheWriteTokens : Nat
  reasoningTokens : Nat
  costUsd : Option ℚ
  deriving DecidableEq

/-! ## The writer -/

/-- Whether a field holds a character that needs quotes. -/
def needsQuotes (field : String) : Bool :=
  field.toList.any fun c => c = ',' || c = '"' || c = '\n' || c = '\r'

def pushCsvField (out field : String) : String :=
  if needsQuotes field then
    (field.toList.foldl (fun out c => (if c = '"' then out.push '"' else out).push c)
      (out.push '"')).push '"'
  else out ++ field

def pushCsvRecord (out : String) (fields : List String) : String :=
  fields.zipIdx.foldl
    (fun out field => pushCsvField (if 0 < field.2 then out.push ',' else out) field.1) out

variable (fixed : ℚ → String)

/-- The values of a row, as they are rendered; `format!("{value:.6}")` is a parameter. -/
def LedgerRow.rendered (row : LedgerRow) : List String :=
  [row.timestamp, row.provider, row.clientModel, row.upstreamModel, row.servedModel.getD "",
    row.agent.getD "", row.account.getD "", row.sessionId.getD "", toString row.status,
    if row.streaming then "true" else "false", toString row.latencyMs, toString row.ttftMs,
    toString row.inputTokens, toString row.outputTokens, toString row.cacheReadTokens,
    toString row.cacheWriteTokens, toString row.reasoningTokens, (row.costUsd.map fixed).getD ""]

def csvHeader : String :=
  "timestamp,provider,client_model,upstream_model,served_model,agent,account," ++
    "session_id,status,streaming,latency_ms,ttft_ms,input_tokens,output_tokens," ++
    "cache_read_tokens,cache_write_tokens,reasoning_tokens,cost_usd"

def ledgerCsv (rows : List LedgerRow) : String :=
  rows.foldl (fun out row => pushCsvRecord (out.push '\n') (row.rendered fixed)) csvHeader

/-- The header's values. -/
def columns : List String :=
  ["timestamp", "provider", "client_model", "upstream_model", "served_model", "agent", "account",
    "session_id", "status", "streaming", "latency_ms", "ttft_ms", "input_tokens", "output_tokens",
    "cache_read_tokens", "cache_write_tokens", "reasoning_tokens", "cost_usd"]

/-! ## Fields and records -/

theorem toList_pushDoubled (cs : List Char) (out : String) :
    (cs.foldl (fun out c => (if c = '"' then out.push '"' else out).push c) out).toList =
      out.toList ++ doubled cs := by
  induction cs generalizing out with
  | nil => exact (List.append_nil _).symm
  | cons c cs ih =>
    rw [List.foldl_cons, ih, doubled_cons, String.toList_push]
    by_cases hc : c = '"'
    · subst hc
      rw [if_pos rfl, if_pos rfl, String.toList_push, List.append_assoc, List.append_assoc]
      rfl
    · rw [if_neg hc, if_neg hc, List.append_assoc]

/-- **What is written of a field** has its value. -/
theorem isField_pushCsvField (out field : String) :
    ∃ text, IsField text field.toList ∧ (pushCsvField out field).toList = out.toList ++ text := by
  unfold pushCsvField
  split
  · refine ⟨_, .quoted field.toList, ?_⟩
    rw [String.toList_push, toList_pushDoubled, String.toList_push, List.append_assoc,
      List.append_assoc]
    rfl
  · rename_i hplain
    refine ⟨field.toList, .plain fun c hc => ?_, String.toList_append⟩
    have hnone : ¬(c = ',' ∨ c = '"' ∨ c = '\n' ∨ c = '\r') := fun hspecial =>
      hplain (List.any_eq_true.mpr ⟨c, hc, by simpa [or_assoc] using hspecial⟩)
    simpa [isText, and_assoc, not_or] using hnone

/-- The fields behind the first are written behind commas. -/
theorem isRecord_pushFields (field : String) (fields : List String) (out : String) (i : Nat) :
    ∃ text, IsRecord text ((field :: fields).map String.toList) ∧
      ((fields.zipIdx (i + 1)).foldl
        (fun out field => pushCsvField (if 0 < field.2 then out.push ',' else out) field.1)
        (pushCsvField out field)).toList = out.toList ++ text := by
  induction fields generalizing field out i with
  | nil =>
    obtain ⟨text, hfield, htext⟩ := isField_pushCsvField out field
    exact ⟨text, .one hfield, htext⟩
  | cons next fields ih =>
    obtain ⟨text, hfield, htext⟩ := isField_pushCsvField out field
    obtain ⟨rest, hrest, hall⟩ := ih next ((pushCsvField out field).push ',') (i + 1)
    refine ⟨text ++ ',' :: rest, .more hfield hrest, ?_⟩
    rw [List.zipIdx_cons, List.foldl_cons, if_pos (Nat.succ_pos i), hall, String.toList_push, htext,
      List.append_assoc, List.append_assoc]
    rfl

theorem isRecord_pushCsvRecord (fields : List String) (h : fields ≠ []) (out : String) :
    ∃ text, IsRecord text (fields.map String.toList) ∧
      (pushCsvRecord out fields).toList = out.toList ++ text := by
  cases fields with
  | nil => exact absurd rfl h
  | cons field fields => exact isRecord_pushFields field fields out 0

/-! ## The whole ledger -/

/-- Rows behind a record are the records behind it. -/
theorem isFile_pushRows (rows : List LedgerRow) (out : String) {text : List Char}
    {record : List (List Char)} (hrecord : IsRecord text record) :
    ∃ file, IsFile file (record :: rows.map fun row => (row.rendered fixed).map String.toList) ∧
      (rows.foldl (fun out row => pushCsvRecord (out.push '\n') (row.rendered fixed))
        (out ++ String.ofList text)).toList = out.toList ++ file := by
  induction rows generalizing out text record with
  | nil => exact ⟨text, .last hrecord, by simp⟩
  | cons row rows ih =>
    obtain ⟨next, hnext, hwritten⟩ := isRecord_pushCsvRecord
      (row.rendered fixed) (List.cons_ne_nil _ _) ((out ++ String.ofList text).push '\n')
    obtain ⟨rest, hrest, hall⟩ := ih ((out ++ String.ofList text).push '\n') hnext
    have hout : pushCsvRecord ((out ++ String.ofList text).push '\n') (row.rendered fixed) =
        (out ++ String.ofList text).push '\n' ++ String.ofList next := by
      rw [← String.toList_inj, hwritten, String.toList_append, String.toList_ofList]
    refine ⟨text ++ (['\n'] ++ rest), .more hrecord .lf hrest, ?_⟩
    rw [List.foldl_cons, hout, hall]
    simp

theorem isRecord_header : IsRecord csvHeader.toList (columns.map String.toList) := by
  obtain ⟨text, hrecord, htext⟩ := isRecord_pushCsvRecord columns (List.cons_ne_nil _ _) ""
  have hwritten : pushCsvRecord "" columns = csvHeader := by decide +kernel
  rw [← hwritten, htext]
  exact hrecord

/-- **The ledger is read back**: its header, and of each row the values that are rendered. -/
theorem ledgerCsv_read (rows : List LedgerRow) :
    Csv.read (ledgerCsv fixed rows) = some (columns :: rows.map (LedgerRow.rendered fixed)) := by
  obtain ⟨file, hfile, htext⟩ := isFile_pushRows fixed rows "" isRecord_header
  rw [String.ofList_toList, String.empty_append, String.toList_empty, List.nil_append] at htext
  have hblank : ∀ record ∈ columns.map String.toList ::
      rows.map fun row => (row.rendered fixed).map String.toList, record ≠ [[]] := by
    intro record hmem hrecord
    subst hrecord
    rcases List.mem_cons.mp hmem with hcolumns | hrow
    · exact absurd (congrArg List.length hcolumns) (by decide)
    · obtain ⟨row, _, hrow⟩ := List.mem_map.mp hrow
      simp [LedgerRow.rendered] at hrow
  rw [Csv.read, ledgerCsv, htext, parse_of_isFile hfile hblank, Option.map_some]
  simp [Function.comp_def]

/-- A provider with a quote in its name, and a session with a line break. -/
example : pushCsvRecord "" ["a\"b", "m", "x\r\ny"] = "\"a\"\"b\",m,\"x\r\ny\"" := by decide +kernel

end AnyConverter.Storage
