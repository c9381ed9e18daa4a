import Mathlib.Data.List.Basic

/-!
# Comma-separated values

The grammar of RFC 4180, and a reader that takes a text character by character.  A record ends with a
line feed, after a carriage return or without one, and the last one may end without either.

* `run_field`, `run_record`: what is read of a field and of a record;
* `parse_of_isFile`: a text of the grammar is read as the records it is made of.
-/

set_option autoImplicit false

namespace Csv

/-! ## The grammar -/

/-- `TEXTDATA`, of any script: what may stand outside quotes. -/
def isText (c : Char) : Bool := c ≠ ',' && c ≠ '"' && c ≠ '\n' && c ≠ '\r'

/-- What stands between quotes, where a quote is written twice. -/
def doubled (cs : List Char) : List Char := cs.flatMap fun c => if c = '"' then ['"', '"'] else [c]

theorem doubled_cons (c : Char) (cs : List Char) :
    doubled (c :: cs) = (if c = '"' then ['"', '"'] else [c]) ++ doubled cs := List.flatMap_cons

/-- The text of a field with a value. -/
inductive IsField : List Char → List Char → Prop
  | plain {cs} : (∀ c ∈ cs, isText c = true) → IsField cs cs
  | quoted (cs) : IsField ('"' :: (doubled cs ++ ['"'])) cs

inductive IsRecord : List Char → List (List Char) → Prop
  | one {text value} : IsField text value → IsRecord text [value]
  | more {text value rest values} : IsField text value → IsRecord rest values →
      IsRecord (text ++ ',' :: rest) (value :: values)

inductive IsBreak : List Char → Prop
  | lf : IsBreak ['\n']
  | crlf : IsBreak ['\r', '\n']

inductive IsFile : List Char → List (List (List Char)) → Prop
  | last {text record} : IsRecord text record → IsFile text [record]
  | ended {text record br} : IsRecord text record → IsBreak br → IsFile (text ++ br) [record]
  | more {text record br rest records} : IsRecord text record → IsBreak br → IsFile rest records →
      IsFile (text ++ (br ++ rest)) (record :: records)

/-! ## The reader -/

/-- Where a reader is: before a field, in one, between its quotes, behind them, behind a carriage
return. -/
inductive Place where
  | start | plain | quoted | closed | cr
  deriving DecidableEq

structure Reader where
  records : List (List (List Char)) := []
  record : List (List Char) := []
  field : List Char := []
  place : Place := .start

namespace Reader

def push (r : Reader) (c : Char) (place : Place) : Reader :=
  { r with field := r.field ++ [c], place := place }

def endField (r : Reader) : Reader :=
  { r with record := r.record ++ [r.field], field := [], place := .start }

def endRecord (r : Reader) : Reader where
  records := r.records ++ [r.record ++ [r.field]]

/-- A character that no quote keeps. -/
def unquoted (r : Reader) (c : Char) : Option Reader :=
  if c = ',' then some r.endField
  else if c = '\n' then some r.endRecord
  else if c = '\r' then some { r with place := .cr }
  else if c = '"' then
    match r.place with
    | .start => some { r with place := .quoted }
    | .closed => some (r.push '"' .quoted)
    | _ => none
  else if r.place = .closed then none
  else some (r.push c .plain)

def step (r : Reader) (c : Char) : Option Reader :=
  match r.place with
  | .quoted => some (if c = '"' then { r with place := .closed } else r.push c .quoted)
  | .cr => if c = '\n' then some r.endRecord else none
  | _ => r.unquoted c

def run (r : Reader) (text : List Char) : Option Reader := text.foldlM step r

/-- The end of the text ends a record, unless a line break has. -/
def finish (r : Reader) : Option (List (List (List Char))) :=
  match r.place with
  | .quoted | .cr => none
  | .start => some (if r.record = [] ∧ r.field = [] then r.records else r.endRecord.records)
  | _ => some r.endRecord.records

end Reader

open Reader

def parse (text : List Char) : Option (List (List (List Char))) := (run {} text).bind finish

/-- The values of a text, record by record. -/
def read (text : String) : Option (List (List String)) :=
  (parse text.toList).map fun records => records.map fun record => record.map String.ofList

/-! ## What is read -/

theorem run_cons (r : Reader) (c : Char) (cs : List Char) :
    run r (c :: cs) = (r.step c).bind fun r' => run r' cs := List.foldlM_cons

theorem run_append (r : Reader) (xs ys : List Char) :
    run r (xs ++ ys) = (run r xs).bind fun r' => run r' ys := List.foldlM_append

/-- A reader that is behind what a field is made of, or before a field that is empty. -/
structure AtEnd (r : Reader) : Prop where
  unquoted : ∀ c, r.step c = r.unquoted c
  empty : r.place = .start → r.field = []
  finish : r.place ≠ .start → r.finish = some r.endRecord.records

theorem atEnd_start (records : List (List (List Char))) (record : List (List Char)) :
    AtEnd ⟨records, record, [], .start⟩ :=
  ⟨fun _ => rfl, fun _ => rfl, fun h => absurd rfl h⟩

theorem run_plain {cs : List Char} (h : ∀ c ∈ cs, isText c = true)
    (records : List (List (List Char))) (record : List (List Char)) (field : List Char) :
    run ⟨records, record, field, .plain⟩ cs = some ⟨records, record, field ++ cs, .plain⟩ := by
  induction cs generalizing field with
  | nil => rw [List.append_nil]; rfl
  | cons c cs ih =>
    have hc : isText c = true := h c List.mem_cons_self
    simp only [isText, ne_eq, Bool.and_eq_true, decide_eq_true_eq] at hc
    obtain ⟨⟨⟨hcomma, hquote⟩, hlf⟩, hcr⟩ := hc
    have hstep : step ⟨records, record, field, .plain⟩ c =
        some ⟨records, record, field ++ [c], .plain⟩ := by
      simp [step, unquoted, hcomma, hquote, hlf, hcr, push]
    rw [run_cons, hstep, Option.bind_some, ih fun d hd => h d (List.mem_cons_of_mem c hd),
      List.append_assoc]
    rfl

/-- Between quotes every character is read, and two quotes as one. -/
theorem run_doubled (cs : List Char) (records : List (List (List Char))) (record : List (List Char))
    (field : List Char) :
    run ⟨records, record, field, .quoted⟩ (doubled cs) =
      some ⟨records, record, field ++ cs, .quoted⟩ := by
  induction cs generalizing field with
  | nil => rw [List.append_nil]; rfl
  | cons c cs ih =>
    have hpush : ∀ rest, run ⟨records, record, field, .quoted⟩
        ((if c = '"' then ['"', '"'] else [c]) ++ rest) =
          run ⟨records, record, field ++ [c], .quoted⟩ rest := by
      intro rest
      by_cases hc : c = '"'
      · subst hc
        rfl
      · rw [if_neg hc, List.cons_append, run_cons]
        simp [step, hc, push]
    rw [doubled_cons, hpush, ih, List.append_assoc]
    rfl

/-- **What is read of a field.** -/
theorem run_field {text value : List Char} (h : IsField text value)
    (records : List (List (List Char))) (record : List (List Char)) :
    ∃ place, run ⟨records, record, [], .start⟩ text = some ⟨records, record, value, place⟩ ∧
      AtEnd ⟨records, record, value, place⟩ := by
  cases h with
  | plain h =>
    cases text with
    | nil => exact ⟨.start, rfl, atEnd_start records record⟩
    | cons c cs =>
      have hc : isText c = true := h c List.mem_cons_self
      simp only [isText, ne_eq, Bool.and_eq_true, decide_eq_true_eq] at hc
      obtain ⟨⟨⟨hcomma, hquote⟩, hlf⟩, hcr⟩ := hc
      have hstep : step ⟨records, record, [], .start⟩ c = some ⟨records, record, [c], .plain⟩ := by
        simp [step, unquoted, hcomma, hquote, hlf, hcr, push]
      refine ⟨.plain, ?_, fun _ => rfl, fun h => (nomatch h), fun _ => rfl⟩
      rw [run_cons, hstep, Option.bind_some,
        run_plain (fun d hd => h d (List.mem_cons_of_mem c hd)) records record [c]]
      rfl
  | quoted cs =>
    refine ⟨.closed, ?_, fun _ => rfl, fun h => (nomatch h), fun _ => rfl⟩
    show run ⟨records, record, [], .quoted⟩ (doubled value ++ ['"']) = _
    rw [run_append, run_doubled value records record [], Option.bind_some]
    rfl

/-- **What is read of a record**: all its values, the last of which is still open. -/
theorem run_record {text : List Char} {values : List (List Char)} (h : IsRecord text values)
    (records : List (List (List Char))) (record : List (List Char)) :
    ∃ r, run ⟨records, record, [], .start⟩ text = some r ∧ AtEnd r ∧ r.records = records ∧
      r.record ++ [r.field] = record ++ values := by
  induction h generalizing record with
  | one hfield =>
    obtain ⟨place, hrun, hend⟩ := run_field hfield records record
    exact ⟨_, hrun, hend, rfl, rfl⟩
  | @more text value rest values hfield _ ih =>
    obtain ⟨place, hrun, hend⟩ := run_field hfield records record
    obtain ⟨r, hrest, hendRest, hrecords, hvalues⟩ := ih (record ++ [value])
    have hcomma : step ⟨records, record, value, place⟩ ',' =
        some ⟨records, record ++ [value], [], .start⟩ := hend.unquoted ','
    refine ⟨r, ?_, hendRest, hrecords, ?_⟩
    · rw [run_append, hrun, Option.bind_some, run_cons, hcomma, Option.bind_some, hrest]
    · rw [hvalues, List.append_assoc]
      rfl

theorem run_break {br : List Char} (h : IsBreak br) {r : Reader} (hend : AtEnd r) :
    run r br = some r.endRecord := by
  have hlf : step r '\n' = some r.endRecord := hend.unquoted '\n'
  cases h with
  | lf => rw [run_cons, hlf]; rfl
  | crlf =>
    have hcr : step r '\r' = some { r with place := .cr } := hend.unquoted '\r'
    rw [run_cons, hcr]
    rfl

theorem run_file {text : List Char} {file : List (List (List Char))} (h : IsFile text file)
    (hblank : ∀ record ∈ file, record ≠ [[]]) (records : List (List (List Char))) :
    (run ⟨records, [], [], .start⟩ text).bind finish = some (records ++ file) := by
  induction h generalizing records with
  | @last text record hrecord =>
    obtain ⟨r, hrun, hend, hrecords, hvalues⟩ := run_record hrecord records []
    rw [List.nil_append] at hvalues
    have hall : r.endRecord.records = records ++ [record] := by
      rw [endRecord, hrecords, hvalues]
    rw [hrun, Option.bind_some, ← hall]
    by_cases hstart : r.place = .start
    · -- a record that is blank is no record of the file
      have hsome : ¬(r.record = [] ∧ r.field = []) := by
        rintro ⟨hnone, hfield⟩
        rw [hnone, hfield] at hvalues
        exact hblank record (List.mem_singleton_self record) hvalues.symm
      rw [finish, hstart]
      exact congrArg some (if_neg hsome)
    · exact hend.finish hstart
  | @ended text record br hrecord hbreak =>
    obtain ⟨r, hrun, hend, hrecords, hvalues⟩ := run_record hrecord records []
    rw [run_append, hrun, Option.bind_some, run_break hbreak hend, endRecord, hrecords, hvalues]
    rfl
  | @more text record br rest file hrecord hbreak _ ih =>
    obtain ⟨r, hrun, hend, hrecords, hvalues⟩ := run_record hrecord records []
    rw [run_append, hrun, Option.bind_some, run_append, run_break hbreak hend, Option.bind_some,
      endRecord, hrecords, hvalues, List.nil_append,
      ih (fun record h => hblank record (List.mem_cons_of_mem _ h)), List.append_assoc]
    rfl

/-- **A text of the grammar is read** as its records, where none of them is a blank line. -/
theorem parse_of_isFile {text : List Char} {file : List (List (List Char))} (h : IsFile text file)
    (hblank : ∀ record ∈ file, record ≠ [[]]) : parse text = some file := run_file h hblank []

end Csv
