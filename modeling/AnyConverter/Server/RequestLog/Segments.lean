import Mathlib.Algebra.Ring.Nat
import AnyConverter.Lib.Runs
import AnyConverter.Lib.Segmented

/-!
# The segments of the request log

The records of a day go to numbered files.  One task writes them, each to the newest file or to the
next one when that is full; another one removes the oldest files of the directory when it holds too
much.  The writer does not keep which file is the newest: it looks for it from the first number on.

* `Sound.step`: what every step keeps, among it the limit of a segment;
* `Orderly.step`: a step keeps the order exactly when a scan does not end before the newest segment;
* `segments_in_order`: which runs keep it.
-/

set_option autoImplicit false

namespace AnyConverter.LogSegments

open Runs Segmented

def maxRequestLogFileBytes : Nat := 10 * 1024 * 1024

/-! ## The directory -/

/-- A record as it is written, and which one it was; the latter is not in the file. -/
structure Line where
  number : Nat
  text : String
  deriving DecidableEq, Repr

/-- With its end of line. -/
def lineBytes (text : String) : Nat := text.utf8ByteSize + 1

structure Segment where
  lines : List Line
  modified : Nat
  deriving DecidableEq, Repr

def Segment.len (segment : Segment) : Nat := (segment.lines.map fun line => lineBytes line.text).sum

/-- A file a sweep has found: a segment of the day, by its index, or any other one. -/
structure LogFileEntry where
  segment : Option Nat
  size : Nat
  modified : Nat
  deriving DecidableEq, Repr

/-- Where the writer is. -/
inductive Writer where
  | idle
  /-- the path asked for next, and the one before with its size -/
  | probing (text : String) (index : Nat) (latest : Option (Nat × Nat))
  | opening (text : String) (path : Nat)
  | writing (text : String) (path : Nat)
  deriving DecidableEq, Repr

/-- Where the sweep is. -/
inductive Sweep where
  | idle
  | collecting (maxBytes : Nat) (entries : List LogFileEntry)
  | removing (entries : List LogFileEntry) (freed overshoot : Nat)
  deriving DecidableEq, Repr

structure State where
  segments : Nat → Option Segment
  writer : Writer
  sweep : Sweep
  now : Nat
  /-- all that was written, in the order it was -/
  log : List Line

def start : State where
  segments := fun _ => none
  writer := .idle
  sweep := .idle
  now := 0
  log := []

namespace State

def setSegment (s : State) (index : Nat) (segment : Option Segment) : State :=
  { s with segments := Function.update s.segments index segment }

/-- The lines of a segment, if it is there. -/
def part (s : State) (index : Nat) : List Line := ((s.segments index).map Segment.lines).getD []

theorem setSegment_self (s : State) (index : Nat) (segment : Option Segment) :
    (s.setSegment index segment).segments index = segment :=
  Function.update_self ..

theorem setSegment_of_ne (s : State) {index i : Nat} (segment : Option Segment) (h : i ≠ index) :
    (s.setSegment index segment).segments i = s.segments i :=
  Function.update_of_ne h ..

theorem part_of_some {s : State} {index : Nat} {segment : Segment}
    (h : s.segments index = some segment) : s.part index = segment.lines := by
  rw [part, h]
  rfl

theorem part_of_none {s : State} {index : Nat} (h : s.segments index = none) :
    s.part index = [] := by
  rw [part, h]
  rfl

theorem part_setSegment (s : State) (index : Nat) (segment : Segment) :
    (s.setSegment index (some segment)).part = Function.update s.part index segment.lines := by
  funext i
  by_cases hi : i = index
  · subst hi
    rw [part_of_some (s.setSegment_self i (some segment)), Function.update_self]
  · rw [part, s.setSegment_of_ne _ hi, Function.update_of_ne hi]
    rfl

end State

/-! ## Steps -/

inductive Act where
  /-- the writer takes up a record -/
  | write (text : String)
  /-- it asks for the metadata of the next segment -/
  | probe
  | create
  | append
  /-- an error of the file system ends the write -/
  | fails
  | sweep (maxBytes : Nat)
  /-- the sweep comes to the entry of a segment, or of another file -/
  | collect (index : Nat)
  | collectOther (size modified : Nat)
  | collected
  /-- the sweep comes to the next entry, which can be removed or not -/
  | remove (ok : Bool)
  /-- the process starts anew -/
  | restart
  | tick
  deriving DecidableEq, Repr

/-- Where a line goes when a path is the first that is not there. -/
def requestLogPath (missing : Nat) (latest : Option (Nat × Nat)) (nextLineBytes : Nat) : Nat :=
  match latest with
  | some (path, size) => if size + nextLineBytes ≤ maxRequestLogFileBytes then path else missing
  | none => missing

/-- `enforce_quota` once it has collected the files. -/
def enforceQuota (maxBytes : Nat) (entries : List LogFileEntry) : Sweep :=
  let total := (entries.map LogFileEntry.size).sum
  if total ≤ maxBytes then .idle
  else .removing (entries.mergeSort fun e e' => e.modified ≤ e'.modified) 0 (total - maxBytes)

/-- `remove_file`: whether the entry is gone by it, and what is left of the directory. -/
def removeFile (s : State) (entry : LogFileEntry) (ok : Bool) : Option State :=
  match entry.segment with
  | some index => if ok ∧ s.segments index ≠ none then some (s.setSegment index none) else none
  | none => if ok then some s else none

def step (s : State) : Act → Option State
  | .write text =>
    if s.writer = .idle then some { s with writer := .probing text 0 none } else none
  | .probe =>
    match s.writer with
    | .probing text index latest =>
      some { s with writer := match s.segments index with
        | some segment => .probing text (index + 1) (some (index, segment.len))
        | none => .opening text (requestLogPath index latest (lineBytes text)) }
    | _ => none
  | .create =>
    match s.writer with
    | .opening text path =>
      let s := { s with writer := .writing text path }
      some (if s.segments path = none then s.setSegment path (some ⟨[], s.now⟩) else s)
    | _ => none
  | .append =>
    match s.writer with
    | .writing text path =>
      let line : Line := ⟨s.log.length, text⟩
      let s := { s with writer := .idle, log := s.log ++ [line] }
      -- a file that was removed since it was opened takes the line and is gone with it
      some (match s.segments path with
        | some segment => s.setSegment path (some ⟨segment.lines ++ [line], s.now⟩)
        | none => s)
    | _ => none
  | .fails => if s.writer = .idle then none else some { s with writer := .idle }
  | .sweep maxBytes =>
    if s.sweep = .idle ∧ maxBytes ≠ 0 then some { s with sweep := .collecting maxBytes [] }
    else none
  | .collect index =>
    match s.sweep with
    | .collecting maxBytes entries =>
      some { s with sweep := .collecting maxBytes (match s.segments index with
        | some segment => entries ++ [⟨some index, segment.len, segment.modified⟩]
        | none => entries) }
    | _ => none
  | .collectOther size modified =>
    match s.sweep with
    | .collecting maxBytes entries =>
      some { s with sweep := .collecting maxBytes (entries ++ [⟨none, size, modified⟩]) }
    | _ => none
  | .collected =>
    match s.sweep with
    | .collecting maxBytes entries => some { s with sweep := enforceQuota maxBytes entries }
    | _ => none
  | .remove ok =>
    match s.sweep with
    | .removing [] _ _ => some { s with sweep := .idle }
    | .removing (entry :: entries) freed overshoot =>
      if freed ≥ overshoot then some { s with sweep := .idle }
      else
        match removeFile s entry ok with
        | some s => some { s with sweep := .removing entries (freed + entry.size) overshoot }
        | none => some { s with sweep := .removing entries freed overshoot }
    | _ => none
  | .restart => some { s with writer := .idle, sweep := .idle }
  | .tick => some { s with now := s.now + 1 }

/-! ## What is promised -/

/-- No segment is larger than the limit, except for one with a single record. -/
def Segment.Limited (segment : Segment) : Prop :=
  segment.len ≤ maxRequestLogFileBytes ∨ segment.lines.length ≤ 1

/-- What the writer writes next, and where it has chosen to. -/
def Writer.target : Writer → Option (String × Nat)
  | opening text path => some (text, path)
  | writing text path => some (text, path)
  | _ => none

/-- The surviving segments, read by index, have the surviving records in the order they were
written; a record goes to the newest segment or to a new one after it; and no segment grows over the
limit. -/
structure Orderly (s : State) : Prop where
  order : InOrder s.part s.log
  numbered : s.log.map Line.number = List.range s.log.length
  newest : ∀ text path, s.writer.target = some (text, path) → ∀ i, s.segments i ≠ none → i ≤ path
  limited : ∀ i segment, s.segments i = some segment → segment.Limited

/-- The scan of the writer does not end before the newest segment. -/
def Unbroken (s : State) : Act → Prop
  | .probe => ∀ text index latest, s.writer = .probing text index latest →
    s.segments index = none → ∀ j, index < j → s.segments j = none
  | _ => True

variable {s s' : State}

/-! ## What every step keeps -/

/-- The writer has come to a path, and knows the size of the one before if that is still there. -/
def Scanned (s : State) (index : Nat) : Option (Nat × Nat) → Prop
  | none => index = 0
  | some (path, size) =>
    index = path + 1 ∧ ∀ segment, s.segments path = some segment → segment.len = size

structure Sound (s : State) : Prop where
  numbered : s.log.map Line.number = List.range s.log.length
  limited : ∀ i segment, s.segments i = some segment → segment.Limited
  scanned : ∀ text index latest, s.writer = .probing text index latest → Scanned s index latest
  fits : ∀ text path, s.writer.target = some (text, path) → ∀ segment,
    s.segments path = some segment →
      segment.len + lineBytes text ≤ maxRequestLogFileBytes ∨ segment.lines = []

theorem sound_start : Sound start where
  numbered := rfl
  limited := nofun
  scanned := nofun
  fits := nofun

/-- A step that at most removes segments. -/
structure Shrinks (s s' : State) : Prop where
  segments : ∀ i, s'.segments i = s.segments i ∨ s'.segments i = none
  writer : s'.writer = s.writer
  log : s'.log = s.log

theorem shrinks_refl (s : State) : Shrinks s s := ⟨fun _ => .inl rfl, rfl, rfl⟩

theorem Shrinks.kept (h : Shrinks s s') {i : Nat} {segment : Segment}
    (hsegment : s'.segments i = some segment) : s.segments i = some segment := by
  rcases h.segments i with heq | hnone
  · rw [← heq, hsegment]
  · rw [hnone] at hsegment
    cases hsegment

theorem shrinks_removeFile {entry : LogFileEntry} {ok : Bool}
    (h : removeFile s entry ok = some s') : Shrinks s s' := by
  unfold removeFile at h
  split at h
  · rename_i index hindex
    obtain ⟨-, hs'⟩ := Option.ite_none_right_eq_some.mp h
    cases hs'
    refine ⟨fun i => ?_, rfl, rfl⟩
    by_cases hi : i = index
    · subst hi
      exact .inr (Function.update_self ..)
    · exact .inl (Function.update_of_ne hi ..)
  · obtain ⟨-, hs'⟩ := Option.ite_none_right_eq_some.mp h
    cases hs'
    exact shrinks_refl s

/-- The steps of the writer, and a new start of it. -/
def Act.writes : Act → Bool
  | write _ => true
  | probe => true
  | create => true
  | append => true
  | fails => true
  | restart => true
  | _ => false

theorem shrinks_step {act : Act} (hwrites : act.writes = false) (h : step s act = some s') :
    Shrinks s s' := by
  cases act with
  | sweep maxBytes =>
    obtain ⟨-, hs'⟩ := Option.ite_none_right_eq_some.mp h
    cases hs'
    exact ⟨fun _ => .inl rfl, rfl, rfl⟩
  | collect index =>
    simp only [step] at h
    split at h <;> cases h
    exact ⟨fun _ => .inl rfl, rfl, rfl⟩
  | collectOther size modified =>
    simp only [step] at h
    split at h <;> cases h
    exact ⟨fun _ => .inl rfl, rfl, rfl⟩
  | collected =>
    simp only [step] at h
    split at h <;> cases h
    exact ⟨fun _ => .inl rfl, rfl, rfl⟩
  | remove ok =>
    simp only [step] at h
    split at h
    · cases h
      exact ⟨fun _ => .inl rfl, rfl, rfl⟩
    · split at h
      · cases h
        exact ⟨fun _ => .inl rfl, rfl, rfl⟩
      · split at h
        · rename_i s₁ hremove
          cases h
          have hshrinks := shrinks_removeFile hremove
          exact ⟨hshrinks.segments, hshrinks.writer, hshrinks.log⟩
        · cases h
          exact ⟨fun _ => .inl rfl, rfl, rfl⟩
    · cases h
  | tick =>
    cases h
    exact ⟨fun _ => .inl rfl, rfl, rfl⟩
  | write | probe | create | append | fails | restart => cases hwrites

theorem len_append (segment : Segment) (line : Line) (modified : Nat) :
    (⟨segment.lines ++ [line], modified⟩ : Segment).len = segment.len + lineBytes line.text := by
  simp [Segment.len]

/-- The path a write goes to: the first one that is not there, or the one before with room. -/
theorem requestLogPath_cases (missing : Nat) (latest : Option (Nat × Nat)) (nextLineBytes : Nat) :
    requestLogPath missing latest nextLineBytes = missing ∨
      ∃ path size, latest = some (path, size) ∧ size + nextLineBytes ≤ maxRequestLogFileBytes ∧
        requestLogPath missing latest nextLineBytes = path := by
  unfold requestLogPath
  split
  · rename_i path size
    split
    · rename_i hroom
      exact .inr ⟨path, size, rfl, hroom, rfl⟩
    · exact .inl rfl
  · exact .inl rfl

theorem Scanned.requestLogPath_le {index : Nat} {latest : Option (Nat × Nat)}
    (h : Scanned s index latest) (nextLineBytes : Nat) :
    requestLogPath index latest nextLineBytes ≤ index := by
  rcases requestLogPath_cases index latest nextLineBytes with heq | ⟨path, size, rfl, -, heq⟩
  · exact Nat.le_of_eq heq
  · rw [heq, h.1]
    exact Nat.le_succ path

theorem Sound.shrinks (h : Sound s) (hshrinks : Shrinks s s') : Sound s' where
  numbered := by
    rw [hshrinks.log]
    exact h.numbered
  limited := fun i segment hsegment => h.limited i segment (hshrinks.kept hsegment)
  scanned := by
    intro text index latest hwriter
    rw [hshrinks.writer] at hwriter
    have hscanned := h.scanned text index latest hwriter
    match latest, hscanned with
    | none, hscanned => exact hscanned
    | some (path, size), ⟨hindex, hsize⟩ =>
      exact ⟨hindex, fun segment hsegment => hsize segment (hshrinks.kept hsegment)⟩
  fits := by
    intro text path htarget segment hsegment
    rw [hshrinks.writer] at htarget
    exact h.fits text path htarget segment (hshrinks.kept hsegment)

theorem Sound.setWriter (h : Sound s) {writer : Writer}
    (hscanned : ∀ text index latest, writer = .probing text index latest → Scanned s index latest)
    (hfits : ∀ text path, writer.target = some (text, path) → ∀ segment,
      s.segments path = some segment →
        segment.len + lineBytes text ≤ maxRequestLogFileBytes ∨ segment.lines = []) :
    Sound { s with writer := writer } :=
  ⟨h.numbered, h.limited, hscanned, hfits⟩

/-- What the next look at the directory tells. -/
theorem Sound.probe (h : Sound s) {text : String} {index : Nat} {latest : Option (Nat × Nat)}
    (hwriter : s.writer = .probing text index latest) :
    Sound { s with writer := match s.segments index with
      | some segment => .probing text (index + 1) (some (index, segment.len))
      | none => .opening text (requestLogPath index latest (lineBytes text)) } := by
  have hscanned := h.scanned text index latest hwriter
  cases hsegment : s.segments index with
  | some segment =>
    refine h.setWriter ?_ nofun
    rintro - - - ⟨⟩
    refine ⟨rfl, fun segment' hsegment' => ?_⟩
    rw [hsegment] at hsegment'
    cases hsegment'
    rfl
  | none =>
    refine h.setWriter nofun ?_
    intro text' path' htarget segment hpath
    cases htarget
    have hcases := requestLogPath_cases index latest (lineBytes text)
    rcases hcases with heq | ⟨path, size, rfl, hroom, heq⟩
    · -- nothing is there
      rw [heq, hsegment] at hpath
      cases hpath
    · rw [heq] at hpath
      rw [hscanned.2 segment hpath]
      exact .inl hroom

theorem Sound.create (h : Sound s) {text : String} {path : Nat}
    (hwriter : s.writer = .opening text path) :
    Sound (if s.segments path = none
      then { s with writer := .writing text path }.setSegment path (some ⟨[], s.now⟩)
      else { s with writer := .writing text path }) := by
  have hfits := h.fits text path (by rw [hwriter]; rfl)
  have hwriting : Sound { s with writer := .writing text path } := by
    refine h.setWriter nofun ?_
    intro text' path' htarget
    cases htarget
    exact hfits
  split
  · refine ⟨h.numbered, fun i segment hsegment => ?_, nofun, ?_⟩
    · by_cases hi : i = path
      · subst hi
        rw [State.setSegment_self] at hsegment
        cases hsegment
        exact .inr (Nat.zero_le 1)
      · rw [State.setSegment_of_ne _ _ hi] at hsegment
        exact h.limited i segment hsegment
    · intro text' path' htarget segment hsegment
      cases htarget
      rw [State.setSegment_self] at hsegment
      cases hsegment
      exact .inr rfl
  · exact hwriting

theorem numbered_append {log : List Line} (h : log.map Line.number = List.range log.length)
    (text : String) :
    (log ++ [Line.mk log.length text]).map Line.number =
      List.range (log ++ [Line.mk log.length text]).length := by
  rw [List.map_append, h, List.length_append, List.length_singleton, List.range_succ]
  rfl

theorem Sound.append (h : Sound s) {text : String} {path : Nat}
    (hwriter : s.writer = .writing text path) (hstep : step s .append = some s') : Sound s' := by
  have hfits := h.fits text path (by rw [hwriter]; rfl)
  simp only [LogSegments.step, hwriter] at hstep
  cases hsegment : s.segments path with
  | none =>
    simp only [hsegment] at hstep
    cases hstep
    exact ⟨numbered_append h.numbered text, h.limited, nofun, nofun⟩
  | some segment =>
    simp only [hsegment] at hstep
    cases hstep
    refine ⟨numbered_append h.numbered text, fun i segment' hsegment' => ?_, nofun, nofun⟩
    by_cases hi : i = path
    · subst hi
      rw [State.setSegment_self] at hsegment'
      cases hsegment'
      rcases hfits segment hsegment with hroom | hempty
      · refine .inl ?_
        rw [len_append]
        exact hroom
      · refine .inr ?_
        rw [hempty]
        exact Nat.le_refl 1
    · rw [State.setSegment_of_ne _ _ hi] at hsegment'
      exact h.limited i segment' hsegment'

theorem Sound.step {act : Act} (h : Sound s) (hstep : step s act = some s') : Sound s' := by
  cases hwrites : act.writes with
  | false => exact h.shrinks (shrinks_step hwrites hstep)
  | true =>
    cases act with
    | write text =>
      obtain ⟨-, hs'⟩ := Option.ite_none_right_eq_some.mp hstep
      cases hs'
      refine h.setWriter ?_ nofun
      rintro - - - ⟨⟩
      exact rfl
    | probe =>
      simp only [LogSegments.step] at hstep
      split at hstep
      · rename_i text index latest hwriter
        cases hstep
        exact h.probe hwriter
      · cases hstep
    | create =>
      simp only [LogSegments.step] at hstep
      split at hstep
      · rename_i text path hwriter
        cases hstep
        exact h.create hwriter
      · cases hstep
    | append =>
      cases hwriter : s.writer with
      | writing text path => exact h.append hwriter hstep
      | idle | probing | opening => simp [LogSegments.step, hwriter] at hstep
    | fails =>
      simp only [LogSegments.step] at hstep
      split at hstep <;> cases hstep
      exact h.setWriter nofun nofun
    | restart =>
      cases hstep
      exact ⟨h.numbered, h.limited, nofun, nofun⟩
    | sweep | collect | collectOther | collected | remove | tick => cases hwrites

/-! ## The order -/

theorem orderly_start : Orderly start where
  order := inOrder_empty
  numbered := rfl
  newest := nofun
  limited := nofun

theorem Orderly.shrinks (h : Orderly s) (hs' : Sound s') (hshrinks : Shrinks s s') :
    Orderly s' where
  order := by
    rw [hshrinks.log]
    refine h.order.shrink fun i => ?_
    cases hsegment : s'.segments i with
    | none =>
      rw [State.part_of_none hsegment]
      exact List.nil_sublist _
    | some segment =>
      rw [State.part_of_some hsegment, State.part_of_some (hshrinks.kept hsegment)]
  numbered := hs'.numbered
  newest := by
    intro text path htarget i hi
    rw [hshrinks.writer] at htarget
    refine h.newest text path htarget i ?_
    obtain ⟨segment, hsegment⟩ := Option.ne_none_iff_exists'.mp hi
    rw [hshrinks.kept hsegment]
    nofun
  limited := hs'.limited

/-- The writer moves on in its scan, or gives up. -/
theorem Orderly.setWriter (h : Orderly s) {writer : Writer} (hnone : writer.target = none) :
    Orderly { s with writer := writer } where
  order := h.order
  numbered := h.numbered
  newest := by
    intro text path htarget
    rw [hnone] at htarget
    cases htarget
  limited := h.limited

/-- The end of a scan: it keeps the order exactly when no later segment is there. -/
theorem Orderly.scan_ends (h : Orderly s) {text : String} {index : Nat}
    {latest : Option (Nat × Nat)} (hscanned : Scanned s index latest)
    (hmissing : s.segments index = none) :
    Orderly { s with writer := .opening text (requestLogPath index latest (lineBytes text)) } ↔
      ∀ j, index < j → s.segments j = none := by
  constructor
  · intro hnew j hj
    by_contra hsome
    have hle := hnew.newest text _ rfl j hsome
    have hpath := hscanned.requestLogPath_le (lineBytes text)
    omega
  · intro hlater
    refine ⟨h.order, h.numbered, ?_, h.limited⟩
    intro text' path' htarget i hi
    cases htarget
    have hbefore : i < index := by
      rcases Nat.lt_trichotomy i index with hlt | heq | hgt
      · exact hlt
      · exact absurd (heq ▸ hmissing) hi
      · exact absurd (hlater i hgt) hi
    rcases requestLogPath_cases index latest (lineBytes text) with heq | ⟨path, size, rfl, -, heq⟩
    · rw [heq]
      exact Nat.le_of_lt hbefore
    · have hindex := hscanned.1
      rw [heq]
      omega

theorem Orderly.create (h : Orderly s) {text : String} {path : Nat}
    (hwriter : s.writer = .opening text path) (hs' : Sound s') (hstep : step s .create = some s') :
    Orderly s' := by
  have hnewest := h.newest text path (by rw [hwriter]; rfl)
  simp only [LogSegments.step, hwriter] at hstep
  by_cases hmissing : s.segments path = none
  · rw [if_pos hmissing] at hstep
    cases hstep
    refine ⟨?_, h.numbered, ?_, hs'.limited⟩
    · rw [State.part_setSegment]
      refine h.order.shrink fun i => ?_
      by_cases hi : i = path
      · subst hi
        rw [Function.update_self]
        exact List.nil_sublist _
      · rw [Function.update_of_ne hi]
        exact .refl _
    · intro text' path' htarget i hi
      cases htarget
      by_cases heq : i = path
      · exact Nat.le_of_eq heq
      · rw [State.setSegment_of_ne _ _ heq] at hi
        exact hnewest i hi
  · rw [if_neg hmissing] at hstep
    cases hstep
    refine ⟨h.order, h.numbered, ?_, hs'.limited⟩
    intro text' path' htarget
    cases htarget
    exact hnewest

theorem Orderly.append (h : Orderly s) {text : String} {path : Nat}
    (hwriter : s.writer = .writing text path) (hs' : Sound s') (hstep : step s .append = some s') :
    Orderly s' := by
  have hnewest := h.newest text path (by rw [hwriter]; rfl)
  simp only [LogSegments.step, hwriter] at hstep
  cases hsegment : s.segments path with
  | none =>
    simp only [hsegment] at hstep
    cases hstep
    exact ⟨h.order.lose _, hs'.numbered, nofun, hs'.limited⟩
  | some segment =>
    simp only [hsegment] at hstep
    cases hstep
    refine ⟨?_, hs'.numbered, nofun, hs'.limited⟩
    rw [State.part_setSegment]
    have hlast : ∀ i, path < i → s.part i = [] := by
      intro i hi
      refine State.part_of_none ?_
      by_contra hsome
      exact absurd (hnewest i hsome) (by omega)
    rw [← State.part_of_some hsegment]
    exact h.order.append hlast _

/-- What a step keeps exactly when the scan of the writer does not end before the newest segment. -/
theorem Orderly.step {act : Act} (h : Orderly s) (hsound : Sound s) (hstep : step s act = some s') :
    Orderly s' ↔ Unbroken s act := by
  have hs' := hsound.step hstep
  cases hwrites : act.writes with
  | false =>
    have hunbroken : Unbroken s act := by
      cases act <;> trivial
    exact iff_of_true (h.shrinks hs' (shrinks_step hwrites hstep)) hunbroken
  | true =>
    cases act with
    | write text =>
      obtain ⟨-, hs'⟩ := Option.ite_none_right_eq_some.mp hstep
      cases hs'
      exact iff_of_true (h.setWriter rfl) trivial
    | probe =>
      simp only [LogSegments.step] at hstep
      split at hstep
      · rename_i text index latest hwriter
        cases hstep
        have hscanned := hsound.scanned text index latest hwriter
        cases hsegment : s.segments index with
        | some segment =>
          refine iff_of_true (h.setWriter rfl) ?_
          intro text' index' latest' hwriter' hmissing
          rw [hwriter] at hwriter'
          cases hwriter'
          rw [hsegment] at hmissing
          cases hmissing
        | none =>
          refine (h.scan_ends hscanned hsegment).trans ⟨fun hlater => ?_, fun hunbroken => ?_⟩
          · intro text' index' latest' hwriter' _
            rw [hwriter] at hwriter'
            cases hwriter'
            exact hlater
          · exact hunbroken text index latest hwriter hsegment
      · cases hstep
    | create =>
      cases hwriter : s.writer with
      | opening text path => exact iff_of_true (h.create hwriter hs' hstep) trivial
      | idle | probing | writing => simp [LogSegments.step, hwriter] at hstep
    | append =>
      cases hwriter : s.writer with
      | writing text path => exact iff_of_true (h.append hwriter hs' hstep) trivial
      | idle | probing | opening => simp [LogSegments.step, hwriter] at hstep
    | fails =>
      simp only [LogSegments.step] at hstep
      split at hstep <;> cases hstep
      exact iff_of_true (h.setWriter rfl) trivial
    | restart =>
      cases hstep
      exact iff_of_true ⟨h.order, h.numbered, nofun, h.limited⟩ trivial
    | sweep | collect | collectOther | collected | remove | tick => cases hwrites

/-- **Which runs keep the segments in order**: those in which the writer's scan never ends before
the newest segment, at a segment that a sweep has removed. -/
theorem segments_in_order (acts : List Act) (s : State) (hrun : run step start acts = some s) :
    Always step Orderly start acts ↔ Meets step Unbroken start acts :=
  always_iff_meets (I := Sound) (fun _ _ _ hsound hstep => hsound.step hstep)
    (fun _ _ _ hsound horderly hstep => horderly.step hsound hstep) sound_start orderly_start hrun

/-- Two records of a day, in the one segment that a sweep leaves. -/
theorem one_segment_in_order : Always step Orderly start [.write "a", .probe, .create, .append,
    .sweep 100, .collect 0, .collected, .write "b", .probe, .probe, .create, .append] := by
  refine (segments_in_order _ _ rfl).mpr ?_
  refine .cons trivial rfl (.cons (fun _ _ _ _ _ _ _ => rfl) rfl ?_)
  refine .cons trivial rfl (.cons trivial rfl ?_)
  refine .cons trivial rfl (.cons trivial rfl (.cons trivial rfl (.cons trivial rfl ?_)))
  refine .cons ?_ rfl (.cons ?_ rfl (.cons trivial rfl (.cons trivial rfl trivial)))
  · intro text index latest hwriter hmissing
    cases hwriter
    cases hmissing
  · intro text index latest hwriter _ j hj
    cases hwriter
    have hne : j ≠ 0 := Nat.ne_zero_of_lt hj
    exact (Function.update_of_ne hne ..).trans (Function.update_of_ne hne ..)

/-! ## A segment is swept -/

/-- A record of so many characters. -/
def longText (n : Nat) : String := String.ofList (List.replicate n 'a')

theorem lineBytes_longText (n : Nat) : lineBytes (longText n) = n + 1 := by
  have hbytes : (longText n).utf8ByteSize = n := by
    unfold longText
    induction n with
    | zero => rfl
    | succ n ih =>
      rw [List.replicate_succ, String.ofList_cons, String.utf8ByteSize_append, ih]
      exact Nat.add_comm 1 n
  rw [lineBytes, hbytes]

theorem step_probe_missing {text : String} {index path : Nat} {latest : Option (Nat × Nat)}
    (hwriter : s.writer = .probing text index latest) (hmissing : s.segments index = none)
    (hpath : requestLogPath index latest (lineBytes text) = path) :
    step s .probe = some { s with writer := .opening text path } := by
  simp only [LogSegments.step, hwriter, hmissing, hpath]

theorem step_collected {maxBytes : Nat} {entries : List LogFileEntry} {sweep : Sweep}
    (hsweep : s.sweep = .collecting maxBytes entries)
    (hquota : enforceQuota maxBytes entries = sweep) :
    step s .collected = some { s with sweep := sweep } := by
  simp only [LogSegments.step, hsweep, hquota]

/-- A full segment, and one behind it. -/
def twoSegments (full : String) : State where
  segments := Function.update (Function.update (fun _ => none) 0 (some ⟨[⟨0, full⟩], 0⟩)) 1
    (some ⟨[⟨1, "b"⟩], 1⟩)
  writer := .idle
  sweep := .idle
  now := 1
  log := [⟨0, full⟩, ⟨1, "b"⟩]

def twoWrites (full : String) : List Act :=
  [.write full, .probe, .create, .append, .tick] ++
    ([.write "b", .probe] ++ .probe :: [.create, .append])

theorem run_twoWrites {full : String} (hfull : lineBytes full = maxRequestLogFileBytes + 1) :
    run step start (twoWrites full) = some (twoSegments full) := by
  let first : Segment := ⟨[⟨0, full⟩], 0⟩
  let s₁ : State := { start with
    segments := Function.update (fun _ => none) 0 (some first), log := [⟨0, full⟩], now := 1 }
  have hfirst : run step start [.write full, .probe, .create, .append, .tick] = some s₁ := by
    have h : run step start [.write full, .probe, .create, .append, .tick] = some { s₁ with
        segments := Function.update (Function.update (fun _ => none) 0 (some ⟨[], 0⟩)) 0
          (some first) } := rfl
    rw [h, Function.update_idem]
  have hscan : run step s₁ [.write "b", .probe] =
      some { s₁ with writer := .probing "b" 1 (some (0, first.len)) } := rfl
  have hpath : requestLogPath 1 (some (0, first.len)) (lineBytes "b") = 1 := by
    have hlen : first.len = maxRequestLogFileBytes + 1 := hfull
    have hfull : ¬maxRequestLogFileBytes + 1 + 2 ≤ maxRequestLogFileBytes := by omega
    rw [hlen, requestLogPath]
    exact if_neg hfull
  have hprobe : step { s₁ with writer := .probing "b" 1 (some (0, first.len)) } .probe =
      some { s₁ with writer := .opening "b" 1 } := step_probe_missing rfl rfl hpath
  have hrest : run step { s₁ with writer := .opening "b" 1 } [.create, .append] =
      some (twoSegments full) := by
    have h : run step { s₁ with writer := .opening "b" 1 } [.create, .append] =
        some { twoSegments full with
          segments := Function.update (Function.update s₁.segments 1 (some ⟨[], 1⟩)) 1
            (some ⟨[⟨1, "b"⟩], 1⟩) } := rfl
    rw [h, Function.update_idem]
    rfl
  rw [twoWrites, run_append, hfirst, Option.bind_some, run_append, hscan, Option.bind_some,
    run_step hprobe, hrest]

/-- The older of two segments is removed, and another record comes in. -/
def sweptWrite : List Act :=
  [.sweep maxRequestLogFileBytes, .collect 0, .collect 1] ++
    .collected :: [.remove true, .write "c", .probe, .create, .append]

theorem run_sweptWrite {full : String} (hfull : lineBytes full = maxRequestLogFileBytes + 1) :
    ∃ s, run step (twoSegments full) sweptWrite = some s ∧
      (reading s.part 2).map Line.number = [2, 1] ∧ s.log.map Line.number = [0, 1, 2] := by
  let first : LogFileEntry := ⟨some 0, Segment.len ⟨[⟨0, full⟩], 0⟩, 0⟩
  let second : LogFileEntry := ⟨some 1, 2, 1⟩
  let swept : State := { twoSegments full with sweep := .removing [first, second] 0 3 }
  have hcollect : run step (twoSegments full)
      [.sweep maxRequestLogFileBytes, .collect 0, .collect 1] = some { twoSegments full with
        sweep := .collecting maxRequestLogFileBytes [first, second] } := rfl
  have hquota : enforceQuota maxRequestLogFileBytes [first, second] =
      .removing [first, second] 0 3 := by
    have htotal : ([first, second].map LogFileEntry.size).sum = maxRequestLogFileBytes + 3 := by
      have hlen : first.size = maxRequestLogFileBytes + 1 := hfull
      simp [hlen, second]
    have hsort : [first, second].mergeSort (fun e e' => decide (e.modified ≤ e'.modified)) =
        [first, second] := by
      exact List.mergeSort_of_pairwise (by simp [first, second])
    rw [enforceQuota, htotal, if_neg (by omega), hsort, Nat.add_sub_cancel_left]
  have hcollected : step { twoSegments full with
      sweep := .collecting maxRequestLogFileBytes [first, second] } .collected = some swept :=
    step_collected rfl hquota
  let gone : Nat → Option Segment := Function.update (twoSegments full).segments 0 none
  let s : State := { twoSegments full with
    segments := Function.update (Function.update gone 0 (some ⟨[], 1⟩)) 0 (some ⟨[⟨2, "c"⟩], 1⟩)
    sweep := .removing [second] (0 + first.size) 3
    log := [⟨0, full⟩, ⟨1, "b"⟩, ⟨2, "c"⟩] }
  have hrest : run step swept [.remove true, .write "c", .probe, .create, .append] = some s := rfl
  refine ⟨s, ?_, rfl, rfl⟩
  rw [sweptWrite, run_append, hcollect, Option.bind_some, run_step hcollected, hrest]

/-- A record goes to a segment in front of the newest one: the older one has been removed. -/
theorem swept_out_of_order : ¬∀ (acts : List Act) (s : State), run step start acts = some s →
    Always step Orderly start acts := by
  intro h
  obtain ⟨full, hfull⟩ : ∃ full, lineBytes full = maxRequestLogFileBytes + 1 :=
    ⟨longText maxRequestLogFileBytes, lineBytes_longText maxRequestLogFileBytes⟩
  obtain ⟨s, hswept, hreading, hlog⟩ := run_sweptWrite hfull
  have hrun : run step start (twoWrites full ++ sweptWrite) = some s := by
    rw [run_append, run_twoWrites hfull, Option.bind_some, hswept]
  have horderly := h _ s hrun (twoWrites full ++ sweptWrite) [] s (List.append_nil _).symm hrun
  have hsublist := (horderly.order 2).map Line.number
  rw [hreading, hlog] at hsublist
  revert hsublist
  decide

end AnyConverter.LogSegments
