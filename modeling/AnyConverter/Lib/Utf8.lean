import AnyConverter.Lib.Transducer

/-!
# Lossy UTF-8 decoding

`String::from_utf8_lossy` as a machine that takes one byte at a time: between characters it holds
nothing, inside one it holds what the next byte may be.  A sequence that stops being UTF-8 is
answered with one replacement character, and the byte that broke it is read afresh.

* `decodeFrom_append`: decoding goes on where the bytes before left the machine;
* `pieces_eq`: pieces none of which begins inside a character decode to the text of the whole;
* `pieces_lt`: any other pieces hold more replacement characters than the whole;
* `decode_encode`: a text is read back from its bytes.
-/

set_option autoImplicit false

namespace Utf8

open Transducer

/-- Stands for what is no UTF-8. -/
def replacement : Char := Char.ofNat 0xFFFD

/-- A character that has begun: the continuation bytes it still needs, the range of the next one
and the bits read so far. -/
structure Pending where
  need : Nat
  low : Nat
  high : Nat
  code : Nat
  low_ge : 0x80 ≤ low
  high_le : high ≤ 0xBF

/-- A character that needs `need` more bytes of the full range. -/
def Pending.tail (need code : Nat) : Pending := ⟨need, 0x80, 0xBF, code, by decide, by decide⟩

/-- The first byte of a character of several. -/
def lead (b : Nat) : Option Pending :=
  if 0xC2 ≤ b ∧ b ≤ 0xDF then some (.tail 1 (b - 0xC0))
  else if b = 0xE0 then some ⟨2, 0xA0, 0xBF, 0, by decide, by decide⟩
  else if b = 0xED then some ⟨2, 0x80, 0x9F, 0xD, by decide, by decide⟩
  else if 0xE1 ≤ b ∧ b ≤ 0xEF then some (.tail 2 (b - 0xE0))
  else if b = 0xF0 then some ⟨3, 0x90, 0xBF, 0, by decide, by decide⟩
  else if 0xF1 ≤ b ∧ b ≤ 0xF3 then some (.tail 3 (b - 0xF0))
  else if b = 0xF4 then some ⟨3, 0x80, 0x8F, 4, by decide, by decide⟩
  else none

/-- A byte between two characters. -/
def start (b : Nat) : List Char × Option Pending :=
  if b < 0x80 then ([Char.ofNat b], none)
  else match lead b with
    | some p => ([], some p)
    | none => ([replacement], none)

/-- A byte the character that has begun may go on with. -/
def Pending.Takes (p : Pending) (b : Nat) : Prop := p.low ≤ b ∧ b ≤ p.high

instance (p : Pending) (b : Nat) : Decidable (p.Takes b) := inferInstanceAs (Decidable (_ ∧ _))

/-- The character with one more of its bytes. -/
def Pending.take (p : Pending) (b : Nat) : List Char × Option Pending :=
  let code := p.code * 64 + (b - 0x80)
  if p.need ≤ 1 then ([Char.ofNat code], none) else ([], some (.tail (p.need - 1) code))

def feed : Step (Option Pending) UInt8 Char
  | none, b => start b.toNat
  | some p, b =>
    if p.Takes b.toNat then p.take b.toNat
    else (replacement :: (start b.toNat).1, (start b.toNat).2)

/-- What the end of the bytes makes of a character that has begun. -/
def finish : Option Pending → List Char
  | none => []
  | some _ => [replacement]

/-- The characters of the bytes that follow what has begun. -/
def decodeFrom (p : Option Pending) (bytes : List UInt8) : List Char :=
  outputs feed p bytes ++ finish (final feed p bytes)

def decode (bytes : List UInt8) : List Char := decodeFrom none bytes

/-- `String::from_utf8_lossy`. -/
def fromUtf8Lossy (bytes : List UInt8) : String := String.ofList (decode bytes)

theorem decodeFrom_cons (p : Option Pending) (b : UInt8) (bytes : List UInt8) :
    decodeFrom p (b :: bytes) = (feed p b).1 ++ decodeFrom (feed p b).2 bytes := by
  simp [decodeFrom]

theorem decodeFrom_append (p : Option Pending) (xs ys : List UInt8) :
    decodeFrom p (xs ++ ys) = outputs feed p xs ++ decodeFrom (final feed p xs) ys := by
  simp [decodeFrom, outputs_append, final_append]

/-! ## Pieces -/

/-- The byte goes on with the character that has begun. -/
def Continues : Option Pending → UInt8 → Prop
  | none, _ => False
  | some p, b => p.Takes b.toNat

/-- No piece begins with a byte that goes on with the character the bytes before it end in. -/
def CutsBetweenChars : Option Pending → List (List UInt8) → Prop
  | _, [] => True
  | p, piece :: pieces =>
    (∀ b ∈ piece.head?, ¬ Continues p b) ∧ CutsBetweenChars (final feed p piece) pieces

/-- A byte that does not go on is read as if nothing had begun. -/
theorem feed_of_not_continues {p : Option Pending} {b : UInt8} (h : ¬ Continues p b) :
    feed p b = (finish p ++ (feed none b).1, (feed none b).2) := by
  cases p with
  | none => rfl
  | some p =>
    have hnot : ¬ p.Takes b.toNat := h
    show (if p.Takes b.toNat then _ else _) = _
    rw [if_neg hnot]
    rfl

theorem Pending.take_cases (p : Pending) (b : Nat) :
    (∃ c, p.take b = ([c], none)) ∨ ∃ q, p.take b = ([], some q) := by
  unfold Pending.take
  dsimp only
  split
  · exact Or.inl ⟨_, rfl⟩
  · exact Or.inr ⟨_, rfl⟩

/-- A continuation byte is no character of its own. -/
theorem decode_of_takes {p : Pending} {b : UInt8} (h : p.Takes b.toNat) (bytes : List UInt8) :
    decode (b :: bytes) = replacement :: decode bytes := by
  have hlow : ¬ b.toNat < 0x80 := by
    have := p.low_ge
    have := h.1
    omega
  have hlead : lead b.toNat = none := by
    have := p.high_le
    have := h.2
    unfold lead
    repeat rw [if_neg (by omega)]
  have hstart : feed none b = ([replacement], none) := by
    show start b.toNat = _
    rw [start, if_neg hlow, hlead]
  rw [decode, decodeFrom_cons, hstart]
  rfl

theorem decodeFrom_of_not_continues {p : Option Pending} {b : UInt8} (h : ¬ Continues p b)
    (bytes : List UInt8) : decodeFrom p (b :: bytes) = finish p ++ decode (b :: bytes) := by
  rw [decodeFrom_cons, feed_of_not_continues h, decode, decodeFrom_cons, List.append_assoc]

/-- How many replacement characters a text holds. -/
def losses (text : List Char) : Nat := text.count replacement

@[simp] theorem losses_nil : losses [] = 0 := rfl

@[simp] theorem losses_append (s t : List Char) : losses (s ++ t) = losses s + losses t :=
  List.count_append

theorem losses_singleton_le (c : Char) : losses [c] ≤ 1 := List.count_le_length

@[simp] theorem losses_finish_some (p : Pending) : losses (finish (some p)) = 1 := by
  simp [losses, finish]

@[simp] theorem losses_replacement_cons (text : List Char) :
    losses (replacement :: text) = losses text + 1 := List.count_cons_self

/-- A character that has begun costs one replacement character at most. -/
theorem losses_decodeFrom_le (p : Pending) (bytes : List UInt8) :
    losses (decodeFrom (some p) bytes) ≤ 1 + losses (decode bytes) := by
  induction bytes generalizing p with
  | nil => exact Nat.le_of_eq (losses_finish_some p)
  | cons b bytes ih =>
    by_cases h : p.Takes b.toNat
    · have hfeed : feed (some p) b = p.take b.toNat := if_pos h
      rw [decodeFrom_cons, hfeed, decode_of_takes h, losses_append, losses_replacement_cons]
      rcases p.take_cases b.toNat with ⟨c, hc⟩ | ⟨q, hq⟩
      · have hle := losses_singleton_le c
        rw [hc]
        show losses [c] + losses (decode bytes) ≤ _
        omega
      · have hle := ih q
        rw [hq]
        show losses [] + losses (decodeFrom (some q) bytes) ≤ _
        rw [losses_nil]
        omega
    · have hnot : ¬ Continues (some p) b := h
      have hlosses : losses (decodeFrom (some p) (b :: bytes)) = 1 + losses (decode (b :: bytes)) := by
        rw [decodeFrom_of_not_continues hnot, losses_append, losses_finish_some]
      exact Nat.le_of_eq hlosses

/-- Cutting a character in two costs more. -/
theorem losses_decodeFrom_lt {p : Pending} {b : UInt8} (h : p.Takes b.toNat)
    (bytes : List UInt8) :
    losses (decodeFrom (some p) (b :: bytes)) < 1 + losses (decode (b :: bytes)) := by
  have hfeed : feed (some p) b = p.take b.toNat := if_pos h
  rw [decodeFrom_cons, hfeed, decode_of_takes h, losses_append, losses_replacement_cons]
  rcases p.take_cases b.toNat with ⟨c, hc⟩ | ⟨q, hq⟩
  · have hle := losses_singleton_le c
    rw [hc]
    show losses [c] + losses (decode bytes) < _
    omega
  · have hle := losses_decodeFrom_le q bytes
    rw [hq]
    show losses [] + losses (decodeFrom (some q) bytes) < _
    rw [losses_nil]
    omega

theorem losses_decodeFrom_le_finish (p : Option Pending) (bytes : List UInt8) :
    losses (decodeFrom p bytes) ≤ losses (finish p) + losses (decode bytes) := by
  cases p with
  | none => exact Nat.le_of_eq (Nat.zero_add _).symm
  | some p =>
    rw [losses_finish_some]
    exact losses_decodeFrom_le p bytes

theorem decode_append (xs ys : List UInt8) :
    decode (xs ++ ys) = outputs feed none xs ++ decodeFrom (final feed none xs) ys :=
  decodeFrom_append none xs ys

theorem losses_decode_append (xs ys : List UInt8) : losses (decode (xs ++ ys)) =
    losses (outputs feed none xs) + losses (decodeFrom (final feed none xs) ys) := by
  rw [decode_append, losses_append]

theorem losses_decode (xs : List UInt8) : losses (decode xs) =
    losses (outputs feed none xs) + losses (finish (final feed none xs)) :=
  losses_append _ _

/-- Pieces cut between characters decode to the text of the whole. -/
theorem pieces_eq {p : Option Pending} {pieces : List (List UInt8)} (h : CutsBetweenChars p pieces) :
    finish p ++ pieces.flatMap decode = decodeFrom p pieces.flatten := by
  induction pieces generalizing p with
  | nil => simp [decodeFrom]
  | cons piece pieces ih =>
    obtain ⟨hhead, hrest⟩ := h
    have htail := ih hrest
    cases piece with
    | nil => exact htail
    | cons b bytes =>
      have hnot := hhead b rfl
      have hstate : final feed p (b :: bytes) = final feed none (b :: bytes) := by
        rw [final_cons, final_cons, feed_of_not_continues hnot]
      rw [hstate] at htail
      have hpiece : decode (b :: bytes) = outputs feed none (b :: bytes) ++
          finish (final feed none (b :: bytes)) := rfl
      rw [List.flatten_cons, List.cons_append, decodeFrom_of_not_continues hnot,
        ← List.cons_append, decode_append, ← htail, List.flatMap_cons, hpiece, List.append_assoc]

/-- Pieces hold at least the replacement characters of the whole. -/
theorem pieces_le (p : Option Pending) (pieces : List (List UInt8)) :
    losses (decodeFrom p pieces.flatten) ≤ losses (finish p ++ pieces.flatMap decode) := by
  induction pieces generalizing p with
  | nil => simp [decodeFrom]
  | cons piece pieces ih =>
    have hwhole := losses_decodeFrom_le_finish p (piece ++ pieces.flatten)
    have htail := ih (final feed none piece)
    rw [losses_decode_append] at hwhole
    rw [losses_append] at htail
    rw [List.flatten_cons, List.flatMap_cons, losses_append, losses_append, losses_decode piece]
    omega

/-- Pieces cut inside a character hold more. -/
theorem pieces_lt {p : Option Pending} {pieces : List (List UInt8)}
    (h : ¬ CutsBetweenChars p pieces) :
    losses (decodeFrom p pieces.flatten) < losses (finish p ++ pieces.flatMap decode) := by
  induction pieces generalizing p with
  | nil => exact absurd trivial h
  | cons piece pieces ih =>
    rw [CutsBetweenChars, not_and_or] at h
    rw [List.flatten_cons, List.flatMap_cons, losses_append, losses_append]
    cases piece with
    | nil =>
      have hrest : ¬ CutsBetweenChars p pieces := by
        rcases h with hhead | hrest
        · exact absurd (fun b hb => by cases hb) hhead
        · exact hrest
      have hlt := ih hrest
      rw [losses_append] at hlt
      show losses (decodeFrom p pieces.flatten) < losses (finish p) + (losses [] + _)
      rw [losses_nil]
      omega
    | cons b bytes =>
      rw [List.cons_append]
      by_cases hnot : Continues p b
      · cases p with
        | none => cases hnot
        | some p =>
          have hlt := losses_decodeFrom_lt hnot (bytes ++ pieces.flatten)
          have htail := pieces_le (final feed none (b :: bytes)) pieces
          rw [← List.cons_append, losses_decode_append] at hlt
          rw [losses_append] at htail
          rw [losses_finish_some, losses_decode (b :: bytes), ← List.cons_append]
          omega
      · have hstate : final feed p (b :: bytes) = final feed none (b :: bytes) := by
          rw [final_cons, final_cons, feed_of_not_continues hnot]
        have hrest : ¬ CutsBetweenChars (final feed none (b :: bytes)) pieces := by
          rcases h with hhead | hrest
          · exact absurd (fun c hc => by cases hc; exact hnot) hhead
          · rwa [hstate] at hrest
        have hlt := ih hrest
        rw [losses_append] at hlt
        rw [decodeFrom_of_not_continues hnot, losses_append, ← List.cons_append,
          losses_decode_append, losses_decode (b :: bytes)]
        omega

/-! ## Encoded texts -/

theorem toNat_ofNat {n : Nat} (h : n < 256) : (UInt8.ofNat n).toNat = n := by
  rw [UInt8.toNat_ofNat']
  exact Nat.mod_eq_of_lt h

theorem decode_ascii {n : Nat} (h : n < 0x80) (rest : List UInt8) :
    decode (UInt8.ofNat n :: rest) = Char.ofNat n :: decode rest := by
  rw [decode, decodeFrom_cons, feed, toNat_ofNat (by omega), start, if_pos h]
  rfl

theorem decode_lead {n : Nat} {p : Pending} (hn : n < 256) (hlow : 0x80 ≤ n) (h : lead n = some p)
    (rest : List UInt8) : decode (UInt8.ofNat n :: rest) = decodeFrom (some p) rest := by
  rw [decode, decodeFrom_cons, feed, toNat_ofNat hn, start, if_neg (by omega), h]
  rfl

theorem decodeFrom_take {p : Pending} {n : Nat} (h : p.Takes n) (hn : n < 256) (hneed : 1 < p.need)
    (rest : List UInt8) : decodeFrom (some p) (UInt8.ofNat n :: rest) =
      decodeFrom (some (.tail (p.need - 1) (p.code * 64 + (n - 0x80)))) rest := by
  rw [decodeFrom_cons, feed, toNat_ofNat hn, if_pos h, Pending.take, if_neg (by omega)]
  rfl

theorem decodeFrom_last {p : Pending} {n : Nat} (h : p.Takes n) (hn : n < 256) (hneed : p.need ≤ 1)
    (rest : List UInt8) : decodeFrom (some p) (UInt8.ofNat n :: rest) =
      Char.ofNat (p.code * 64 + (n - 0x80)) :: decode rest := by
  rw [decodeFrom_cons, feed, toNat_ofNat hn, if_pos h, Pending.take, if_pos hneed]
  rfl

theorem takes_tail {n : Nat} (hlow : 0x80 ≤ n) (hhigh : n ≤ 0xBF) (need code : Nat) :
    (Pending.tail need code).Takes n := ⟨hlow, hhigh⟩

/-- The first byte of a character of three takes the second. -/
theorem lead_three {v : Nat} (hlow : 0x800 ≤ v) (hhigh : v ≤ 0xFFFF) (hvalid : v < 0xD800 ∨ 0xDFFF < v) :
    ∃ p, lead (v / 4096 % 0x10 + 0xE0) = some p ∧ p.need = 2 ∧ p.code = v / 4096 ∧
      p.Takes (v / 64 % 0x40 + 0x80) := by
  have hlead : 0xE0 ≤ v / 4096 % 0x10 + 0xE0 := by omega
  unfold lead
  rw [if_neg (by omega)]
  split
  · exact ⟨_, rfl, rfl, by simp only; omega, by constructor <;> dsimp only <;> omega⟩
  split
  · exact ⟨_, rfl, rfl, by simp only; omega, by constructor <;> dsimp only <;> omega⟩
  · rw [if_pos (by omega)]
    exact ⟨_, rfl, rfl, by simp only [Pending.tail]; omega, takes_tail (by omega) (by omega) _ _⟩

/-- The first byte of a character of four takes the second. -/
theorem lead_four {v : Nat} (hlow : 0x10000 ≤ v) (hhigh : v ≤ 0x10FFFF) :
    ∃ p, lead (v / 262144 % 0x08 + 0xF0) = some p ∧ p.need = 3 ∧ p.code = v / 262144 ∧
      p.Takes (v / 4096 % 0x40 + 0x80) := by
  unfold lead
  rw [if_neg (by omega), if_neg (by omega), if_neg (by omega), if_neg (by omega)]
  split
  · exact ⟨_, rfl, rfl, by simp only; omega, by constructor <;> dsimp only <;> omega⟩
  split
  · exact ⟨_, rfl, rfl, by simp only [Pending.tail]; omega, takes_tail (by omega) (by omega) _ _⟩
  · rw [if_pos (by omega)]
    exact ⟨_, rfl, rfl, by simp only; omega, by constructor <;> dsimp only <;> omega⟩

/-- A character is read back from its bytes. -/
theorem decode_utf8EncodeChar (c : Char) (rest : List UInt8) :
    decode (String.utf8EncodeChar c ++ rest) = c :: decode rest := by
  have hc : Char.ofNat c.val.toNat = c := Char.ofNat_toNat c
  have hvalid := c.valid
  simp only [UInt32.isValidChar, Nat.isValidChar] at hvalid
  unfold String.utf8EncodeChar
  generalize c.val.toNat = v at hc hvalid
  have hlast : v / 64 * 64 + (v % 0x40 + 0x80 - 0x80) = v := by omega
  have htakes : ∀ n need code, (Pending.tail need code).Takes (n % 0x40 + 0x80) :=
    fun n => takes_tail (by omega) (by omega)
  dsimp only
  split
  · rw [List.cons_append, decode_ascii (by omega), hc]
    rfl
  split
  · have hcode : v / 64 % 0x20 + 0xC0 - 0xC0 = v / 64 := by omega
    rw [List.cons_append, decode_lead (by omega) (by omega) (if_pos (by omega)), hcode,
      List.cons_append, decodeFrom_last (htakes v 1 _) (by omega) (Nat.le_refl 1)]
    exact congrArg₂ _ ((congrArg Char.ofNat hlast).trans hc) rfl
  split
  · obtain ⟨p, hlead, hneed, hcode, hsecond⟩ := lead_three (v := v) (by omega) (by omega) (by omega)
    have hnext : p.code * 64 + (v / 64 % 0x40 + 0x80 - 0x80) = v / 64 := by omega
    rw [List.cons_append, decode_lead (by omega) (by omega) hlead, List.cons_append,
      decodeFrom_take hsecond (by omega) (by omega), hnext, hneed, List.cons_append,
      decodeFrom_last (htakes v (2 - 1) _) (by omega) (by simp [Pending.tail])]
    exact congrArg₂ _ ((congrArg Char.ofNat hlast).trans hc) rfl
  · obtain ⟨p, hlead, hneed, hcode, hsecond⟩ := lead_four (v := v) (by omega) (by omega)
    have hnext : p.code * 64 + (v / 4096 % 0x40 + 0x80 - 0x80) = v / 4096 := by omega
    have hthird : v / 4096 * 64 + (v / 64 % 0x40 + 0x80 - 0x80) = v / 64 := by omega
    rw [List.cons_append, decode_lead (by omega) (by omega) hlead, List.cons_append,
      decodeFrom_take hsecond (by omega) (by omega), hnext, hneed, List.cons_append,
      decodeFrom_take (htakes (v / 64) (3 - 1) _) (by omega) (by simp [Pending.tail])]
    have hnext₂ : Pending.tail ((Pending.tail (3 - 1) (v / 4096)).need - 1)
        ((Pending.tail (3 - 1) (v / 4096)).code * 64 + (v / 64 % 0x40 + 0x80 - 0x80)) =
        .tail 1 (v / 64) := congrArg (Pending.tail 1) hthird
    rw [hnext₂, List.cons_append, decodeFrom_last (htakes v 1 _) (by omega) (Nat.le_refl 1)]
    exact congrArg₂ _ ((congrArg Char.ofNat hlast).trans hc) rfl

/-- **A text is read back from its bytes.** -/
theorem decode_encode (cs : List Char) : decode (cs.flatMap String.utf8EncodeChar) = cs := by
  induction cs with
  | nil => rfl
  | cons c cs ih => rw [List.flatMap_cons, decode_utf8EncodeChar, ih]

end Utf8
