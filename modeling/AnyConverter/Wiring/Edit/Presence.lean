import Mathlib.Data.List.Flatten
import AnyConverter.Wiring.Edit.Jsonc
import AnyConverter.Wiring.Edit.Dotenv

/-!
# What a deletion leaves alone

A deletion gives the same text back exactly if it finds none of its keys: whatever it removes makes
the text shorter.

* `JsonEdit.parseDocument_spanned`: the spans of a parsed document stand in order inside the text;
* `JsonEdit.delPath_cases`, `JsonEdit.del_same_iff`: the JSON editor;
* `EnvEdit.del_same_iff`: the dotenv editor.
-/

set_option autoImplicit false

namespace AnyConverter

theorem splice_shorter {text : List Char} {start stop : Nat} {replacement : List Char}
    (hroom : start + replacement.length < stop) (hstop : stop ≤ text.length) :
    (splice text start stop replacement).length < text.length := by
  have hlength := length_splice (show start ≤ stop by omega) hstop replacement
  omega

namespace JsonEdit

/-! ## Spans in order -/

mutual

/-- The members of an object stand inside its braces. -/
def Node.Spanned : Node → Prop
  | .object start stop members => start + 1 < stop ∧ Member.Spanned (start + 1) stop members
  | .array start stop => start < stop
  | .scalar start stop => start < stop

/-- The members follow one another between two places. -/
def Member.Spanned : Nat → Nat → List Member → Prop
  | lo, hi, [] => lo < hi
  | lo, hi, .mk _ keyStart value :: members =>
    lo ≤ keyStart ∧ keyStart + 3 ≤ value.start ∧ value.Spanned ∧
      Member.Spanned value.stop hi members

end

/-- The second cursor stands further on in the same text. -/
def Cursor.Reaches (c c' : Cursor) : Prop :=
  c.pos ≤ c'.pos ∧ c'.pos + c'.rest.length = c.pos + c.rest.length

theorem Cursor.Reaches.refl (c : Cursor) : c.Reaches c := ⟨Nat.le_refl _, rfl⟩

theorem Cursor.Reaches.trans {a b c : Cursor} (h : a.Reaches b) (h' : b.Reaches c) :
    a.Reaches c :=
  ⟨Nat.le_trans h.1 h'.1, h'.2.trans h.2⟩

theorem Cursor.reaches_advance {c : Cursor} {n : Nat} (h : n ≤ c.rest.length) :
    c.Reaches (c.advance n) := by
  refine ⟨Nat.le_add_right _ _, ?_⟩
  simp only [Cursor.advance, List.length_drop]
  omega

theorem triviaLength_le (eager : Bool) (mode : TriviaMode) (cs : List Char) :
    triviaLength eager mode cs ≤ cs.length := by
  fun_induction triviaLength eager mode cs <;> grind

theorem reaches_skipTrivia (c : Cursor) : c.Reaches (skipTrivia c) :=
  Cursor.reaches_advance (triviaLength_le _ _ _)

theorem reaches_skipComma (c : Cursor) : c.Reaches (skipComma c) := by
  unfold skipComma
  split
  · rename_i hcomma
    apply Cursor.reaches_advance
    cases hrest : c.rest with
    | nil => simp [hrest] at hcomma
    | cons _ _ => simp
  · exact Cursor.Reaches.refl c

theorem stringLength_le {escaped : Bool} {cs : List Char} {n : Nat}
    (h : stringLength escaped cs = some n) : 1 ≤ n ∧ n ≤ cs.length := by
  induction cs generalizing escaped n with
  | nil => cases escaped <;> cases h
  | cons c cs ih =>
    have hone : ∀ {escaped : Bool}, (stringLength escaped cs).map (· + 1) = some n →
        1 ≤ n ∧ n ≤ (c :: cs).length := by
      intro escaped hmap
      obtain ⟨m, hm, rfl⟩ := Option.map_eq_some_iff.mp hmap
      have := ih hm
      simp only [List.length_cons]
      omega
    cases escaped with
    | true => exact hone h
    | false =>
      unfold stringLength at h
      split at h
      · exact hone h
      · split at h
        · cases h
          simp
        · exact hone h

theorem scalarLength_le (cs : List Char) : scalarLength cs ≤ cs.length :=
  (List.takeWhile_sublist _).length_le

section
variable (codec : JsonCodec) (fuel : Nat)

/-- A value stands where its reader found it, in order, and the reader stops behind it. -/
def ValueSpans : Prop :=
  ∀ c node after, parseValue codec fuel c = .ok (node, after) →
    c.Reaches after ∧ c.pos ≤ node.start ∧ node.stop = after.pos ∧ node.Spanned

def MembersSpans : Prop :=
  ∀ c members after, parseMembers codec fuel c = .ok (members, after) →
    c.Reaches after ∧ c.pos < after.pos ∧ Member.Spanned c.pos after.pos members

def ItemsSpans : Prop :=
  ∀ c after, parseItems codec fuel c = .ok after → c.Reaches after ∧ c.pos < after.pos

end

theorem Node.spanned_lt {node : Node} (h : node.Spanned) : node.start < node.stop := by
  cases node with
  | object start stop members => exact Nat.lt_of_succ_lt h.1
  | array start stop => exact h
  | scalar start stop => exact h

theorem Member.spanned_mono {lo lo' hi : Nat} {members : List Member} (hlo : lo' ≤ lo)
    (h : Member.Spanned lo hi members) : Member.Spanned lo' hi members := by
  cases members with
  | nil =>
    unfold Member.Spanned at h ⊢
    omega
  | cons member members =>
    cases member
    unfold Member.Spanned at h ⊢
    exact ⟨by omega, h.2⟩

theorem valueSpans_succ {codec : JsonCodec} {fuel : Nat} (hmembers : MembersSpans codec fuel)
    (hitems : ItemsSpans codec fuel) : ValueSpans codec (fuel + 1) := by
  intro c node after h
  have hskip := reaches_skipTrivia c
  unfold parseValue at h
  dsimp only at h
  split at h
  · cases h
  · -- an object
    rename_i rest hrest
    have hopen : (skipTrivia c).Reaches ((skipTrivia c).advance 1) :=
      Cursor.reaches_advance (by simp [hrest])
    obtain ⟨⟨members, done⟩, hparse, hdone⟩ := of_bind_ok h
    cases hdone
    obtain ⟨hreach, hlt, hspanned⟩ := hmembers _ _ _ hparse
    exact ⟨(hskip.trans hopen).trans hreach, hskip.1, rfl, hlt, hspanned⟩
  · -- an array
    rename_i rest hrest
    have hopen : (skipTrivia c).Reaches ((skipTrivia c).advance 1) :=
      Cursor.reaches_advance (by simp [hrest])
    obtain ⟨done, hparse, hdone⟩ := of_bind_ok h
    cases hdone
    obtain ⟨hreach, hlater⟩ := hitems _ _ hparse
    exact ⟨(hskip.trans hopen).trans hreach, hskip.1, rfl, Nat.lt_of_le_of_lt hopen.1 hlater⟩
  · -- a string
    rename_i rest hrest
    split at h
    · rename_i n hlength
      cases h
      have hle := stringLength_le hlength
      have hreach : (skipTrivia c).Reaches ((skipTrivia c).advance (1 + n)) :=
        Cursor.reaches_advance (by simp only [hrest, List.length_cons]; omega)
      refine ⟨hskip.trans hreach, hskip.1, Nat.add_assoc _ _ _, ?_⟩
      show (skipTrivia c).pos < (skipTrivia c).pos + 1 + n
      omega
    · cases h
  · split at h
    · cases h
    · rename_i hsome
      cases h
      have hreach : (skipTrivia c).Reaches ((skipTrivia c).advance (scalarLength (skipTrivia c).rest)) :=
        Cursor.reaches_advance (scalarLength_le _)
      exact ⟨hskip.trans hreach, hskip.1, rfl,
        Nat.lt_add_of_pos_right (Nat.pos_of_ne_zero hsome)⟩

theorem membersSpans_succ {codec : JsonCodec} {fuel : Nat} (hvalue : ValueSpans codec fuel)
    (hmembers : MembersSpans codec fuel) : MembersSpans codec (fuel + 1) := by
  intro c members after h
  have hskip := reaches_skipTrivia c
  unfold parseMembers at h
  dsimp only at h
  split at h
  · cases h
  · -- the closing brace
    rename_i rest hrest
    cases h
    have hclose : (skipTrivia c).Reaches ((skipTrivia c).advance 1) :=
      Cursor.reaches_advance (by simp [hrest])
    refine ⟨hskip.trans hclose, Nat.lt_succ_of_le hskip.1, ?_⟩
    unfold Member.Spanned
    exact Nat.lt_succ_of_le hskip.1
  · rename_i rest hrest
    have hcomma : (skipTrivia c).Reaches ((skipTrivia c).advance 1) :=
      Cursor.reaches_advance (by simp [hrest])
    obtain ⟨hreach, hlt, hspanned⟩ := hmembers _ _ _ h
    have hfirst := hskip.trans hcomma
    exact ⟨hfirst.trans hreach, Nat.lt_of_le_of_lt hfirst.1 hlt,
      Member.spanned_mono hfirst.1 hspanned⟩
  · -- a member
    rename_i rest hrest
    split at h
    · cases h
    · rename_i n hlength
      split at h
      · cases h
      · rename_i key hkey
        split at h
        · rename_i colonRest hcolon
          obtain ⟨⟨value, behind⟩, hparse, h⟩ := of_bind_ok h
          obtain ⟨⟨others, done⟩, hothers, hdone⟩ := of_bind_ok h
          cases hdone
          have hle := stringLength_le hlength
          have hkeyEnd : (skipTrivia c).Reaches ((skipTrivia c).advance (1 + n)) :=
            Cursor.reaches_advance (by simp only [hrest, List.length_cons]; omega)
          have hcolonStart := reaches_skipTrivia ((skipTrivia c).advance (1 + n))
          have hcolonEnd := Cursor.reaches_advance (c := skipTrivia ((skipTrivia c).advance (1 + n)))
            (n := 1) (by simp [hcolon])
          obtain ⟨hreach, hstart, hstop, hspanned⟩ := hvalue _ _ _ hparse
          have hgap := (reaches_skipTrivia behind).trans (reaches_skipComma _)
          obtain ⟨hrestReach, hlt, hrestSpanned⟩ := hmembers _ _ _ hothers
          have hbefore := ((hskip.trans hkeyEnd).trans hcolonStart).trans hcolonEnd
          have hall := ((hbefore.trans hreach).trans hgap)
          refine ⟨hall.trans hrestReach, Nat.lt_of_le_of_lt hall.1 hlt, ?_⟩
          have hcolonPos := hcolonStart.1
          simp only [Cursor.advance] at hcolonPos hstart
          unfold Member.Spanned
          dsimp only
          refine ⟨hskip.1, by omega, hspanned, ?_⟩
          rw [hstop]
          exact Member.spanned_mono hgap.1 hrestSpanned
        · cases h
  · cases h

theorem itemsSpans_succ {codec : JsonCodec} {fuel : Nat} (hvalue : ValueSpans codec fuel)
    (hitems : ItemsSpans codec fuel) : ItemsSpans codec (fuel + 1) := by
  intro c after h
  have hskip := reaches_skipTrivia c
  unfold parseItems at h
  dsimp only at h
  split at h
  · cases h
  · rename_i rest hrest
    cases h
    have hclose : (skipTrivia c).Reaches ((skipTrivia c).advance 1) :=
      Cursor.reaches_advance (by simp [hrest])
    exact ⟨hskip.trans hclose, Nat.lt_succ_of_le hskip.1⟩
  · rename_i rest hrest
    have hcomma : (skipTrivia c).Reaches ((skipTrivia c).advance 1) :=
      Cursor.reaches_advance (by simp [hrest])
    obtain ⟨hreach, hlater⟩ := hitems _ _ h
    have hfirst := hskip.trans hcomma
    exact ⟨hfirst.trans hreach, Nat.lt_of_le_of_lt hfirst.1 hlater⟩
  · obtain ⟨⟨value, behind⟩, hparse, h⟩ := of_bind_ok h
    obtain ⟨hreach, -⟩ := hvalue _ _ _ hparse
    have hgap := (reaches_skipTrivia behind).trans (reaches_skipComma _)
    obtain ⟨hrestReach, hlater⟩ := hitems _ _ h
    have hfirst := (hskip.trans hreach).trans hgap
    exact ⟨hfirst.trans hrestReach, Nat.lt_of_le_of_lt hfirst.1 hlater⟩

theorem parse_spans (codec : JsonCodec) (fuel : Nat) :
    ValueSpans codec fuel ∧ MembersSpans codec fuel ∧ ItemsSpans codec fuel := by
  induction fuel with
  | zero =>
    refine ⟨?_, ?_, ?_⟩
    · intro c node after h
      cases h
    · intro c members after h
      cases h
    · intro c after h
      cases h
  | succ fuel ih =>
    obtain ⟨hvalue, hmembers, hitems⟩ := ih
    exact ⟨valueSpans_succ hmembers hitems, membersSpans_succ hvalue hmembers,
      itemsSpans_succ hvalue hitems⟩

/-- **The spans of a document that parses stand in order inside its text.** -/
theorem parseDocument_spanned {codec : JsonCodec} {text : List Char} {root : Node}
    (h : parseDocument codec text = .ok root) :
    root.stop ≤ text.length ∧ root.Spanned := by
  unfold parseDocument at h
  dsimp only at h
  split at h
  · cases h
  · obtain ⟨⟨node, after⟩, hparse, h⟩ := of_bind_ok h
    dsimp only at h
    split at h
    · cases h
    · cases h
      obtain ⟨hreach, -, hstop, hspanned⟩ := (parse_spans codec _).1 _ _ _ hparse
      have htotal := ((reaches_skipTrivia ⟨0, text⟩).trans hreach).2
      simp only at htotal
      exact ⟨by omega, hspanned⟩

/-! ## Deleting a member -/

theorem Member.spanned_lt {lo hi : Nat} {members : List Member}
    (h : Member.Spanned lo hi members) : lo < hi := by
  induction members generalizing lo with
  | nil => exact h
  | cons member members ih =>
    cases member with
    | mk key keyStart value =>
      unfold Member.Spanned at h
      obtain ⟨hlo, hkey, hvalue, hrest⟩ := h
      have hlt := Node.spanned_lt hvalue
      have hstop := ih hrest
      omega

/-- One member of several, and the one behind it. -/
theorem Member.spanned_getElem {lo hi : Nat} {members : List Member}
    (h : Member.Spanned lo hi members) {i : Nat} {member : Member}
    (hmember : members[i]? = some member) :
    lo ≤ member.keyStart ∧ member.keyStart + 3 ≤ member.value.start ∧ member.value.Spanned ∧
      member.value.stop < hi ∧
      ∀ next, members[i + 1]? = some next → member.value.stop ≤ next.keyStart := by
  induction members generalizing lo i with
  | nil => cases hmember
  | cons first members ih =>
    cases first with
    | mk key keyStart value =>
      unfold Member.Spanned at h
      obtain ⟨hlo, hkey, hvalue, hrest⟩ := h
      have hlt := Node.spanned_lt hvalue
      cases i with
      | zero =>
        cases hmember
        refine ⟨hlo, hkey, hvalue, Member.spanned_lt hrest, ?_⟩
        intro next hnext
        cases members with
        | nil => cases hnext
        | cons second members =>
          cases hnext
          cases next
          unfold Member.Spanned at hrest
          exact hrest.1
      | succ i =>
        obtain ⟨hlo', hrest'⟩ := ih hrest (i := i) (by simpa using hmember)
        refine ⟨by omega, ?_⟩
        simpa using hrest'

theorem lineStart_le (text : List Char) (pos : Nat) : lineStart text pos ≤ pos :=
  Nat.sub_le _ _

/-- One character more, where it stands. -/
theorem past_le {text : List Char} {pos : Nat} (c : Char) (h : pos ≤ text.length) :
    pos ≤ (if text[pos]? = some c then pos + 1 else pos) ∧
      (if text[pos]? = some c then pos + 1 else pos) ≤ text.length := by
  split
  · rename_i hget
    have hlt := (List.getElem?_eq_some_iff.mp hget).1
    omega
  · omega

theorem memberTailEnd_blockLength_le (cs : List Char) :
    memberTailEnd.blockLength cs ≤ cs.length := by
  fun_induction memberTailEnd.blockLength cs <;> grind

theorem memberTailEnd_le {text : List Char} {pos : Nat} (h : pos ≤ text.length) :
    pos ≤ memberTailEnd text pos ∧ memberTailEnd text pos ≤ text.length := by
  have hblanks : ∀ p ≤ text.length,
      p + ((text.drop p).takeWhile isBlank).length ≤ text.length := by
    intro p hp
    have hle : ((text.drop p).takeWhile isBlank).length ≤ (text.drop p).length :=
      (List.takeWhile_sublist _).length_le
    rw [List.length_drop] at hle
    omega
  unfold memberTailEnd
  dsimp only
  have h1 := hblanks pos h
  have h2 := past_le ',' h1
  have h3 := hblanks _ h2.2
  split
  · rename_i cs hcs
    have hdrop := congrArg List.length hcs
    have hcomment : (cs.takeWhile (· ≠ '\n')).length ≤ cs.length :=
      (List.takeWhile_sublist _).length_le
    simp only [List.length_drop, List.length_cons] at hdrop
    omega
  · rename_i cs hcs
    have hdrop := congrArg List.length hcs
    have hcomment := memberTailEnd_blockLength_le cs
    simp only [List.length_drop, List.length_cons] at hdrop
    omega
  · omega

theorem extendLineEnd_le {text : List Char} {pos : Nat} (h : pos ≤ text.length) :
    pos ≤ extendLineEnd text pos ∧ extendLineEnd text pos ≤ text.length := by
  unfold extendLineEnd
  dsimp only
  have h1 := past_le '\r' h
  have h2 := past_le '\n' h1.2
  omega

theorem ownLine_le {text : List Char} {start line : Nat} {member : Member}
    (h : ownLine text start member = some line) : line ≤ member.keyStart := by
  unfold ownLine at h
  dsimp only at h
  split at h
  · cases h
    exact lineStart_le _ _
  · cases h

theorem removeOnly_shorter {text : List Char} {start stop : Nat} {member : Member}
    (hstart : start + 1 ≤ member.keyStart) (hkey : member.keyStart + 3 ≤ member.value.start)
    (hvalue : member.value.start < member.value.stop) (hinside : member.value.stop < stop)
    (hstop : stop ≤ text.length) : (removeOnly text start stop member).length < text.length := by
  have htail := memberTailEnd_le (show member.value.stop ≤ text.length by omega)
  have hline := extendLineEnd_le htail.2
  have hfrom : (ownLine text start member).getD member.keyStart ≤ member.keyStart := by
    cases hown : ownLine text start member with
    | none => exact Nat.le_refl _
    | some line => exact ownLine_le hown
  unfold removeOnly
  dsimp only
  split
  · apply splice_shorter
    · show start + 2 < stop
      omega
    · exact hstop
  · split
    · apply splice_shorter
      · rw [List.length_nil]
        omega
      · exact hline.2
    · apply splice_shorter
      · rw [List.length_nil]
        omega
      · exact htail.2

theorem removeBefore_shorter {text : List Char} {start : Nat} {member next : Member}
    (hkey : member.keyStart + 3 ≤ member.value.start)
    (hvalue : member.value.start < member.value.stop)
    (hnext : member.value.stop ≤ next.keyStart) (hinside : next.keyStart ≤ text.length) :
    (removeBefore text start member next).length < text.length := by
  have htail := memberTailEnd_le (show member.value.stop ≤ text.length by omega)
  have hline := extendLineEnd_le htail.2
  unfold removeBefore
  split
  · rename_i line hown
    have hfrom := ownLine_le hown
    apply splice_shorter
    · rw [List.length_nil]
      omega
    · exact hline.2
  · apply splice_shorter
    · rw [List.length_nil]
      omega
    · exact hinside

theorem removeLast_shorter {text : List Char} {previous member : Member}
    (hprevious : previous.value.stop ≤ member.keyStart)
    (hkey : member.keyStart + 3 ≤ member.value.start)
    (hvalue : member.value.start < member.value.stop) (hinside : member.value.stop ≤ text.length) :
    (removeLast text previous member).length < text.length := by
  have htail := memberTailEnd_le hinside
  -- a comma that is written again is shorter than the member
  have hremoved := length_splice
    (show previous.value.stop ≤ memberTailEnd text member.value.stop by omega) htail.2 []
  rw [List.length_nil] at hremoved
  unfold removeLast
  dsimp only
  split
  · have hcomma := length_splice (Nat.le_refl previous.value.stop)
      (show previous.value.stop ≤
        (splice text previous.value.stop (memberTailEnd text member.value.stop) []).length by omega)
      [',']
    rw [List.length_singleton] at hcomma
    omega
  · omega

theorem removeMember_shorter {text : List Char} {start stop : Nat} {members : List Member}
    (hspanned : Member.Spanned (start + 1) stop members) (hstop : stop ≤ text.length)
    {index : Nat} (hindex : index < members.length) :
    (removeMember text start stop members index).length < text.length := by
  obtain ⟨member, hmember⟩ : ∃ member, members[index]? = some member :=
    ⟨_, List.getElem?_eq_getElem hindex⟩
  obtain ⟨hstart, hkey, hvalue, hinside, hnext⟩ := Member.spanned_getElem hspanned hmember
  have hlt := Node.spanned_lt hvalue
  unfold removeMember
  simp only [hmember]
  split
  · exact removeOnly_shorter hstart hkey hlt hinside hstop
  · rename_i hmany
    split
    · rename_i next hget
      obtain ⟨-, hnextKey, hnextValue, hnextInside, -⟩ := Member.spanned_getElem hspanned hget
      have hnextLt := Node.spanned_lt hnextValue
      exact removeBefore_shorter hkey hlt (hnext next hget) (by omega)
    · rename_i hlast
      rw [List.getElem?_eq_none_iff] at hlast
      obtain ⟨previous, hprevious⟩ : ∃ previous, members[index - 1]? = some previous :=
        ⟨_, List.getElem?_eq_getElem (by omega)⟩
      obtain ⟨-, -, -, -, hbehind⟩ := Member.spanned_getElem hspanned hprevious
      have hthis : members[index - 1 + 1]? = some member := by
        rw [show index - 1 + 1 = index by omega]
        exact hmember
      simp only [hprevious]
      exact removeLast_shorter (hbehind member hthis) hkey hlt (by omega)

/-- Whether the members of a node hold a value at a path. -/
def Node.holds : Node → List String → Bool
  | .object _ _ members, [key] => members.any fun m => m.key = key
  | .object _ _ members, key :: next :: tail =>
    match members.find? fun m => m.key = key with
    | some member => holds member.value (next :: tail)
    | none => false
  | _, _ => false

/-- **A deletion finds its key and makes the text shorter, or leaves it.** -/
theorem delPath_cases {text : List Char} {path : List String} {node : Node}
    (hspanned : node.Spanned) (hstop : node.stop ≤ text.length) :
    (node.holds path = true ∧ (delPath text node path).length < text.length) ∨
      (node.holds path = false ∧ delPath text node path = text) := by
  induction path generalizing node with
  | nil =>
    right
    cases node <;> exact ⟨rfl, rfl⟩
  | cons key path ih =>
    cases node with
    | array start stop =>
      right
      cases path <;> exact ⟨rfl, rfl⟩
    | scalar start stop =>
      right
      cases path <;> exact ⟨rfl, rfl⟩
    | object start stop members =>
      cases path with
      | nil =>
        unfold Node.holds delPath
        cases hfind : members.findIdx? fun m => m.key = key with
        | none =>
          right
          refine ⟨?_, rfl⟩
          rw [List.findIdx?_eq_none_iff] at hfind
          simpa using hfind
        | some index =>
          left
          obtain ⟨hindex, hkey, -⟩ := List.findIdx?_eq_some_iff_getElem.mp hfind
          refine ⟨?_, removeMember_shorter hspanned.2 hstop hindex⟩
          exact List.any_eq_true.mpr ⟨_, List.getElem_mem hindex, hkey⟩
      | cons next tail =>
        unfold Node.holds delPath
        cases hfind : members.find? fun m => m.key = key with
        | none => exact Or.inr ⟨rfl, rfl⟩
        | some member =>
          obtain ⟨i, hi, hget⟩ := List.getElem_of_mem (List.mem_of_find?_eq_some hfind)
          obtain ⟨-, -, hvalue, hinside, -⟩ :=
            Member.spanned_getElem hspanned.2 (i := i) (List.getElem?_eq_some_iff.mpr ⟨hi, hget⟩)
          exact ih hvalue (Nat.le_trans (Nat.le_of_lt hinside) hstop)

/-- A text of white space and comments. -/
def isBlankText (body : List Char) : Bool := (stripJsonc body).all Text.isWhitespace

/-- Whether a text has a value at a key path. -/
def finds (codec : JsonCodec) (text keyPath : String) : Bool :=
  let body := (splitBom text.toList).2
  !isBlankText body &&
    match parseRoot codec body with
    | .ok root => root.holds (segmentsOf keyPath)
    | .error _ => false

theorem parseRoot_spanned {codec : JsonCodec} {text : List Char} {root : Node}
    (h : parseRoot codec text = .ok root) : root.stop ≤ text.length ∧ root.Spanned := by
  unfold parseRoot at h
  obtain ⟨node, hparse, h⟩ := of_bind_ok h
  cases node with
  | object start stop members =>
    cases h
    exact parseDocument_spanned hparse
  | array start stop => cases h
  | scalar start stop => cases h

/-- One key: it was there and the text is shorter, or it was not and the text is the same. -/
theorem delOne_cases {codec : JsonCodec} {text text' : List Char} {keyPath : String}
    (h : delOne codec text keyPath = .ok text') :
    ∃ root, parseRoot codec text = .ok root ∧
      ((root.holds (segmentsOf keyPath) = true ∧ text'.length < text.length) ∨
        (root.holds (segmentsOf keyPath) = false ∧ text' = text)) := by
  unfold delOne at h
  obtain ⟨_, -, h⟩ := of_bind_ok h
  dsimp only at h
  split at h
  · cases h
  · obtain ⟨root, hroot, h⟩ := of_bind_ok h
    cases h
    obtain ⟨hstop, hspanned⟩ := parseRoot_spanned hroot
    exact ⟨root, hroot, delPath_cases hspanned hstop⟩

theorem delAll_cases {codec : JsonCodec} {keys : List String} {text text' : List Char}
    (h : keys.foldlM (delOne codec) text = .ok text') :
    ((∃ key ∈ keys, ∃ root, parseRoot codec text = .ok root ∧
        root.holds (segmentsOf key) = true) ∧ text'.length < text.length) ∨
      ((∀ key ∈ keys, ∃ root, parseRoot codec text = .ok root ∧
        root.holds (segmentsOf key) = false) ∧ text' = text) := by
  induction keys generalizing text with
  | nil =>
    cases h
    exact Or.inr ⟨fun key hkey => absurd hkey List.not_mem_nil, rfl⟩
  | cons key keys ih =>
    rw [List.foldlM_cons] at h
    obtain ⟨next, hone, hmore⟩ := of_bind_ok h
    obtain ⟨root, hroot, hcases⟩ := delOne_cases hone
    rcases hcases with ⟨hholds, hshorter⟩ | ⟨hholds, rfl⟩
    · left
      refine ⟨⟨key, List.mem_cons_self, root, hroot, hholds⟩, ?_⟩
      rcases ih hmore with ⟨-, hmoreShorter⟩ | ⟨-, rfl⟩
      · exact Nat.lt_trans hmoreShorter hshorter
      · exact hshorter
    · rcases ih hmore with ⟨⟨other, hother, hfound⟩, hshorter⟩ | ⟨hnone, hsame⟩
      · exact Or.inl ⟨⟨other, List.mem_cons_of_mem _ hother, hfound⟩, hshorter⟩
      · right
        refine ⟨?_, hsame⟩
        intro other hother
        rcases List.mem_cons.mp hother with rfl | hin
        · exact ⟨root, hroot, hholds⟩
        · exact hnone other hin

/-- A set of nothing gives the text back. -/
theorem set_nil {codec : JsonCodec} {text text' : String} (h : set codec text [] = .ok text') :
    text' = text := by
  unfold set at h
  dsimp only [List.isEmpty_nil] at h
  rw [if_pos rfl] at h
  obtain ⟨_, -, h⟩ := of_bind_ok h
  cases h
  rfl

/-- **A deletion that went through gives the text back exactly if it found none of its keys.** -/
theorem del_same_iff {codec : JsonCodec} {text text' : String} {keys : List String}
    (h : del codec text keys = .ok text') :
    text' = text ↔ ∀ key ∈ keys, finds codec text key = false := by
  unfold del at h
  dsimp only at h
  have happend := splitBom_append text.toList
  by_cases hblank : isBlankText (splitBom text.toList).2 = true
  · have hsame : text = text' := by
      unfold isBlankText at hblank
      rw [if_pos hblank] at h
      cases h
      rfl
    refine ⟨fun _ key _ => ?_, fun _ => hsame.symm⟩
    unfold finds
    simp [hblank]
  · unfold isBlankText at hblank
    rw [if_neg hblank] at h
    obtain ⟨_, -, h⟩ := of_bind_ok h
    obtain ⟨body', hall, h⟩ := of_bind_ok h
    cases h
    have hlist : String.ofList ((splitBom text.toList).1 ++ body') = text ↔
        body' = (splitBom text.toList).2 := by
      constructor
      · intro heq
        have htext := congrArg String.toList heq
        rw [String.toList_ofList] at htext
        exact List.append_cancel_left (htext.trans happend.symm)
      · rintro rfl
        rw [happend, String.ofList_toList]
    have hfinds : ∀ {key : String} {root : Node},
        parseRoot codec (splitBom text.toList).2 = .ok root →
        finds codec text key = root.holds (segmentsOf key) := by
      intro key root hroot
      unfold finds isBlankText
      simp [hblank, hroot]
    rw [hlist]
    rcases delAll_cases hall with ⟨⟨key, hkey, root, hroot, hholds⟩, hshorter⟩ | ⟨hnone, rfl⟩
    · constructor
      · rintro rfl
        exact absurd hshorter (Nat.lt_irrefl _)
      · intro hall
        have := hall key hkey
        rw [hfinds hroot, hholds] at this
        cases this
    · refine ⟨fun _ key hkey => ?_, fun _ => rfl⟩
      obtain ⟨root, hroot, hholds⟩ := hnone key hkey
      rw [hfinds hroot, hholds]

end JsonEdit

/-! ## Variables -/

namespace EnvEdit

/-- Lines that are filtered out make the text shorter. -/
theorem filter_flatten_eq {keep : List Char → Bool} {lines : List (List Char)}
    (hne : ∀ line ∈ lines, line ≠ []) :
    (lines.filter keep).flatten = lines.flatten ↔ ∀ line ∈ lines, keep line = true := by
  constructor
  · intro heq line hline
    by_contra hdrop
    obtain ⟨before, behind, rfl⟩ := List.append_of_mem hline
    have hpos : 0 < line.length := List.length_pos_iff.mpr (hne line hline)
    have hbefore :=
      (List.Sublist.flatten (List.filter_sublist : (before.filter keep).Sublist before)).length_le
    have hbehind :=
      (List.Sublist.flatten (List.filter_sublist : (behind.filter keep).Sublist behind)).length_le
    have hlength := congrArg List.length heq
    rw [List.filter_append, List.filter_cons, if_neg hdrop] at hlength
    simp only [List.flatten_append, List.flatten_cons, List.length_append] at hlength
    omega
  · intro hkeep
    rw [List.filter_eq_self.mpr hkeep]

theorem set_nil (codec : JsonCodec) (text : String) : set codec text [] = text := by
  unfold set
  dsimp only [List.foldl_nil]
  rw [Text.splitInclusive_flatten, splitBom_append, String.ofList_toList]

/-- **A deletion gives the text back exactly if no line assigns one of the variables.** -/
theorem del_same_iff (text : String) (keys : List String) :
    del text keys = text ↔
      ∀ line ∈ Text.splitInclusive (splitBom text.toList).2, assigns keys line = false := by
  have happend := splitBom_append text.toList
  have hlines := Text.splitInclusive_flatten (splitBom text.toList).2
  have hiff := @filter_flatten_eq (fun line => !assigns keys line)
    (Text.splitInclusive (splitBom text.toList).2)
    fun line hline => Text.splitInclusive_ne_nil hline
  rw [hlines] at hiff
  unfold del
  dsimp only
  constructor
  · intro heq
    have htext := congrArg String.toList heq
    rw [String.toList_ofList] at htext
    have hbody := List.append_cancel_left (htext.trans happend.symm)
    intro line hline
    simpa using hiff.mp hbody line hline
  · intro hnone
    rw [hiff.mpr fun line hline => by simpa using hnone line hline, happend, String.ofList_toList]

end EnvEdit

end AnyConverter
