import AnyConverter.Lib.Utf8
import AnyConverter.Server.Proxy

/-!
# Network chunks

The relay decodes an upstream's bytes chunk by chunk and takes the blocks that are complete out of
a buffer; what is left when the stream ends is the last block.

* `handedBlocks_eq`: the blocks are those of the decoded chunks put together;
* `handedBlocks_iff`: they are the blocks of the decoded stream exactly if no chunk begins inside
  a character and no block holds a carriage return;
* `relayBytes_congr`: a stream cut between characters is relayed alike wherever it is cut.
-/

set_option autoImplicit false

namespace AnyConverter

open Transducer
open Utf8 (fromUtf8Lossy CutsBetweenChars)

/-! ## The relay loop -/

theorem length_of_splitOnce {pat s a b : String} (hpat : pat ≠ "")
    (hsplit : Text.splitOnce pat s = some (a, b)) : b.length < s.length := by
  have hpos : 0 < pat.length := Nat.pos_of_ne_zero fun hzero => hpat (String.length_eq_zero_iff.mp hzero)
  rw [Text.splitOnce_eq_some hsplit, String.length_append, String.length_append]
  omega

/-- The blocks a blank line has closed, and the rest of the buffer. -/
def takeCompleteSseBlocks (buffer : String) : List String × String :=
  match h : Text.splitOnce "\n\n" buffer with
  | none => ([], buffer)
  | some (head, rest) =>
    let more := takeCompleteSseBlocks rest
    (if Text.trim head = "" then more.1 else Text.trim head :: more.1, more.2)
termination_by buffer.length
decreasing_by exact length_of_splitOnce (by decide) h

/-- One chunk of the network. -/
def takeChunk : Step String (List UInt8) String := fun buffer chunk =>
  takeCompleteSseBlocks (buffer ++ fromUtf8Lossy chunk)

/-- What is left in the buffer when the stream ends. -/
def trailingBlock (buffer : String) : List String :=
  if Text.trim buffer = "" then [] else [Text.trim buffer]

/-- The blocks the converter gets. -/
def handedBlocks (chunks : List (List UInt8)) : List String :=
  outputs takeChunk "" chunks ++ trailingBlock (final takeChunk "" chunks)

/-- The blocks of a text whose line ends are line feeds. -/
def sseBlocks (text : String) : List String := (BlankLines.blocks text.toList).map String.ofList

/-! ## The blocks of the chunks -/

theorem trim_eq_empty_iff (s : List Char) :
    Text.trim (String.ofList s) = "" ↔ BlankLines.trimList s = [] := by
  rw [BlankLines.trim_eq, String.toList_ofList]
  constructor
  · intro h
    have hlist := congrArg String.toList h
    simpa using hlist
  · intro h
    rw [h]

theorem map_ofList_clean (pieces : List (List Char)) :
    (BlankLines.clean pieces).map String.ofList =
      (pieces.map fun s => Text.trim (String.ofList s)).filter (· ≠ "") := by
  induction pieces with
  | nil => rfl
  | cons s pieces ih =>
    rw [BlankLines.clean_cons, List.map_append, ih, List.map_cons]
    by_cases h : BlankLines.trimList s = []
    · rw [List.filter_cons_of_neg (by simpa using (trim_eq_empty_iff s).mpr h)]
      simp [BlankLines.clean, h]
    · have hne : Text.trim (String.ofList s) ≠ "" := fun heq => h ((trim_eq_empty_iff s).mp heq)
      rw [List.filter_cons_of_pos (by simpa using hne)]
      simp [BlankLines.clean, h, BlankLines.trim_eq]

/-- The complete blocks are the blocks of all pieces but the last, which is left. -/
theorem takeCompleteSseBlocks_spec (buffer : String) : ∃ before : List (List Char),
    BlankLines.segments buffer.toList = before ++ [(takeCompleteSseBlocks buffer).2.toList] ∧
      (takeCompleteSseBlocks buffer).1 = (BlankLines.clean before).map String.ofList := by
  fun_induction takeCompleteSseBlocks buffer with
  | case1 buffer hnone =>
    have hlist : Text.splitList ['\n', '\n'] buffer.toList = none := by
      simpa [Text.splitOnce] using hnone
    rcases BlankLines.splitList_blank buffer.toList with ⟨-, hno⟩ | ⟨s, rest, hsome, -⟩
    · exact ⟨[], BlankLines.segments_of_noBlank hno, rfl⟩
    · rw [hlist] at hsome
      cases hsome
  | case2 buffer head rest hsome more ih =>
    obtain ⟨⟨a, b⟩, hlist, hpair⟩ := Option.map_eq_some_iff.mp hsome
    obtain ⟨rfl, rfl⟩ := Prod.mk.inj hpair
    rcases BlankLines.splitList_blank buffer.toList with ⟨hnone, -⟩ | ⟨s, tail, hsplit, heq, hno, hlast⟩
    · have hlist' : Text.splitList ['\n', '\n'] buffer.toList = some (a, b) := hlist
      rw [hnone] at hlist'
      cases hlist'
    · have hlist' : Text.splitList ['\n', '\n'] buffer.toList = some (a, b) := hlist
      rw [hsplit] at hlist'
      obtain ⟨rfl, rfl⟩ := Prod.mk.inj (Option.some.inj hlist')
      obtain ⟨before, hseg, hblocks⟩ := ih
      rw [String.toList_ofList] at hseg
      refine ⟨s :: before, ?_, ?_⟩
      · rw [heq, BlankLines.segments_split hno hlast, hseg]
        rfl
      · rw [BlankLines.clean_cons, List.map_append, ← hblocks]
        by_cases htrim : BlankLines.trimList s = []
        · rw [if_pos ((trim_eq_empty_iff s).mpr htrim)]
          simp [BlankLines.clean, htrim, more]
        · rw [if_neg fun hempty => htrim ((trim_eq_empty_iff s).mp hempty)]
          simp [BlankLines.clean, htrim, BlankLines.trim_eq, more]

theorem trailingBlock_eq (buffer : String) :
    trailingBlock buffer = (BlankLines.clean [buffer.toList]).map String.ofList := by
  have hiff := trim_eq_empty_iff buffer.toList
  rw [String.ofList_toList] at hiff
  unfold trailingBlock
  by_cases h : BlankLines.trimList buffer.toList = []
  · rw [if_pos (hiff.mpr h)]
    simp [BlankLines.clean, h]
  · rw [if_neg fun hempty => h (hiff.mp hempty)]
    simp [BlankLines.clean, h, BlankLines.trim_eq]

/-- The text the chunks decode to, each by itself. -/
def chunkText (chunks : List (List UInt8)) : List Char := chunks.flatMap Utf8.decode

/-- **The blocks handed on are those of the decoded chunks put together.** -/
theorem handedBlocks_eq (chunks : List (List UInt8)) :
    handedBlocks chunks = (BlankLines.blocks (chunkText chunks)).map String.ofList := by
  have hrun (buffer : String) (hno : BlankLines.segments buffer.toList = [buffer.toList]) :
      outputs takeChunk buffer chunks ++ trailingBlock (final takeChunk buffer chunks) =
        (BlankLines.blocks (buffer.toList ++ chunkText chunks)).map String.ofList := by
    induction chunks generalizing buffer with
    | nil =>
      rw [outputs_nil, final_nil, List.nil_append, trailingBlock_eq, chunkText, List.flatMap_nil,
        List.append_nil, BlankLines.blocks, hno]
    | cons chunk chunks ih =>
      obtain ⟨before, hseg, hblocks⟩ := takeCompleteSseBlocks_spec (buffer ++ fromUtf8Lossy chunk)
      have hchunk : (buffer ++ fromUtf8Lossy chunk).toList = buffer.toList ++ Utf8.decode chunk := by
        rw [String.toList_append, fromUtf8Lossy, String.toList_ofList]
      rw [hchunk] at hseg
      have hrest := ih (takeChunk buffer chunk).2 (BlankLines.segments_of_last hseg)
      have htext : buffer.toList ++ chunkText (chunk :: chunks) =
          buffer.toList ++ Utf8.decode chunk ++ chunkText chunks := by
        rw [chunkText, List.flatMap_cons, ← List.append_assoc, chunkText]
      have hblocks' : BlankLines.blocks (buffer.toList ++ Utf8.decode chunk ++ chunkText chunks) =
          BlankLines.clean before ++
            BlankLines.blocks ((takeChunk buffer chunk).2.toList ++ chunkText chunks) := by
        rw [BlankLines.blocks, BlankLines.segments_append hseg, BlankLines.clean_append]
        rfl
      rw [outputs_cons, final_cons, List.append_assoc, hrest, htext, hblocks', List.map_append,
        ← hblocks]
      rfl
  have hempty := hrun "" rfl
  exact hempty

theorem splitSseBlocks_eq (input : String) : splitSseBlocks input =
    (BlankLines.blocks (BlankLines.normalize input.toList)).map String.ofList := by
  unfold splitSseBlocks
  dsimp only
  split
  · exact (map_ofList_clean _).symm
  · rename_i hnone
    rw [BlankLines.normalize_of_not_mem hnone]
    exact (map_ofList_clean _).symm

theorem map_ofList_inj {xs ys : List (List Char)} :
    xs.map String.ofList = ys.map String.ofList ↔ xs = ys :=
  List.map_inj_right fun _ _ h => by simpa using congrArg String.toList h

/-- No block of the text holds a carriage return. -/
def NoReturns (text : String) : Prop := ∀ block ∈ sseBlocks text, '\r' ∉ block.toList

/-- **The blocks handed on are those of the decoded stream exactly if no chunk begins inside a
character and no block holds a carriage return.** -/
theorem handedBlocks_iff (chunks : List (List UInt8)) :
    handedBlocks chunks = splitSseBlocks (fromUtf8Lossy chunks.flatten) ↔
      CutsBetweenChars none chunks ∧ NoReturns (fromUtf8Lossy chunks.flatten) := by
  have htext : (fromUtf8Lossy chunks.flatten).toList = Utf8.decode chunks.flatten :=
    String.toList_ofList
  have hreturns : NoReturns (fromUtf8Lossy chunks.flatten) ↔
      ∀ block ∈ BlankLines.blocks (Utf8.decode chunks.flatten), '\r' ∉ block := by
    rw [NoReturns, sseBlocks, htext, List.forall_mem_map]
    simp only [String.toList_ofList]
  rw [handedBlocks_eq, splitSseBlocks_eq, htext, map_ofList_inj, hreturns]
  by_cases hcuts : CutsBetweenChars none chunks
  · have hpieces : chunkText chunks = Utf8.decode chunks.flatten := Utf8.pieces_eq hcuts
    rw [hpieces, BlankLines.blocks_normalize_iff]
    exact ⟨fun h => ⟨hcuts, h⟩, And.right⟩
  · -- a character cut in two leaves more replacement characters in the blocks
    refine iff_of_false (fun heq => ?_) (fun h => hcuts h.1)
    have hlt : Utf8.losses (Utf8.decode chunks.flatten) < Utf8.losses (chunkText chunks) :=
      Utf8.pieces_lt hcuts
    have hcount := congrArg (fun blocks => blocks.flatten.count Utf8.replacement) heq
    have hwhite : Text.isWhitespace Utf8.replacement = false := by decide
    rw [BlankLines.count_blocks hwhite, BlankLines.count_blocks hwhite,
      BlankLines.count_normalize (by decide) (by decide)] at hcount
    unfold Utf8.losses at hlt
    omega

/-- The bytes of an ASCII text. -/
def asciiBytes (text : String) : List UInt8 := text.toList.map fun c => UInt8.ofNat c.toNat

/-- Two events of a stream whose lines end in `\r\n`, in one chunk. -/
def crlfChunks : List (List UInt8) := [asciiBytes "data: a\r\n\r\ndata: b\r\n\r\n"]

/-- An event with a two-byte character, cut in the middle of it. -/
def cutChunks : List (List UInt8) :=
  [asciiBytes "data: " ++ [0xC3], [0xA9] ++ asciiBytes "\n\n"]

/-- The first stream is one block, and the second holds no such character. -/
theorem crlfChunks_not_split :
    handedBlocks crlfChunks ≠ splitSseBlocks (fromUtf8Lossy crlfChunks.flatten) ∧
      handedBlocks cutChunks ≠ splitSseBlocks (fromUtf8Lossy cutChunks.flatten) := by
  rw [handedBlocks_eq, handedBlocks_eq]
  decide +kernel

/-- What the relay writes for the bytes of a stream. -/
def relayBytes (codec : JsonCodec) (api : UpstreamApi) (source target : Format)
    (st : AdapterState × AdapterState) (chunks : List (List UInt8)) : List RelayLine :=
  relay codec api source target st (handedBlocks chunks)

/-- Where a stream is cut between characters makes no difference to the client. -/
theorem relayBytes_congr (codec : JsonCodec) (api : UpstreamApi) (source target : Format)
    (st : AdapterState × AdapterState) {chunks chunks' : List (List UInt8)}
    (hbytes : chunks.flatten = chunks'.flatten) (h : CutsBetweenChars none chunks)
    (h' : CutsBetweenChars none chunks') :
    relayBytes codec api source target st chunks = relayBytes codec api source target st chunks' := by
  have hpieces : chunkText chunks = Utf8.decode chunks.flatten := Utf8.pieces_eq h
  have hpieces' : chunkText chunks' = Utf8.decode chunks'.flatten := Utf8.pieces_eq h'
  rw [relayBytes, relayBytes, handedBlocks_eq, handedBlocks_eq, hpieces, hpieces', hbytes]

end AnyConverter
