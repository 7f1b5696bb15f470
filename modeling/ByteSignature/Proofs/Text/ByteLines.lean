import ByteSignature.Proofs.Text.Lines
import Mathlib.Data.List.Basic

/-!
# Files of byte strings

A file holds byte strings line by line.  Each of them is followed by a line end of either kind,
which the last one may lack when nothing follows it, and empty lines stand wherever they like.
Reading the lines of the file gives the byte strings back: cut at line feeds, a line is what the
line end leaves, and what an empty line leaves is dropped.
-/

namespace ByteSignature.Text

/-- The bytes of a line end. -/
def LineEnd.bytes : LineEnd → List UInt8
  | feed => [10]
  | returnFeed => [13, 10]

/-- The byte string can stand on a line of its own: it is not empty, has no line feed, and no
carriage return at its end that would belong to the line end. -/
structure FitsLine (text : List UInt8) : Prop where
  ne_nil : text ≠ []
  noFeed : 10 ∉ text
  noReturn : text.getLast? ≠ some 13

/-- The bytes hold the byte strings in order, each with a line end behind it.  Empty lines may
stand anywhere, and at the end of the bytes the line end may be missing. -/
inductive Files : List (List UInt8) → List UInt8 → Prop where
  | nil : Files [] []
  | empty {texts : List (List UInt8)} {rest : List UInt8} (stop : LineEnd)
      (behind : Files texts rest) : Files texts (stop.bytes ++ rest)
  | line {texts : List (List UInt8)} {rest : List UInt8} (text : List UInt8) (stop : LineEnd)
      (behind : Files texts rest) : Files (text :: texts) (text ++ stop.bytes ++ rest)
  | last (text : List UInt8) : Files [text] text

/-! ## Cutting -/

/-- Pieces are cut at line feeds. -/
theorem foldr_prependByte (bytes : List UInt8) :
    bytes.foldr prependByte [[]] = bytes.splitOnP (· == 10) := by
  induction bytes with
  | nil => rfl
  | cons byte rest ih =>
      obtain ⟨piece, pieces, cut⟩ := List.exists_cons_of_ne_nil
        (List.splitOnP_ne_nil (· == (10 : UInt8)) rest)
      rw [List.foldr_cons, ih, List.splitOnP_cons_eq_if_modifyHead, cut]
      by_cases isFeed : byte = 10 <;> simp [prependByte, isFeed]

/-- The line that a piece leaves, if it is not empty. -/
def lineOfPiece (piece : List UInt8) : List (List UInt8) :=
  [dropReturn piece].filter fun line => !line.isEmpty

theorem byteLines_of_notMem {bytes : List UInt8} (noFeed : 10 ∉ bytes) :
    byteLines bytes = lineOfPiece bytes := by
  have whole : bytes.splitOnP (· == 10) = [bytes] := by
    apply List.splitOnP_eq_singleton
    intro byte byteMem
    rw [beq_eq_false_iff_ne]
    rintro rfl
    exact noFeed byteMem
  rw [byteLines, foldr_prependByte, whole, List.map_singleton, lineOfPiece]

/-- A file is cut at a line feed. -/
theorem byteLines_append_feed (first rest : List UInt8) :
    byteLines (first ++ 10 :: rest) = byteLines first ++ byteLines rest := by
  simp only [byteLines, foldr_prependByte]
  rw [List.splitOnP_append_cons first rest (by rfl), List.map_append, List.filter_append]

/-! ## Lines -/

theorem dropReturn_of_getLast?_ne {piece : List UInt8} (noReturn : piece.getLast? ≠ some 13) :
    dropReturn piece = piece :=
  if_neg noReturn

@[simp]
theorem dropReturn_append_return (piece : List UInt8) : dropReturn (piece ++ [13]) = piece := by
  rw [dropReturn, if_pos List.getLast?_concat, List.dropLast_concat]

theorem lineOfPiece_of_fitsLine {text : List UInt8} (fits : FitsLine text) :
    lineOfPiece text = [text] := by
  simp [lineOfPiece, dropReturn_of_getLast?_ne fits.noReturn, fits.ne_nil]

/-- A line end closes the line in front of it. -/
theorem byteLines_append_lineEnd {text : List UInt8} (noFeed : 10 ∉ text)
    (noReturn : text.getLast? ≠ some 13) (stop : LineEnd) (rest : List UInt8) :
    byteLines (text ++ stop.bytes ++ rest) = lineOfPiece text ++ byteLines rest := by
  cases stop with
  | feed =>
      rw [LineEnd.bytes, List.append_assoc, List.singleton_append, byteLines_append_feed,
        byteLines_of_notMem noFeed]
  | returnFeed =>
      have split : text ++ LineEnd.returnFeed.bytes ++ rest = (text ++ [13]) ++ 10 :: rest := by
        simp [LineEnd.bytes]
      have noFeed2 : 10 ∉ text ++ [13] := by simpa using noFeed
      rw [split, byteLines_append_feed, byteLines_of_notMem noFeed2, lineOfPiece,
        dropReturn_append_return, lineOfPiece, dropReturn_of_getLast?_ne noReturn]

theorem Files.byteLines_eq {texts : List (List UInt8)} {bytes : List UInt8}
    (files : Files texts bytes) (fit : ∀ text ∈ texts, FitsLine text) :
    byteLines bytes = texts := by
  induction files with
  | nil => rfl
  | @empty texts rest stop behind ih =>
      have closed := byteLines_append_lineEnd List.not_mem_nil (by simp) stop rest
      rw [List.nil_append] at closed
      rw [closed, ih fit]
      rfl
  | line text stop behind ih =>
      rw [List.forall_mem_cons] at fit
      rw [byteLines_append_lineEnd fit.1.noFeed fit.1.noReturn, lineOfPiece_of_fitsLine fit.1,
        ih fit.2, List.singleton_append]
  | last text =>
      have fits := fit text List.mem_cons_self
      rw [byteLines_of_notMem fits.noFeed, lineOfPiece_of_fitsLine fits]

/-! ## No line holds a line feed -/

theorem mem_of_mem_dropReturn {piece : List UInt8} {byte : UInt8}
    (byteMem : byte ∈ dropReturn piece) : byte ∈ piece := by
  rw [dropReturn] at byteMem
  split at byteMem
  · exact List.dropLast_subset _ byteMem
  · exact byteMem

theorem feed_notMem_of_mem_prependByte {byte : UInt8} {pieces : List (List UInt8)}
    (noFeed : ∀ piece ∈ pieces, 10 ∉ piece) : ∀ piece ∈ prependByte byte pieces, 10 ∉ piece := by
  by_cases isFeed : byte = 10
  · cases pieces with
    | nil => simp [prependByte, isFeed]
    | cons first later => simpa [prependByte, isFeed] using noFeed
  · have differs : 10 ≠ byte := Ne.symm isFeed
    cases pieces with
    | nil => simp [prependByte, isFeed, differs]
    | cons first later => simpa [prependByte, isFeed, differs] using noFeed

/-- Pieces end where line feeds are. -/
theorem feed_notMem_of_mem_foldr (bytes : List UInt8) :
    ∀ piece ∈ bytes.foldr prependByte [[]], 10 ∉ piece := by
  induction bytes with
  | nil => simp
  | cons byte rest ih => exact feed_notMem_of_mem_prependByte ih

theorem feed_notMem_of_mem_byteLines {bytes line : List UInt8} (lineMem : line ∈ byteLines bytes) :
    10 ∉ line := by
  obtain ⟨piece, pieceMem, rfl⟩ := List.mem_map.mp (List.mem_filter.mp lineMem).1
  intro feedMem
  exact feed_notMem_of_mem_foldr bytes piece pieceMem (mem_of_mem_dropReturn feedMem)

/-- Byte strings that are written to a file line by line are read back from it.  Whatever a file
holds, none of its lines is empty or has a line feed. -/
theorem byteLines_of_files :
    (∀ {texts : List (List UInt8)} {bytes : List UInt8}, (∀ text ∈ texts, FitsLine text) →
      Files texts bytes → byteLines bytes = texts) ∧
      ∀ bytes, ∀ line ∈ byteLines bytes, line ≠ [] ∧ 10 ∉ line := by
  constructor
  · intro texts bytes fit files
    exact files.byteLines_eq fit
  · intro bytes line lineMem
    exact ⟨ne_nil_of_mem_byteLines lineMem, feed_notMem_of_mem_byteLines lineMem⟩

/-- Both kinds of line end, empty lines, a carriage return inside, and no end behind the last. -/
theorem byteLines_of_files_mixed :
    (∀ text ∈ [[97, 13, 98], [99]], FitsLine text) ∧
      Files [[97, 13, 98], [99]] [13, 10, 97, 13, 98, 13, 10, 10, 99] ∧
      byteLines [13, 10, 97, 13, 98, 13, 10, 10, 99] = [[97, 13, 98], [99]] := by
  have fit : ∀ text ∈ [[97, 13, 98], [99]], FitsLine text :=
    List.forall_mem_cons.mpr ⟨⟨by decide, by decide, by decide⟩,
      List.forall_mem_singleton.mpr ⟨by decide, by decide, by decide⟩⟩
  have files : Files [[97, 13, 98], [99]] [13, 10, 97, 13, 98, 13, 10, 10, 99] :=
    .empty .returnFeed (.line [97, 13, 98] .returnFeed (.empty .feed (.last [99])))
  exact ⟨fit, files, byteLines_of_files.1 fit files⟩

end ByteSignature.Text
