import CrossRef.Proofs.Unambiguity
import Mathlib.Algebra.GroupWithZero.Nat

/-!
# Where the trailer of an index file stands

The header of an index file ends in the position of the trailer.  The number is part of the text that
it counts: it has ten digits as long as it is below ten to the tenth, and beyond that each further digit
moves the trailer away from the position that was written.  The trailer counts the files and the
characters of their list.

All of this is counted in characters.  A file is stored in bytes, and a character beyond ASCII takes
several of them, so the counts hold in the stored file exactly if the texts are ASCII.
-/

namespace CrossRef

namespace IndexFile

/-- What stands in front of the number in a header. -/
def headerFront (directory : String) : String :=
  "cscope 15 " ++ directory ++ " -c "

/-- The number that some digits stand for. -/
def readNumber (digits : List Char) : Option Nat :=
  if digits ≠ [] ∧ digits.all Char.isDigit then some (Nat.ofDigitChars 10 digits 0) else none

/-- The number that the header of an index made in the given directory ends in. -/
def readOffset (directory header : String) : Option Nat :=
  readNumber (header.toList.drop (headerFront directory).length)

/-- What stands in front of the trailer: the header, the index and the line feed that ends it. -/
def opening (directory : String) (blocks : List String) : String :=
  header directory (String.join blocks).length ++ String.join blocks ++ "\n"

/-- The first rows of a text, and what stands behind them. -/
def splitRows : Nat → List Char → List Row × List Char
  | 0, text => ([], text)
  | count + 1, text =>
    let later := splitRows count (text.dropWhile (· ≠ '\n')).tail
    (text.takeWhile (· ≠ '\n') :: later.1, later.2)

/-! ## Numbers in their fields -/

theorem readNumber_toString (number : Nat) : readNumber (toString number).toList = some number := by
  have areDigits : (Nat.toDigits 10 number).all Char.isDigit = true := by
    rw [List.all_eq_true]
    exact fun _ => Line.isDigit_of_mem
  rw [Line.toList_toString, readNumber, if_pos ⟨Nat.toDigits_ne_nil, areDigits⟩,
    Nat.ofDigitChars_ten_toDigits]

/-- Leading zeros do not change a number. -/
theorem readNumber_tenDigits (number : Nat) : readNumber (tenDigits number).toList = some number := by
  have areDigits : (tenDigits number).toList.all Char.isDigit = true := by
    rw [List.all_eq_true]
    exact tenDigits_isDigit number
  have nonempty : (tenDigits number).toList ≠ [] := by
    simp [tenDigits, Nat.toDigits_ne_nil]
  have value : Nat.ofDigitChars 10 (tenDigits number).toList 0 = number := by
    rw [tenDigits, String.toList_ofList, Nat.ofDigitChars_append, Nat.ofDigitChars_replicate_zero,
      Nat.mul_zero, Nat.ofDigitChars_ten_toDigits]
  rw [readNumber, if_pos ⟨nonempty, areDigits⟩, value]

/-- A number has ten digits exactly if it is below ten to the tenth. -/
theorem length_tenDigits (number : Nat) : (tenDigits number).length = 10 ↔ number < 10 ^ 10 := by
  rw [← Nat.length_toDigits_le_iff (by decide : 1 < 10) (by decide : 0 < 10)]
  simp only [tenDigits, String.length_ofList, List.length_append, List.length_replicate]
  omega

theorem header_eq (directory : String) (length : Nat) :
    header directory length =
      headerFront directory ++ tenDigits (directory.length + headerLength + length) :=
  rfl

theorem readOffset_header (directory : String) (length : Nat) :
    readOffset directory (header directory length) = some (directory.length + headerLength + length) := by
  have field : (header directory length).toList.drop (headerFront directory).length =
      (tenDigits (directory.length + headerLength + length)).toList := by
    rw [header_eq, String.toList_append, ← String.length_toList, List.drop_left]
  rw [readOffset, field, readNumber_tenDigits]

/-! ## Rows of the trailer -/

theorem splitRows_succ {row rest : List Char} (oneRow : '\n' ∉ row) (count : Nat) :
    splitRows (count + 1) (row ++ '\n' :: rest) =
      (row :: (splitRows count rest).1, (splitRows count rest).2) := by
  have inRow : ∀ char ∈ row, decide (char ≠ '\n') = true := by
    intro char member
    rw [decide_eq_true_eq]
    rintro rfl
    exact oneRow member
  rw [splitRows, List.takeWhile_append_of_pos inRow, List.dropWhile_append_of_pos inRow]
  simp

/-- A number stands on one row. -/
theorem toString_oneRow (number : Nat) : '\n' ∉ (toString number).toList := by
  intro member
  rw [Line.toList_toString] at member
  have isDigit := Line.isDigit_of_mem member
  cases isDigit

/-- The trailer, without the line feed that ends the index. -/
def closing (files : List String) : String :=
  "1\n.\n0\n" ++ toString files.length ++ "\n" ++ toString (fileList files).length ++ "\n" ++
    fileList files

theorem render_eq (directory : String) (blocks files : List String) :
    render directory blocks files = opening directory blocks ++ closing files := by
  have feed : "\n1\n.\n0\n" = "\n" ++ "1\n.\n0\n" := rfl
  simp only [render, opening, closing, trailer, feed, String.append_assoc]

theorem splitRows_closing (files : List String) :
    splitRows 5 (closing files).toList =
      ([['1'], ['.'], ['0'], (toString files.length).toList, (toString (fileList files).length).toList],
        (fileList files).toList) := by
  have rows : (closing files).toList = ['1'] ++ '\n' :: (['.'] ++ '\n' :: (['0'] ++ '\n' ::
      ((toString files.length).toList ++ '\n' :: ((toString (fileList files).length).toList ++ '\n' ::
        (fileList files).toList)))) := by
    simp [closing]
  rw [rows, splitRows_succ (by decide), splitRows_succ (by decide), splitRows_succ (by decide),
    splitRows_succ (toString_oneRow _), splitRows_succ (toString_oneRow _), splitRows]

theorem textsFrom_map (position : Nat) (texts : List String) :
    textsFrom position (texts.map .text) = .ok texts := by
  induction texts generalizing position with
  | nil => rfl
  | cons text rest ih => simp [textsFrom, ih, Except.map]

/-- Texts are written in full. -/
theorem write_texts (directory : String) (blocks files : List String) :
    write directory (blocks.map .text) (files.map .text) =
      (opening directory blocks ++ closing files, none) := by
  simp only [write, textsFrom_map, render_eq]

/-! ## Positions in characters -/

theorem length_opening (directory : String) (blocks : List String) :
    (opening directory blocks).length = directory.length + 15 +
      (tenDigits (directory.length + headerLength + (String.join blocks).length)).length +
        (String.join blocks).length := by
  have front : "cscope 15 ".length = 10 ∧ " -c ".length = 4 ∧ "\n".length = 1 := by decide
  simp only [opening, header, String.length_append, front]
  omega

/-- The position that is written is that of the trailer exactly if it has ten digits. -/
theorem position_eq_iff (directory : String) (blocks : List String) :
    directory.length + headerLength + (blocks.map String.length).sum =
        (opening directory blocks).length ↔
      directory.length + 25 + (blocks.map String.length).sum < 10 ^ 10 := by
  have width := length_tenDigits (directory.length + headerLength + (String.join blocks).length)
  have long : 10 ≤ (tenDigits (directory.length + headerLength + (String.join blocks).length)).length := by
    simp only [tenDigits, String.length_ofList, List.length_append, List.length_replicate]
    omega
  rw [length_opening, ← String.length_join]
  simp only [headerLength] at width long ⊢
  omega

/-- The number in the header is the position of the trailer exactly if it is below ten to the tenth; the
trailer counts the files and the characters behind its fifth row. -/
theorem offset_eq_position_iff (directory : String) (blocks files : List String) :
    ∃ text offset count space names,
      write directory (blocks.map .text) (files.map .text) = (text, none) ∧
      (opening directory blocks).toList <+: text.toList ∧
      readOffset directory (header directory (String.join blocks).length) = some offset ∧
      (offset = (opening directory blocks).length ↔
        directory.length + 25 + (blocks.map String.length).sum < 10 ^ 10) ∧
      splitRows 5 (text.toList.drop (opening directory blocks).length) =
        ([['1'], ['.'], ['0'], count, space], names) ∧
      readNumber count = some files.length ∧
      readNumber space = some names.length := by
  refine ⟨_, _, _, _, (fileList files).toList, write_texts directory blocks files, ?_,
    readOffset_header directory _, ?_, ?_, readNumber_toString files.length,
    readNumber_toString (fileList files).toList.length⟩
  · rw [String.toList_append]
    exact List.prefix_append _ _
  · rw [String.length_join]
    exact position_eq_iff directory blocks
  · rw [String.toList_append, ← String.length_toList, List.drop_left, splitRows_closing,
      String.length_toList]

/-! ## Positions in bytes -/

/-- Whether all characters of a text are ASCII. -/
def isAscii (text : String) : Bool :=
  text.toList.all fun char => char.toNat < 128

theorem isAscii_append (first second : String) :
    isAscii (first ++ second) = (isAscii first && isAscii second) := by
  simp [isAscii]

theorem isAscii_join (texts : List String) : isAscii (String.join texts) = texts.all isAscii := by
  induction texts with
  | nil => rfl
  | cons text rest ih => rw [String.join_cons, isAscii_append, ih, List.all_cons]

theorem isAscii_fileList (files : List String) : isAscii (fileList files) = files.all isAscii := by
  have feed : isAscii "\n" = true := by decide
  have rows : isAscii (String.intercalate "\n" files) = files.all isAscii := by
    induction files with
    | nil => rfl
    | cons file rest ih =>
        cases rest with
        | nil => simp
        | cons next rest =>
            rw [String.intercalate_cons_cons, isAscii_append, isAscii_append, feed, ih, Bool.and_true,
              List.all_cons (l := next :: rest)]
  rw [fileList, isAscii_append, rows, feed, Bool.and_true]

theorem isAscii_tenDigits (number : Nat) : isAscii (tenDigits number) = true := by
  rw [isAscii, List.all_eq_true]
  intro char member
  have isDigit := tenDigits_isDigit number char member
  simp only [Char.isDigit, Bool.and_eq_true, decide_eq_true_eq, UInt32.le_iff_toNat_le] at isDigit
  have notAbove : char.toNat ≤ 57 := isDigit.2
  rw [decide_eq_true_eq]
  omega

theorem isAscii_opening (directory : String) (blocks : List String) :
    isAscii (opening directory blocks) = (isAscii directory && blocks.all isAscii) := by
  have fixed : isAscii "cscope 15 " = true ∧ isAscii " -c " = true ∧ isAscii "\n" = true := by decide
  simp only [opening, header, isAscii_append, isAscii_join, isAscii_tenDigits, fixed, Bool.true_and,
    Bool.and_true]

/-- A text takes as many bytes as it has characters exactly if it is ASCII. -/
theorem size_toUTF8_eq_iff (text : String) : text.toUTF8.size = text.length ↔ isAscii text = true := by
  have ofChars (chars : List Char) : chars.length ≤ chars.utf8Encode.size ∧
      (chars.utf8Encode.size = chars.length ↔ chars.all (fun char => char.toNat < 128) = true) := by
    induction chars with
    | nil => simp
    | cons char rest ih =>
        have oneByte : char.utf8Size = 1 ↔ char.toNat < 128 := by
          rw [Char.utf8Size_eq_one_iff, UInt32.le_iff_toNat_le]
          exact Nat.lt_succ_iff.symm
        have someByte := char.utf8Size_pos
        rw [List.utf8Encode_cons, List.utf8Encode_singleton, ByteArray.size_append,
          List.size_toByteArray, String.length_utf8EncodeChar, List.length_cons, List.all_cons,
          Bool.and_eq_true, decide_eq_true_eq, ← ih.2, ← oneByte]
        omega
  have encoded := (ofChars text.toList).2
  rwa [String.utf8Encode_toList, ← String.toUTF8_eq_toByteArray, String.length_toList] at encoded

/-- In the stored file the number in the header is the position of the trailer exactly if the directory
and the index are ASCII, and the length in the trailer is that of the list behind it exactly if the names
of the files are. -/
theorem stored_position_iff (directory : String) (blocks files : List String)
    (short : directory.length + 25 + (blocks.map String.length).sum < 10 ^ 10) :
    ∃ trailer offset count space names length,
      write directory (blocks.map .text) (files.map .text) =
        (opening directory blocks ++ trailer, none) ∧
      (opening directory blocks ++ trailer).toUTF8 =
        (opening directory blocks).toUTF8 ++ trailer.toUTF8 ∧
      readOffset directory (header directory (String.join blocks).length) = some offset ∧
      (offset = (opening directory blocks).toUTF8.size ↔
        isAscii directory = true ∧ ∀ block ∈ blocks, isAscii block = true) ∧
      splitRows 5 trailer.toList = ([['1'], ['.'], ['0'], count, space], names) ∧
      readNumber space = some length ∧
      (length = (String.ofList names).toUTF8.size ↔ ∀ file ∈ files, isAscii file = true) := by
  refine ⟨closing files, _, _, _, _, _, write_texts directory blocks files, ?_,
    readOffset_header directory _, ?_, splitRows_closing files, readNumber_toString _, ?_⟩
  · simp only [String.toUTF8_eq_toByteArray, String.toByteArray_append]
  · have inCharacters : directory.length + headerLength + (String.join blocks).length =
        (opening directory blocks).length := by
      rw [String.length_join]
      exact (position_eq_iff directory blocks).mpr short
    rw [inCharacters, eq_comm, size_toUTF8_eq_iff, isAscii_opening, Bool.and_eq_true, List.all_eq_true]
  · rw [String.ofList_toList, eq_comm, size_toUTF8_eq_iff, isAscii_fileList, List.all_eq_true]

/-- The index of an empty file whose name is not ASCII. -/
def accentedBlocks : List String := ["\n\t@é.py\n\n", "\n\t@"]

theorem stored_position_iff_accentedName :
    "/w".length + 25 + (accentedBlocks.map String.length).sum < 10 ^ 10 ∧
      ∃ offset, readOffset "/w" (header "/w" (String.join accentedBlocks).length) = some offset ∧
        offset ≠ (opening "/w" accentedBlocks).toUTF8.size := by
  have short : "/w".length + 25 + (accentedBlocks.map String.length).sum < 10 ^ 10 := by decide
  rcases stored_position_iff "/w" accentedBlocks ["é.py"] short with
    ⟨_, offset, _, _, _, _, _, _, isOffset, placed, _⟩
  refine ⟨short, offset, isOffset, ?_⟩
  rw [ne_eq, placed]
  decide

/-- The number in the header falls one byte short of the trailer, and the length in the trailer one byte
short of the end. -/
theorem accentedName_misplaced :
    write "/w" (accentedBlocks.map .text) [.text "é.py"] =
        (opening "/w" accentedBlocks ++ closing ["é.py"], none) ∧
      readOffset "/w" (header "/w" (String.join accentedBlocks).length) = some 39 ∧
      (opening "/w" accentedBlocks).toUTF8.size = 40 ∧
      splitRows 5 (closing ["é.py"]).toList =
        ([['1'], ['.'], ['0'], ['1'], ['5']], "é.py\n".toList) ∧
      "é.py\n".toUTF8.size = 6 := by
  refine ⟨write_texts "/w" accentedBlocks ["é.py"], ?_⟩
  decide +kernel

end IndexFile

end CrossRef
