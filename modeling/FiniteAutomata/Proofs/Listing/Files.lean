import FiniteAutomata.Loading
import FiniteAutomata.Proofs.Text.Lines
import FiniteAutomata.Proofs.Text.Utf8

/-! # Listings in files

A listing in a file is the listing that the file spells. Its line ends are written as line feeds on
the way, which changes nothing about its lines, and so nothing about its program, nor about the line
that is reported where it has none (`parse_unifyNewlines`). A byte order mark in front is dropped
(`load_utf8`). -/

namespace FiniteAutomata.Listing

open Text

/-- Writing line ends as line feeds changes nothing about a listing. -/
theorem parse_unifyNewlines (text : String) :
    parse (String.ofList (unifyNewlines text.toList)) = parse text := by
  unfold parse Reader.parse
  rw [String.toList_ofList, lines_unifyNewlines]

theorem load_of_readMarkedBytes {path : String} {bytes : ByteArray} {text : String}
    (h : readMarkedBytes bytes = .ok text) :
    load path (some bytes) = (parse text).mapError .listing := by
  have htext : fileText path (some bytes) = .ok text := by
    rw [fileText, h]
    rfl
  rw [load, htext]
  rfl

/-- **A file gives the program of the text that it holds**, or what is wrong with the text, line
numbers included: if a byte order mark stands in front of the bytes of the text, and also without a
mark if the text itself does not start with its character. -/
theorem load_utf8 (path text : String) :
    load path (some (⟨#[0xEF, 0xBB, 0xBF]⟩ ++ text.toUTF8)) = (parse text).mapError .listing ∧
    (text.toList.head? ≠ some mark →
      load path (some text.toUTF8) = (parse text).mapError .listing) := by
  refine ⟨?_, fun h => ?_⟩
  · rw [load_of_readMarkedBytes (readMarkedBytes_mark text), parse_unifyNewlines]
  · rw [load_of_readMarkedBytes (readMarkedBytes_toUTF8 h), parse_unifyNewlines]

/-- A carriage return, a line feed and a vertical tab each end a line in the file as in the text. -/
theorem load_utf8_threeBreaks :
    "start = a\r\n\x0b b\r".toList.head? ≠ some mark ∧
      load "a.fsa" (some "start = a\r\n\x0b b\r".toUTF8) =
        .error (.listing (.line ⟨3, "b", .expectedAssignment⟩)) := by
  have hhead : "start = a\r\n\x0b b\r".toList.head? ≠ some mark := by decide
  have hparse : parse "start = a\r\n\x0b b\r" = .error (.line ⟨3, "b", .expectedAssignment⟩) := by
    decide +kernel
  refine ⟨hhead, ?_⟩
  rw [(load_utf8 "a.fsa" "start = a\r\n\x0b b\r").2 hhead, hparse]
  rfl

end FiniteAutomata.Listing
