import FiniteAutomata.Branch
import FiniteAutomata.Text.Basic

/-! # Reports

What a run has found, for the reader at a terminal: whether the input is accepted, and each way in
which it is, on one line with the input it consumed at the right margin, or on two where one does
not have the room. A trace shows one way event by event. Two commands of mathematical typesetting
are shown as the letters they stand for. -/

namespace FiniteAutomata.Report

/-- Writes the letters that `\epsilon` and `\phi` stand for. -/
def withLetters (text : String) : String :=
  let epsilon := Text.replace "\\epsilon".toList "ε".toList text.toList
  String.ofList (Text.replace "\\phi".toList "ϕ".toList epsilon)

/-- An event on one line. -/
def eventText (e : Event) : String :=
  e.state.lexeme ++ " (" ++ e.token.lexeme ++ " -> " ++ e.destination.lexeme ++ ")"

/-- The events of an answer on one line. -/
def pathText (a : Answer) : String :=
  "|" ++ String.join (a.path.map fun e => " --> " ++ eventText e)

/-- An answer set to a width: its events, and the input it consumed at the right margin, or below if
there is no room for both. -/
def answerText (a : Answer) (width : Nat) : String :=
  let path := withLetters (pathText a)
  let text := withLetters a.text
  if width < path.length + text.length then path ++ "\n:: " ++ text
  else path ++ String.ofList (List.replicate (width - path.length - text.length) ' ') ++ text

/-- The lines of the report on answers. -/
def answerLines (answers : List Answer) (width : Nat) : List String :=
  if answers.isEmpty then ["NOT ACCEPTED.", "Found no accepting paths."]
  else
    "ACCEPTED." :: s!"Found {answers.length} accepting paths." ::
      answers.map fun a => answerText a width

/-- The lines of the trace of a path. -/
def traceLines (path : List Event) : List String :=
  "> [START]" :: path.map (fun e => withLetters ("> " ++ eventText e)) ++ ["> [END]"]

/-- Lines as a text that ends each of them with a line feed. -/
def unlines (lines : List String) : String := String.join (lines.map (· ++ "\n"))

end FiniteAutomata.Report
