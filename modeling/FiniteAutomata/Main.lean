import FiniteAutomata.Console.Session

/-! # The command line

Looks at what a session needs to know, computes it, and does what it says. A session that waits for
an answer is computed once more with one more answer, and only what it writes beyond that point is
new. -/

namespace FiniteAutomata.Console

/-- The content of a file, if there is one to read. -/
def readContent? (path : String) : IO (Option ByteArray) := do
  try
    return some (← IO.FS.readBinFile path)
  catch _ => return none

/-- Whether a directory can be opened. -/
def canOpen (path : String) : IO Bool := do
  try
    discard <| IO.FS.Handle.mk (path ++ "/.") .read
    return true
  catch _ => return false

/-- The paths at which a command line may make a session look. -/
def neededPaths (w : Surroundings) (a : Arguments) : List Path :=
  let settings := if a.config = .absent then settingsPlaces w else a.config.value?.toList
  let named := (a.source?.map Source.path).toList ++ a.prettyPrint.toList ++ a.logDir.value?.toList
  let journal := a.logDir.value?.map fun dir => (Path.ofText dir).below (.ofText "fsalang.log")
  (settings ++ named).map Path.ofText ++ journal.toList

/-- A tree of files with what stands at a path and on the way to it. -/
def explore (w : Surroundings) (t : Files.Tree) (path : Path) : IO Files.Tree := do
  let mut t := t
  for count in List.range (path.parts.length + 1) do
    let part := { path with parts := path.parts.take count }
    let place := Files.placeOf w.place part
    if ← canOpen part.text then
      t := { t with directories := place :: t.directories }
    else if let some content ← readContent? part.text then
      t := { t with files := (place, content) :: t.files }
  return t

/-- What a command line finds around it, apart from answers to prompts. -/
def lookAround (texts : List String) : IO Surroundings := do
  let directory := (← IO.getEnv "PWD").getD "."
  let home := (← IO.getEnv "HOME").getD "."
  let columns := ((← IO.getEnv "COLUMNS").bind String.toNat?).getD 80
  let bytes ← IO.getRandomBytes 8
  let chance := Int.ofNat (bytes.toList.foldl (fun n b => 256 * n + b.toNat) 0)
  let bare : Surroundings := { directory, home, columns, chance }
  let start : Files.Tree := { directories := [bare.place] }
  match readArguments texts with
  | .error _ => return { bare with files := start }
  | .ok a => return { bare with files := ← (neededPaths bare a).foldlM (explore bare) start }

/-- Writes lines and sees that they are shown. -/
def showLines (out : IO.FS.Stream) (lines : List String) : IO Unit := do
  for line in lines do
    out.putStrLn line
  out.flush

/-- The session of a command line, after all answers that it waits for are given; what it has
written so far is shown, and the number of its lines is given with it. -/
partial def answering (w : Surroundings) (texts : List String) (answers shown : Nat) :
    IO (Session × Nat) := do
  let s := session { w with prompts := some answers } texts
  showLines (← IO.getStdout) (s.lines.drop shown)
  if s.ending = .broken (.stopped .inputEnded) then
    let line ← (← IO.getStdin).getLine
    if line.isEmpty then return (s, s.lines.length)
    else answering w texts (answers + 1) s.lines.length
  else return (s, s.lines.length)

/-- Adds the entries of a session to the file that keeps them. -/
def keepJournal (a : Arguments) (s : Session) : IO Unit := do
  match a.logDir, s.journalFile, s.fileEntries with
  | .value dir, some kept, some entries =>
    IO.FS.createDirAll (Path.ofText dir).text
    let file ← IO.FS.Handle.mk kept.path .append
    for e in entries do
      file.putStrLn (Json.write e.toDatum)
  | _, _, _ => return ()

/-- An entry of the journal on one line. -/
def entryLine (e : Journal.Entry) : String :=
  "[" ++ e.level.text ++ "] " ++ e.event ++ " [" ++ e.source ++ "]" ++
    String.join (e.fields.map fun f => " " ++ f.1 ++ "=" ++ Json.write f.2)

/-- Does what a session says, and gives the exit code. -/
def perform (texts : List String) : IO UInt32 := do
  let (s, _) ← answering (← lookAround texts) texts 0 0
  match readArguments texts with
  | .ok a => keepJournal a s
  | .error _ => pure ()
  if let some file := s.written then
    IO.FS.writeFile file.path file.text
  let err ← IO.getStderr
  showLines err (s.consoleEntries.map entryLine)
  showLines err s.errors
  match s.ending with
  | .exit code => return UInt32.ofNat code
  | .broken b =>
    showLines err [b.message]
    return 1

end FiniteAutomata.Console

/-- Carries out the command line. -/
def main (args : List String) : IO UInt32 := FiniteAutomata.Console.perform args
