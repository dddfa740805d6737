import FiniteAutomata.Text.Basic
import FiniteAutomata.Text.Quoted

/-! # Texts from bytes

A file holds a text in UTF-8. Decoding goes byte by byte: between characters it expects a first
byte, inside one it expects a continuation byte within bounds that exclude longer spellings than
needed, surrogates and what lies beyond the last code point. The first byte that does not fit is
reported with those of its character that came before it. -/

namespace FiniteAutomata.Text

/-- What is wrong with the bytes of a character. -/
inductive Utf8Fault where
  | invalidStart
  | invalidContinuation
  | unexpectedEnd
deriving DecidableEq, Repr

/-- The text of a fault. -/
def Utf8Fault.text : Utf8Fault → String
  | .invalidStart => "invalid start byte"
  | .invalidContinuation => "invalid continuation byte"
  | .unexpectedEnd => "unexpected end of data"

/-- Bytes that spell no character: how many from where on, and the first of them. -/
structure Utf8Error where
  fault : Utf8Fault
  start : Nat
  count : Nat
  first : Nat
deriving DecidableEq, Repr

/-- The text of the report on bytes that spell no character. -/
def Utf8Error.message (e : Utf8Error) : String :=
  let place :=
    if e.count = 1 then
      "byte 0x" ++ String.ofList (hex 2 e.first) ++ s!" in position {e.start}"
    else s!"bytes in position {e.start}-" ++ toString (e.start + e.count - 1)
  "'utf-8' codec can't decode " ++ place ++ ": " ++ e.fault.text

/-- A character begun: where and with which byte, the bits so far, how many continuation bytes are
missing, and the bounds of the next one. -/
structure Pending where
  start : Nat
  first : Nat
  bits : Nat
  missing : Nat
  low : Nat
  high : Nat
deriving DecidableEq, Repr

/-- What a first byte begins; none if no character starts with it. -/
def Pending.ofFirst? (start b : Nat) : Option Pending :=
  if b < 0x80 then some ⟨start, b, b, 0, 0x80, 0xBF⟩
  else if b < 0xC2 then none
  else if b < 0xE0 then some ⟨start, b, b - 0xC0, 1, 0x80, 0xBF⟩
  else if b = 0xE0 then some ⟨start, b, 0, 2, 0xA0, 0xBF⟩
  else if b = 0xED then some ⟨start, b, 0xD, 2, 0x80, 0x9F⟩
  else if b < 0xF0 then some ⟨start, b, b - 0xE0, 2, 0x80, 0xBF⟩
  else if b = 0xF0 then some ⟨start, b, 0, 3, 0x90, 0xBF⟩
  else if b < 0xF4 then some ⟨start, b, b - 0xF0, 3, 0x80, 0xBF⟩
  else if b = 0xF4 then some ⟨start, b, 4, 3, 0x80, 0x8F⟩
  else none

/-- The character begun with one more continuation byte, if the byte is within bounds. -/
def Pending.next? (p : Pending) (b : Nat) : Option Pending :=
  if p.low ≤ b && b ≤ p.high then
    some { p with bits := p.bits * 64 + (b - 0x80), missing := p.missing - 1, low := 0x80, high := 0xBF }
  else none

/-- The fault of a character begun that cannot go on at a position. -/
def Pending.stop (p : Pending) (fault : Utf8Fault) (position : Nat) : Utf8Error :=
  ⟨fault, p.start, position - p.start, p.first⟩

/-- Takes the byte at a position: the characters read so far, last first, and the one begun. -/
def takeByte (position : Nat) (pending : Option Pending) (b : Nat) : Except Utf8Error Pending :=
  match pending with
  | none =>
    match Pending.ofFirst? position b with
    | some p => .ok p
    | none => .error ⟨.invalidStart, position, 1, b⟩
  | some p =>
    match p.next? b with
    | some p => .ok p
    | none => .error (p.stop .invalidContinuation position)

/-- Decodes bytes from a position on, with a character possibly begun. -/
def decodeFrom (position : Nat) (pending : Option Pending) : List Nat → Except Utf8Error (List Char)
  | [] =>
    match pending with
    | none => .ok []
    | some p => .error (p.stop .unexpectedEnd position)
  | b :: rest =>
    match takeByte position pending b with
    | .error e => .error e
    | .ok p =>
      if p.missing = 0 then
        (decodeFrom (position + 1) none rest).map (Char.ofNat p.bits :: ·)
      else decodeFrom (position + 1) (some p) rest

/-- The bytes of a byte order mark. -/
def byteOrderMark : List Nat := [0xEF, 0xBB, 0xBF]

/-- The text that bytes spell. -/
def decode (bytes : List Nat) : Except Utf8Error (List Char) := decodeFrom 0 none bytes

/-- The text that bytes spell after a byte order mark, if they start with one. Positions count from
after the mark; bytes that are only the beginning of a mark spell nothing. -/
def decodeMarked (bytes : List Nat) : Except Utf8Error (List Char) :=
  if byteOrderMark.isPrefixOf bytes then decode (bytes.drop 3)
  else if bytes.isPrefixOf byteOrderMark then .ok []
  else decode bytes

/-- The text of a file: every line end is a line feed. -/
def readBytes (bytes : ByteArray) : Except Utf8Error String :=
  (decode (bytes.toList.map (·.toNat))).map fun s => String.ofList (unifyNewlines s)

/-- The text of a file that may start with a byte order mark: every line end is a line feed. -/
def readMarkedBytes (bytes : ByteArray) : Except Utf8Error String :=
  (decodeMarked (bytes.toList.map (·.toNat))).map fun s => String.ofList (unifyNewlines s)

end FiniteAutomata.Text
