/-! # References to states and tokens

A reference is a name chosen by the user or one of two sentinels. The sentinels have reserved
spellings; a reference built in code may be a name with such a spelling and still differs from the
sentinel. -/

namespace FiniteAutomata

/-- The reserved references. As a destination each ends a branch without acceptance. -/
inductive Sentinel where
  | null
  | phi
deriving DecidableEq, Repr, Inhabited

/-- The reserved spelling of a sentinel. -/
def Sentinel.lexeme : Sentinel → String
  | .null => "null"
  | .phi => "\\phi"

/-- The sentinel with the given spelling. -/
def Sentinel.ofLexeme? (text : String) : Option Sentinel :=
  if text = Sentinel.null.lexeme then some .null
  else if text = Sentinel.phi.lexeme then some .phi
  else none

/-- Whether a text is the spelling of a sentinel and so names no state. -/
def isReserved (text : String) : Bool := (Sentinel.ofLexeme? text).isSome

/-- A reference to a state: a name or a sentinel. -/
inductive Ref where
  | named (name : String)
  | sentinel (s : Sentinel)
deriving DecidableEq, Repr, Inhabited

/-- A symbol of the input: a name or a sentinel, as for states. -/
abbrev Token := Ref

namespace Ref

/-- The sentinel `null`. -/
abbrev null : Ref := .sentinel .null

/-- The reference that a text stands for: reserved spellings stand for the sentinels. -/
def ofLexeme (text : String) : Ref :=
  match Sentinel.ofLexeme? text with
  | some s => .sentinel s
  | none => .named text

/-- The text of a reference. -/
def lexeme : Ref → String
  | .named name => name
  | .sentinel s => s.lexeme

/-- Whether a reference is a sentinel. -/
def isSentinel : Ref → Bool
  | .named _ => false
  | .sentinel _ => true

/-- The name, if the reference is one. -/
def name? : Ref → Option String
  | .named name => some name
  | .sentinel _ => none

end Ref

/-! ### Spellings -/

@[simp] theorem Sentinel.ofLexeme?_lexeme (s : Sentinel) : Sentinel.ofLexeme? s.lexeme = some s := by
  cases s <;> decide

theorem Sentinel.ofLexeme?_eq_some_iff {text : String} {s : Sentinel} :
    Sentinel.ofLexeme? text = some s ↔ text = s.lexeme := by
  constructor
  · intro h
    unfold Sentinel.ofLexeme? at h
    split at h
    · cases h; assumption
    · split at h
      · cases h; assumption
      · cases h
  · rintro rfl
    exact Sentinel.ofLexeme?_lexeme s

@[simp] theorem Ref.ofLexeme_sentinel (s : Sentinel) : Ref.ofLexeme s.lexeme = .sentinel s := by
  simp [Ref.ofLexeme]

theorem Ref.ofLexeme_of_not_reserved {text : String} (h : isReserved text = false) :
    Ref.ofLexeme text = .named text := by
  unfold isReserved at h
  cases hs : Sentinel.ofLexeme? text with
  | none => simp [Ref.ofLexeme, hs]
  | some s => simp [hs] at h

@[simp] theorem Ref.lexeme_ofLexeme (text : String) : (Ref.ofLexeme text).lexeme = text := by
  cases hs : Sentinel.ofLexeme? text with
  | none => simp [Ref.ofLexeme, hs, Ref.lexeme]
  | some s => simp [Ref.ofLexeme, Ref.lexeme, Sentinel.ofLexeme?_eq_some_iff.1 hs]

end FiniteAutomata
