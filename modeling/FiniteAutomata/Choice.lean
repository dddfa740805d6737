import FiniteAutomata.Decimal.Number
import FiniteAutomata.Program

/-! # Weighted choice

A destination is chosen by a draw from the unit interval, scaled to the sum of the weights. The
weights are laid one after the other in order of declaration; the draw falls into the span of the
destination that is chosen. The walk is the same for every kind of number, so that it can be studied
where arithmetic is exact. -/

namespace FiniteAutomata.Choice

variable {α ω : Type}

/-- The sum of the weights, from left to right. -/
def total [Add ω] [OfNat ω 0] (entries : List (α × ω)) : ω :=
  entries.foldl (fun sum e => sum + e.2) 0

/-- The entry into whose span a value falls; `fallback` if it lies beyond all of them. -/
def walk [Sub ω] [LT ω] [DecidableLT ω] (fallback : α) (value : ω) : List (α × ω) → α
  | [] => fallback
  | (a, weight) :: rest => if value < weight then a else walk fallback (value - weight) rest

/-- The entry that a draw chooses; one that lies beyond all spans chooses the last entry. -/
def pick? [Add ω] [OfNat ω 0] [Mul ω] [Sub ω] [LT ω] [DecidableLT ω] (entries : List (α × ω))
    (draw : ω) : Option α :=
  match entries.getLast? with
  | none => none
  | some last => some (walk last.1 (draw * total entries) entries)

/-- How many draws the choice among some entries takes: none if there is nothing to choose. -/
def draws (entries : List (α × ω)) : Nat := if 2 ≤ entries.length then 1 else 0

/-- Chooses an entry; the source is asked only if there is more than one. -/
def choose? (entries : List (α × Float)) (draw : Float) : Option α :=
  match entries with
  | [(a, _)] => some a
  | _ => pick? entries draw

/-- Why no entry is chosen: there is none, or a weight is too large for the arithmetic. -/
inductive Fault where
  | noEntry
  | tooLarge
deriving DecidableEq, Repr

/-- Chooses an entry by weights that may be exact integers. -/
def chooseExactly (entries : List (α × Decimal.Number)) (draw : Decimal.Number) : Except Fault α :=
  match entries, entries.getLast? with
  | [(a, _)], _ => .ok a
  | _, none => .error .noEntry
  | _, some last =>
    let value := draw * total entries
    match walk none value (entries.map fun e => (some e.1, e.2)),
        entries.foldl (fun rest e => rest - e.2) value with
    | some a, _ => .ok a
    | none, .tooLarge => .error .tooLarge
    | none, _ => .ok last.1

theorem choose?_isSome_iff {entries : List (α × Float)} {draw : Float} :
    (choose? entries draw).isSome ↔ entries ≠ [] := by
  unfold choose?
  split
  · simp
  · unfold pick?
    cases h : entries.getLast? with
    | none => simp [List.getLast?_eq_none_iff.1 h]
    | some last => simp only [Option.isSome_some, ne_eq, true_iff]; rintro rfl; simp at h

end FiniteAutomata.Choice
