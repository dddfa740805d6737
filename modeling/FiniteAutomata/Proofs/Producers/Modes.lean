import FiniteAutomata.Proofs.Listing.Sources

/-! # Programs in other modes

Giving a program another mode changes its mode and the assignment of the mode, and a mode given
later replaces one given before (`withModes_eq`). As every other assignment resolves as before
(`Draft.Resolves.withMode`), a program that was produced is the validation of its own draft in
whatever modes it has been given (`Produced.revalidates`): what is read off its fields and what is
read off its assignments never differ. -/

namespace FiniteAutomata

/-! ### Assignments beside one that is put -/

theorem Entries.filter_put {α β : Type*} [DecidableEq α] (k : α) (v : β) : ∀ l : List (α × β),
    (put k v l).filter (·.1 ≠ k) = l.filter (·.1 ≠ k)
  | [] => by simp [put]
  | (k', v') :: l => by
    by_cases h : k' = k
    · simp [put, h]
    · simp only [put, if_neg h, List.filter_cons, filter_put k v l]

namespace Program

variable {p : Program}

theorem withMode_withMode (p : Program) (mode mode' : Mode) :
    (p.withMode mode).withMode mode' = p.withMode mode' := by simp [withMode]

/-- The program after it has been given modes one after the other. -/
def withModes (p : Program) (modes : List Mode) : Program := modes.foldl withMode p

/-- What holds of a program and is kept by giving it a mode holds after any number of modes. -/
theorem withModes_induction {motive : Program → Prop} (hp : motive p)
    (hmode : ∀ q mode, motive q → motive (q.withMode mode)) (modes : List Mode) :
    motive (p.withModes modes) := by
  induction modes generalizing p with
  | nil => exact hp
  | cons mode modes ih => exact ih (hmode p mode hp)

/-- **Only the last mode matters.** -/
theorem withModes_eq : ∀ (modes : List Mode) (p : Program),
    p.withModes modes = (modes.getLast?.map p.withMode).getD p
  | [], _ => rfl
  | [mode], _ => rfl
  | mode :: mode' :: modes, p => by
    have ih := withModes_eq (mode' :: modes) (p.withMode mode)
    rw [withModes, List.foldl_cons, ← withModes, ih, List.getLast?_cons_cons]
    rw [List.getLast?_eq_some_getLast (List.cons_ne_nil mode' modes)]
    exact withMode_withMode p mode _

/-- Two programs differ in nothing but the mode and its assignment. -/
structure SameButMode (p q : Program) : Prop where
  fields : { q with mode := p.mode, vars := p.vars } = p
  vars : q.vars.entries.filter (·.1 ≠ "mode") = p.vars.entries.filter (·.1 ≠ "mode")

theorem SameButMode.refl (p : Program) : SameButMode p p := ⟨rfl, rfl⟩

theorem SameButMode.withMode {q : Program} (h : SameButMode p q) (mode : Mode) :
    SameButMode p (q.withMode mode) :=
  ⟨h.fields, (Entries.filter_put "mode" _ q.vars.entries).trans h.vars⟩

end Program

/-- A program that was produced is the validation of its own draft. -/
theorem Produced.resolves {p : Program} (h : Produced p) : p.toDraft.Resolves p := by
  obtain ⟨d, hd⟩ := h.exists_resolves
  exact Listing.toDraft_of_resolves hd ▸ hd

/-- **Fields and assignments never drift apart.** A program that was produced, in whatever modes it
has been given one after the other, is what validating its own states, commands and assignments
gives, with the same orders. It differs from the program at first in nothing but the mode and its
assignment, and only the last mode given matters. -/
theorem Produced.revalidates {p : Program} (h : Produced p) (modes : List Mode) :
    (Draft.mk (p.withModes modes).states (p.withModes modes).commands
        (p.withModes modes).vars).validate = .ok (p.withModes modes) ∧
      p.SameButMode (p.withModes modes) ∧
      (modes = [] → p.withModes modes = p) ∧
      ∀ mode, modes.getLast? = some mode → p.withModes modes = p.withMode mode ∧
        (p.withModes modes).mode = mode ∧
        (p.withModes modes).vars.find? "mode" = some (.literal mode.text) := by
  have hresolves : (p.withModes modes).toDraft.Resolves (p.withModes modes) :=
    Program.withModes_induction (motive := fun q => q.toDraft.Resolves q) h.resolves
      (fun _ mode hq => hq.withMode mode) modes
  have hsame : p.SameButMode (p.withModes modes) :=
    Program.withModes_induction (Program.SameButMode.refl p) (fun _ mode hq => hq.withMode mode) modes
  refine ⟨Draft.validate_eq_ok_iff.mpr hresolves, hsame, ?_, fun mode hlast => ?_⟩
  · rintro rfl
    rfl
  · have hmode : p.withModes modes = p.withMode mode := by
      rw [Program.withModes_eq, hlast]
      rfl
    rw [hmode]
    exact ⟨rfl, rfl, Dict.find?_insert_self _ _ _⟩

/-- A draft that declares a token and an accept state twice, and no mode. -/
def repetitiveDraft : Draft where
  states := Dict.ofList [("a", Dict.ofList [(.named "x", Dict.ofList [(.named "a", 1)])])]
  vars := Dict.ofList
    [("lang", .array ["x", "y", "x"]), ("start", .literal "a"), ("accept", .array ["a", "a"])]

/-- The program of `repetitiveDraft`. -/
def repetitiveProgram : Program where
  alphabet := ["x", "y"]
  states := repetitiveDraft.states
  start := "a"
  accept := ["a"]
  vars := repetitiveDraft.vars
  declaresAlphabet := true

/-- The arrays of the assignments keep their repetitions, and the fields are the same again when
they are read off them. -/
theorem Produced.revalidates_repetitive :
    Produced repetitiveProgram ∧
      (Draft.mk repetitiveProgram.states ∅ (repetitiveProgram.withModes [.dfa, .nfa]).vars).validate =
        .ok (repetitiveProgram.withMode .nfa) := by
  have hvalid : repetitiveDraft.validate = .ok repetitiveProgram := rfl
  have hproduced : Produced repetitiveProgram := .validated hvalid
  obtain ⟨hvalidate, -, -, hlast⟩ := hproduced.revalidates [.dfa, .nfa]
  refine ⟨hproduced, ?_⟩
  rw [← (hlast .nfa rfl).1]
  exact hvalidate

end FiniteAutomata
