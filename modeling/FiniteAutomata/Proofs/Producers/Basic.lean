import FiniteAutomata.Diagram.Import
import FiniteAutomata.Listing.Reader
import FiniteAutomata.Proofs.Producers.Validation

/-! # Producers of programs

A program comes from a listing, from a diagram or from a draft made by hand. All three pass the same
validation, so what it establishes holds of every program that was produced
(`Produced.exists_resolves`). -/

namespace FiniteAutomata

/-- A text that gives a program gives it by the validation of what its lines have drafted. -/
theorem Listing.exists_draft_of_parse {text : String} {p : Program}
    (h : Listing.parse text = .ok p) : ∃ r : Listing.Reader,
      Listing.Reader.lines {} 1 (Text.lines text.toList) = (r, none) ∧ r.draft.Resolves p := by
  unfold Listing.parse Listing.Reader.parse at h
  rcases hr : Listing.Reader.lines {} 1 (Text.lines text.toList) with ⟨r, _ | e⟩
  · rw [hr] at h
    rcases hv : r.draft.validate with e | q
    · simp [hv, Except.mapError] at h
    · simp only [hv, Except.mapError, Except.ok.injEq] at h
      exact ⟨r, rfl, Draft.validate_eq_ok_iff.1 (h ▸ hv)⟩
  · simp [hr] at h

/-- A diagram that gives a program gives it by the validation of its draft. -/
theorem Diagram.exists_draft_of_toProgram {d : Diagram} {asked : Option String} {mode : Mode}
    {p : Program} (h : d.toProgram asked mode = .ok p) :
    ∃ draft, d.toDraft asked mode = .ok draft ∧ draft.Resolves p := by
  unfold toProgram at h
  rcases hd : d.toDraft asked mode with e | draft
  · simp [hd, bind, Except.bind, Except.mapError] at h
  · rcases hv : draft.validate with e | q
    · simp [hd, hv, bind, Except.bind, Except.mapError] at h
    · simp only [hd, hv, bind, Except.bind, Except.mapError, Except.ok.injEq] at h
      exact ⟨draft, rfl, Draft.validate_eq_ok_iff.1 (h ▸ hv)⟩

/-- A record that gives a program describes a diagram that gives it. -/
theorem Diagram.exists_diagram_of_convert {datum : Datum} {asked : Option String} {mode : Mode}
    {p : Program} (h : convert datum asked mode = .ok p) :
    ∃ d, ofDatum datum = .ok d ∧ d.toProgram asked mode = .ok p := by
  unfold convert at h
  rcases hd : ofDatum datum with e | d
  · simp [hd, bind, Except.bind, Except.mapError] at h
  · exact ⟨d, rfl, by simpa [hd, bind, Except.bind, Except.mapError] using h⟩

/-- A program that a listing, a diagram or a draft describes. -/
inductive Produced : Program → Prop where
  | parsed {text : String} {p : Program} (h : Listing.parse text = .ok p) : Produced p
  | imported {datum : Datum} {asked : Option String} {mode : Mode} {p : Program}
      (h : Diagram.convert datum asked mode = .ok p) : Produced p
  | validated {draft : Draft} {p : Program} (h : draft.validate = .ok p) : Produced p

/-- **Every program that was produced has passed validation.** -/
theorem Produced.exists_resolves {p : Program} (h : Produced p) : ∃ d : Draft, d.Resolves p := by
  cases h with
  | parsed h =>
    obtain ⟨r, -, hr⟩ := Listing.exists_draft_of_parse h
    exact ⟨_, hr⟩
  | imported h =>
    obtain ⟨d, -, hd⟩ := Diagram.exists_diagram_of_convert h
    obtain ⟨draft, -, hr⟩ := Diagram.exists_draft_of_toProgram hd
    exact ⟨draft, hr⟩
  | validated h => exact ⟨_, Draft.validate_eq_ok_iff.1 h⟩

end FiniteAutomata
