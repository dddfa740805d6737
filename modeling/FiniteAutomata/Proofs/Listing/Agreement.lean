import FiniteAutomata.Proofs.Listing.RoundTrip

/-! # Programs that agree are legible together

Programs that agree have the same assignments, commands and destination sets, only in another order,
as weights are equal if they compare as equal (`perm_of_agrees`). No part of legibility looks at the
order, so a program whose destination sets have proper weights is legible if one that agrees with it
is (`legible_of_agrees`). -/

namespace FiniteAutomata.Listing

variable {p q : Program} {d d' : Destinations} {t t' : Table}

/-- Destination sets that agree have the same entries. -/
theorem perm_of_agrees (hw : ∀ e ∈ d.entries, isWeight e.2 = true)
    (h : d.agrees (· == ·) d' = true) : d.entries.Perm d'.entries :=
  Dict.entries_perm_of_agrees h fun e he _ hv => eq_of_beq_of_isWeight (hw e he) hv

theorem isBare_of_perm (h : d.entries.Perm d'.entries) (hd : isBare d' = true) :
    isBare d = true := by
  obtain ⟨r, w, he, hw⟩ := entries_of_isBare hd
  rw [he, List.perm_singleton] at h
  rw [isBare, h]
  exact hw

theorem LegibleDestinations.of_perm (hd : LegibleDestinations d')
    (h : d.entries.Perm d'.entries) : LegibleDestinations d where
  nonempty := fun hnil => hd.nonempty (List.nil_perm.mp (hnil ▸ h))
  names := fun e he => hd.names e (h.mem_iff.mp he)
  weights := fun e he => hd.weights e (h.mem_iff.mp he)
  commaless := by
    intro hbare e he
    refine hd.commaless ?_ e (h.mem_iff.mp he)
    exact Bool.eq_false_iff.mpr fun hd' => Bool.eq_false_iff.mp hbare (isBare_of_perm h hd')

theorem LegibleTable.of_agrees (ht : LegibleTable t')
    (hw : ∀ e ∈ t.entries, ∀ x ∈ e.2.entries, isWeight x.2 = true)
    (h : Program.tablesAgree t t' = true) : LegibleTable t := by
  rintro ⟨token, d⟩ he
  obtain ⟨d', he', hd⟩ := Dict.find?_of_agrees h he
  obtain ⟨htoken, hd'⟩ := ht _ he'
  exact ⟨htoken, hd'.of_perm (perm_of_agrees (hw _ he) hd)⟩

/-- **A valid program is legible if one that agrees with it is.** -/
theorem legible_of_agrees (hp : p.Valid) (h : p.agrees q = true) (hq : q.toDraft.Legible) :
    p.toDraft.Legible := by
  obtain ⟨-, hstates, -, -, -, hcommands, hvars, -⟩ := agrees_iff.mp h
  have hkeys := Dict.keys_perm_of_agrees hstates
  have hcommands := Dict.entries_perm_of_agrees hcommands fun _ _ _ => of_decide_eq_true
  have hvars := Dict.entries_perm_of_agrees hvars fun _ _ _ => of_decide_eq_true
  refine ⟨fun e he => hq.vars e (hvars.mem_iff.mp he), ?_, ?_⟩
  · rintro ⟨state, t⟩ he
    obtain ⟨t', he', ht⟩ := Dict.find?_of_agrees hstates he
    obtain ⟨hstate, ht'⟩ := hq.states _ he'
    exact ⟨hstate, ht'.of_agrees (fun x hx => (hp.destinations _ he x hx).weights) ht⟩
  · intro e he
    obtain ⟨hk, hrest⟩ := hq.commands e (hcommands.mem_iff.mp he)
    exact ⟨hkeys.mem_iff.mpr hk, hrest⟩

end FiniteAutomata.Listing
