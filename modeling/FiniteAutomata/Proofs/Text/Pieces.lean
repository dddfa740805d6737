import FiniteAutomata.Proofs.Text.Trim

/-! # Splitting and putting together

Splitting at a character undoes putting pieces together with it, as long as no piece holds it
(`splitOn_append`, `splitOn_join`). Pieces that are trimmed come back when a blank follows the
character and the parts are trimmed (`map_trim_splitOn_intercalate`, `commaItems_intercalate`). -/

namespace FiniteAutomata.Text

variable {sep : Char}

/-! ### Splitting at every occurrence -/

theorem splitOn_of_not_mem : ∀ {s : List Char}, sep ∉ s → splitOn sep s = [s]
  | [], _ => rfl
  | c :: s, h => by
    rw [List.mem_cons, not_or] at h
    rw [splitOn, if_neg (Ne.symm h.1), splitOn_of_not_mem h.2]
    rfl

theorem splitOn_append : ∀ {s : List Char}, sep ∉ s → ∀ rest,
    splitOn sep (s ++ sep :: rest) = s :: splitOn sep rest
  | [], _, rest => by simp [splitOn]
  | c :: s, h, rest => by
    rw [List.mem_cons, not_or] at h
    rw [List.cons_append, splitOn, if_neg (Ne.symm h.1), splitOn_append h.2]
    rfl

/-- **Pieces come back** when they are put together with the character at which the text is split. -/
theorem splitOn_join : ∀ {pieces : List (List Char)}, pieces ≠ [] → (∀ p ∈ pieces, sep ∉ p) →
    splitOn sep (join [sep] pieces) = pieces
  | [], h, _ => absurd rfl h
  | [p], _, hp => by rw [join, splitOn_of_not_mem (hp p List.mem_cons_self)]
  | p :: q :: pieces, _, hp => by
    have ih := splitOn_join (List.cons_ne_nil q pieces) fun r hr => hp r (List.mem_cons_of_mem _ hr)
    rw [join, List.append_assoc, List.singleton_append, splitOn_append (hp p List.mem_cons_self), ih]
    exact List.cons_ne_nil q pieces

/-- A piece holds only characters of the text, and not the one it was split at. -/
theorem mem_of_mem_splitOn : ∀ {s piece : List Char}, piece ∈ splitOn sep s →
    ∀ c ∈ piece, c ∈ s ∧ c ≠ sep
  | [], piece, h, c, hc => by
    obtain rfl := List.mem_singleton.mp h
    simp at hc
  | d :: s, piece, h, c, hc => by
    have ih : ∀ p ∈ splitOn sep s, ∀ c ∈ p, c ∈ d :: s ∧ c ≠ sep := fun p hp c hc =>
      (mem_of_mem_splitOn hp c hc).imp_left (List.mem_cons_of_mem _)
    rw [splitOn] at h
    split_ifs at h with hd
    · rcases List.mem_cons.mp h with rfl | h
      · simp at hc
      · exact ih _ h c hc
    · rcases mem_consHead h with rfl | ⟨p, hp, rfl⟩ | h
      · obtain rfl := List.mem_singleton.mp hc
        exact ⟨List.mem_cons_self, hd⟩
      · rcases List.mem_cons.mp hc with rfl | hc
        · exact ⟨List.mem_cons_self, hd⟩
        · exact ih p hp c hc
      · exact ih _ h c hc

theorem length_le_of_mem_splitOn : ∀ {s piece : List Char}, piece ∈ splitOn sep s →
    piece.length ≤ s.length
  | [], piece, h => by
    obtain rfl := List.mem_singleton.mp h
    exact le_rfl
  | d :: s, piece, h => by
    rw [List.length_cons]
    rw [splitOn] at h
    split_ifs at h with hd
    · rcases List.mem_cons.mp h with rfl | h
      · exact Nat.zero_le _
      · exact (length_le_of_mem_splitOn h).trans (Nat.le_succ _)
    · rcases mem_consHead h with rfl | ⟨p, hp, rfl⟩ | h
      · exact Nat.succ_le_succ (Nat.zero_le _)
      · exact Nat.succ_le_succ (length_le_of_mem_splitOn hp)
      · exact (length_le_of_mem_splitOn h).trans (Nat.le_succ _)

/-- **Trimmed pieces come back** when they are put together with a separator and a blank. -/
theorem map_trim_splitOn_intercalate {blank : Char} (hb : isBlank blank = true)
    (hsep : blank ≠ sep) : ∀ {pieces : List (List Char)}, pieces ≠ [] →
      (∀ p ∈ pieces, trim p = p ∧ sep ∉ p) →
      (splitOn sep (List.intercalate [sep, blank] pieces)).map trim = pieces
  | [], h, _ => absurd rfl h
  | [p], _, hp => by
    obtain ⟨ht, hm⟩ := hp p List.mem_cons_self
    rw [List.intercalate_singleton, splitOn_of_not_mem hm, List.map_singleton, ht]
  | p :: q :: pieces, _, hp => by
    obtain ⟨ht, hm⟩ := hp p List.mem_cons_self
    have ih := map_trim_splitOn_intercalate hb hsep (List.cons_ne_nil q pieces)
      fun r hr => hp r (List.mem_cons_of_mem _ hr)
    have hsplit : splitOn sep (blank :: List.intercalate [sep, blank] (q :: pieces)) =
        consHead blank (splitOn sep (List.intercalate [sep, blank] (q :: pieces))) := by
      rw [splitOn, if_neg hsep]
    rw [List.intercalate_cons_cons, List.append_assoc, List.cons_append, List.singleton_append,
      splitOn_append hm, List.map_cons, ht, hsplit]
    -- the blank goes to the front of the next piece, where trimming drops it
    cases hs : splitOn sep (List.intercalate [sep, blank] (q :: pieces)) with
    | nil => exact absurd hs (splitOn_ne_nil sep _)
    | cons r rs =>
      rw [hs, List.map_cons] at ih
      rw [consHead, List.map_cons, trim_cons_blank r hb, ih]

/-! ### Items between commas -/

theorem mem_commaItems {s item : List Char} (h : item ∈ commaItems s) :
    item ≠ [] ∧ trim item = item ∧ (∀ c ∈ item, c ∈ s) ∧ ',' ∉ item := by
  simp only [commaItems, List.mem_filter, List.mem_map, Bool.not_eq_eq_eq_not, Bool.not_true,
    List.isEmpty_eq_false_iff] at h
  obtain ⟨⟨piece, hp, rfl⟩, hne⟩ := h
  refine ⟨hne, trim_trim piece, fun c hc => ?_, fun hc => ?_⟩
  · exact (mem_of_mem_splitOn hp c (mem_of_mem_trim hc)).1
  · exact (mem_of_mem_splitOn hp _ (mem_of_mem_trim hc)).2 rfl

/-- Items without commas come back from a list of them. -/
theorem commaItems_intercalate {items : List (List Char)} (h : ∀ p ∈ items, Solid p ∧ ',' ∉ p) :
    commaItems (List.intercalate [',', ' '] items) = items := by
  cases items with
  | nil => rfl
  | cons p items =>
    rw [commaItems, map_trim_splitOn_intercalate (by decide) (by decide) (List.cons_ne_nil p items)
      fun q hq => ⟨(h q hq).1.trimmed, (h q hq).2⟩, List.filter_eq_self]
    intro q hq
    simpa using (h q hq).1.nonempty

theorem mem_intercalate {glue : List Char} {c : Char} : ∀ {pieces : List (List Char)},
    c ∈ List.intercalate glue pieces → c ∈ glue ∨ ∃ p ∈ pieces, c ∈ p
  | [], h => by simp at h
  | [p], h => by
    rw [List.intercalate_singleton] at h
    exact Or.inr ⟨p, List.mem_cons_self, h⟩
  | p :: q :: pieces, h => by
    rw [List.intercalate_cons_cons, List.mem_append, List.mem_append] at h
    rcases h with (h | h) | h
    · exact Or.inr ⟨p, List.mem_cons_self, h⟩
    · exact Or.inl h
    · exact (mem_intercalate h).imp_right fun ⟨r, hr, hc⟩ => ⟨r, List.mem_cons_of_mem _ hr, hc⟩

/-- Pieces without line breaks are joined by a glue without line breaks. -/
theorem unbroken_intercalate {glue : List Char} {pieces : List (List Char)} (hg : Unbroken glue)
    (hp : ∀ p ∈ pieces, Unbroken p) : Unbroken (List.intercalate glue pieces) := by
  intro c hc
  rcases mem_intercalate hc with hc | ⟨p, hmem, hc⟩
  · exact hg c hc
  · exact hp p hmem c hc

/-! ### Splitting at the first occurrence -/

theorem splitFirst?_append : ∀ {s : List Char}, sep ∉ s → ∀ rest,
    splitFirst? sep (s ++ sep :: rest) = some (s, rest)
  | [], _, rest => by simp [splitFirst?]
  | c :: s, h, rest => by
    rw [List.mem_cons, not_or] at h
    rw [List.cons_append, splitFirst?, if_neg (Ne.symm h.1), splitFirst?_append h.2]
    rfl

theorem eq_of_splitFirst? : ∀ {s left right : List Char},
    splitFirst? sep s = some (left, right) → s = left ++ sep :: right ∧ sep ∉ left
  | [], left, right, h => by simp [splitFirst?] at h
  | c :: s, left, right, h => by
    rw [splitFirst?] at h
    split_ifs at h with hc
    · simp only [Option.some.injEq, Prod.mk.injEq] at h
      obtain ⟨rfl, rfl⟩ := h
      simp [hc]
    · obtain ⟨⟨l, r⟩, hp, he⟩ := Option.map_eq_some_iff.mp h
      obtain ⟨rfl, rfl⟩ := Prod.mk.inj he
      obtain ⟨rfl, hm⟩ := eq_of_splitFirst? hp
      exact ⟨rfl, by simpa [Ne.symm hc] using hm⟩

end FiniteAutomata.Text
