import FiniteAutomata.Choice
import Mathlib.Algebra.Order.BigOperators.Group.List
import Mathlib.Tactic.Linarith
import Mathlib.Data.List.Nodup

/-! # Spans of a weighted choice

The weights of some entries, laid one after the other from `0` on, cut the way up to their sum into
spans: that of entry `i` goes from `bound entries i`, the sum of the weights before it, to
`bound entries (i + 1)`. Walking along the entries keeps what is left of a value once the weights
passed are taken off, so that the walk ends at the entry whose span holds the value
(`walk_of_spans`), and each value below the sum lies in a span (`exists_spans`), in only one if the
weights are positive (`Spans.unique`). So where arithmetic is exact, a choice cuts the unit interval
in proportion to the weights, and none of it is left for the fallback (`pick?_partitions`). -/

namespace FiniteAutomata.Choice

variable {α : Type} {entries : List (α × ℚ)} {i j : ℕ} {value : ℚ}

/-! ### Bounds -/

/-- Where the span of an entry begins: the sum of the weights before it. -/
def bound (entries : List (α × ℚ)) (i : ℕ) : ℚ := ((entries.take i).map Prod.snd).sum

@[simp] theorem bound_zero : bound entries 0 = 0 := by simp [bound]

@[simp] theorem bound_cons (e : α × ℚ) (entries : List (α × ℚ)) (i : ℕ) :
    bound (e :: entries) (i + 1) = e.2 + bound entries i := by
  simp [bound]

theorem bound_succ (h : i < entries.length) :
    bound entries (i + 1) = bound entries i + entries[i].2 := by
  rw [bound, List.map_take, List.sum_take_succ _ _ (by simpa using h), ← List.map_take, ← bound,
    List.getElem_map]

/-- The sum of the weights is where the last span ends. -/
theorem total_eq_bound : total entries = bound entries entries.length := by
  rw [bound, List.take_length, List.sum_eq_foldl, List.foldl_map, total]

section Positive

variable (hpos : ∀ e ∈ entries, 0 < e.2)
include hpos

theorem bound_nonneg (i : ℕ) : 0 ≤ bound entries i := by
  refine List.sum_nonneg fun w hw => ?_
  obtain ⟨e, he, rfl⟩ := List.mem_map.mp hw
  exact (hpos e (List.mem_of_mem_take he)).le

/-- Spans follow each other: one ends where the next one begins, or before. -/
theorem bound_mono (hij : i ≤ j) (hj : j ≤ entries.length) : bound entries i ≤ bound entries j := by
  induction j, hij using Nat.le_induction with
  | base => exact le_rfl
  | succ j hij ih =>
    rw [bound_succ hj]
    exact (ih (by omega)).trans (le_add_of_nonneg_right (hpos _ (List.getElem_mem hj)).le)

theorem total_pos (hne : entries ≠ []) : 0 < total entries := by
  obtain ⟨e, rest, rfl⟩ := List.exists_cons_of_ne_nil hne
  rw [total_eq_bound, List.length_cons, bound_cons]
  exact add_pos_of_pos_of_nonneg (hpos e List.mem_cons_self)
    (bound_nonneg (fun x hx => hpos x (List.mem_cons_of_mem e hx)) _)

end Positive

/-! ### Spans -/

/-- Whether a value lies in the span of an entry. -/
def Spans (entries : List (α × ℚ)) (i : ℕ) (value : ℚ) : Prop :=
  bound entries i ≤ value ∧ value < bound entries (i + 1)

/-- The first entry whose span is not passed spans what is left of the value. -/
theorem spans_cons_iff (e : α × ℚ) : Spans (e :: entries) (i + 1) value ↔
    Spans entries i (value - e.2) := by
  rw [Spans, Spans, bound_cons, bound_cons, le_sub_iff_add_le', sub_lt_iff_lt_add']

/-- Every value from `0` up to the sum of the weights lies in a span. -/
theorem exists_spans : ∀ {entries : List (α × ℚ)} {value : ℚ}, 0 ≤ value →
    value < total entries → ∃ i < entries.length, Spans entries i value
  | [], value, h0, hlt => absurd hlt (not_lt.mpr (by simpa [total] using h0))
  | e :: rest, value, h0, hlt => by
    by_cases hfirst : value < e.2
    · exact ⟨0, by simp, by simpa [Spans] using ⟨h0, hfirst⟩⟩
    · have hleft : value - e.2 < total rest := by
        rw [total_eq_bound, List.length_cons, bound_cons] at hlt
        rw [total_eq_bound]
        linarith
      obtain ⟨i, hi, hspans⟩ := exists_spans (sub_nonneg.mpr (not_lt.mp hfirst)) hleft
      exact ⟨i + 1, Nat.succ_lt_succ hi, (spans_cons_iff e).mpr hspans⟩

/-- **The walk ends at the entry whose span holds the value**, whatever the fallback. -/
theorem walk_of_spans (fallback : α) : ∀ {entries : List (α × ℚ)} {i : ℕ} {value : ℚ},
    (∀ e ∈ entries, 0 < e.2) → ∀ hi : i < entries.length, Spans entries i value →
      walk fallback value entries = entries[i].1
  | [], i, _, _, hi, _ => absurd hi (Nat.not_lt_zero i)
  | e :: rest, 0, value, _, _, h => by
    have hfirst : value < e.2 := by simpa [Spans] using h.2
    rw [walk, if_pos hfirst]
    rfl
  | e :: rest, i + 1, value, hpos, hi, h => by
    have hrest : ∀ x ∈ rest, 0 < x.2 := fun x hx => hpos x (List.mem_cons_of_mem e hx)
    have hpassed : ¬ value < e.2 := by
      have hbegins := h.1
      rw [bound_cons] at hbegins
      exact not_lt.mpr ((le_add_of_nonneg_right (bound_nonneg hrest i)).trans hbegins)
    rw [walk, if_neg hpassed]
    exact walk_of_spans fallback hrest (Nat.lt_of_succ_lt_succ hi) ((spans_cons_iff e).mp h)

/-- A larger value does not lie in an earlier span. -/
theorem Spans.le_of_le {value' : ℚ} (hpos : ∀ e ∈ entries, 0 < e.2) (hi : i < entries.length)
    (h : Spans entries i value) (h' : Spans entries j value') (hle : value ≤ value') : i ≤ j := by
  by_contra hlt
  have hends : bound entries (j + 1) ≤ bound entries i := bound_mono hpos (by omega) hi.le
  exact absurd (h.1.trans hle) (not_le.mpr (h'.2.trans_le hends))

theorem Spans.unique (hpos : ∀ e ∈ entries, 0 < e.2) (hi : i < entries.length)
    (hj : j < entries.length) (h : Spans entries i value) (h' : Spans entries j value) : i = j :=
  Nat.le_antisymm (h.le_of_le hpos hi h' le_rfl) (h'.le_of_le hpos hj h le_rfl)

/-! ### Choices -/

/-- What a draw from the unit interval is scaled to lies below the sum of the weights. -/
theorem exists_spans_of_draw {draw : ℚ} (hpos : ∀ e ∈ entries, 0 < e.2) (hne : entries ≠ [])
    (h0 : 0 ≤ draw) (h1 : draw < 1) :
    ∃ i < entries.length, Spans entries i (draw * total entries) := by
  have htotal := total_pos hpos hne
  exact exists_spans (mul_nonneg h0 htotal.le) (mul_lt_of_lt_one_left htotal h1)

/-- The entry that a draw chooses is the one whose span holds the scaled draw. -/
theorem pick?_of_spans {draw : ℚ} (hpos : ∀ e ∈ entries, 0 < e.2) (hi : i < entries.length)
    (h : Spans entries i (draw * total entries)) : pick? entries draw = some entries[i].1 := by
  unfold pick?
  split
  · next hlast =>
    rw [List.getLast?_eq_none_iff.mp hlast] at hi
    exact absurd hi (Nat.not_lt_zero i)
  · next last hlast => rw [walk_of_spans last.1 hpos hi h]

/-- Entries of a dictionary differ in their keys, so that a choice shows the entry. -/
theorem pick?_eq_some_iff {d : Dict α ℚ} {draw : ℚ} (hpos : ∀ e ∈ d.entries, 0 < e.2)
    (h0 : 0 ≤ draw) (h1 : draw < 1) (hi : i < d.entries.length) :
    pick? d.entries draw = some d.entries[i].1 ↔ Spans d.entries i (draw * total d.entries) := by
  refine ⟨fun h => ?_, pick?_of_spans hpos hi⟩
  obtain ⟨j, hj, hspans⟩ := exists_spans_of_draw hpos (List.ne_nil_of_length_pos (by omega)) h0 h1
  have hkeys : d.entries[i].1 = d.entries[j].1 :=
    Option.some.inj (h.symm.trans (pick?_of_spans hpos hj hspans))
  have hentries : d.entries[i] = d.entries[j] :=
    List.inj_on_of_nodup_map d.nodup (List.getElem_mem hi) (List.getElem_mem hj) hkeys
  have hsame : i = j := (List.Nodup.getElem_inj_iff (List.Nodup.of_map _ d.nodup)).mp hentries
  exact hsame ▸ hspans

/-- **A weighted choice cuts the unit interval in proportion to the weights.** With exact arithmetic
and positive weights, every draw from the unit interval, scaled to the sum of the weights, lies in
the span of exactly one entry; the choice falls on that entry, and the walk finds it whatever the
fallback, which is never reached. A larger draw chooses no earlier entry. The draws that choose an
entry are those of an interval whose length is the share of its weight in the sum. -/
theorem pick?_partitions {d : Dict α ℚ} (hsize : 2 ≤ d.size) (hpos : ∀ e ∈ d.entries, 0 < e.2) :
    (∀ draw, 0 ≤ draw → draw < 1 → ∃ i : Fin d.entries.length,
      (∀ j : Fin d.entries.length, Spans d.entries j (draw * total d.entries) ↔ j = i) ∧
      pick? d.entries draw = some d.entries[i].1 ∧
      ∀ fallback, walk fallback (draw * total d.entries) d.entries = d.entries[i].1) ∧
    (∀ draw draw', 0 ≤ draw → draw ≤ draw' → draw' < 1 → ∀ i j : Fin d.entries.length,
      pick? d.entries draw = some d.entries[i].1 →
      pick? d.entries draw' = some d.entries[j].1 → i ≤ j) ∧
    ∀ i : Fin d.entries.length,
      {draw | 0 ≤ draw ∧ draw < 1 ∧ pick? d.entries draw = some d.entries[i].1} =
        Set.Ico (bound d.entries i / total d.entries) (bound d.entries (i + 1) / total d.entries) ∧
      bound d.entries (i + 1) / total d.entries - bound d.entries i / total d.entries =
        d.entries[i].2 / total d.entries := by
  have hne : d.entries ≠ [] := List.ne_nil_of_length_pos (Nat.lt_of_lt_of_le two_pos hsize)
  have htotal : 0 < total d.entries := total_pos hpos hne
  refine ⟨fun draw h0 h1 => ?_, fun draw draw' h0 hle h1 i j hi hj => ?_, fun i => ⟨?_, ?_⟩⟩
  · obtain ⟨i, hi, hspans⟩ := exists_spans_of_draw hpos hne h0 h1
    refine ⟨⟨i, hi⟩, fun j => ⟨fun h => ?_, ?_⟩, pick?_of_spans hpos hi hspans, fun fallback => ?_⟩
    · exact Fin.ext (h.unique hpos j.isLt hi hspans)
    · rintro rfl
      exact hspans
    · exact walk_of_spans fallback hpos hi hspans
  · have hspans := (pick?_eq_some_iff hpos h0 (hle.trans_lt h1) i.isLt).mp hi
    have hspans' := (pick?_eq_some_iff hpos (h0.trans hle) h1 j.isLt).mp hj
    exact hspans.le_of_le hpos i.isLt hspans' (mul_le_mul_of_nonneg_right hle htotal.le)
  · ext draw
    rw [Set.mem_ofPred_eq, Set.mem_Ico, div_le_iff₀ htotal, lt_div_iff₀ htotal]
    constructor
    · rintro ⟨h0, h1, hpick⟩
      exact (pick?_eq_some_iff hpos h0 h1 i.isLt).mp hpick
    · intro hspans
      -- a draw in the span of an entry is in the unit interval
      have h0 : 0 ≤ draw :=
        nonneg_of_mul_nonneg_left ((bound_nonneg hpos i).trans hspans.1) htotal
      have hends : bound d.entries (i + 1) ≤ total d.entries :=
        total_eq_bound ▸ bound_mono hpos i.isLt le_rfl
      have h1 : draw < 1 := by
        have hlt := hspans.2.trans_le hends
        rwa [mul_lt_iff_lt_one_left htotal] at hlt
      exact ⟨h0, h1, pick?_of_spans hpos i.isLt hspans⟩
  · rw [bound_succ i.isLt, ← sub_div, add_sub_cancel_left]
    rfl

/-- Destinations of which the first one is three times as likely as the second one. -/
def threeToOne : Dict String ℚ := ⟨[("A", 3), ("B", 1)], by decide⟩

/-- At three quarters, where the first span ends, the second destination is chosen. -/
theorem pick?_partitions_threeToOne :
    2 ≤ threeToOne.size ∧ (∀ e ∈ threeToOne.entries, 0 < e.2) ∧
      pick? threeToOne.entries (3 / 4) = some "B" ∧
      {draw : ℚ | 0 ≤ draw ∧ draw < 1 ∧ pick? threeToOne.entries draw = some "A"} =
        Set.Ico 0 (3 / 4) := by
  have hsize : 2 ≤ threeToOne.size := by decide
  have hpos : ∀ e ∈ threeToOne.entries, 0 < e.2 := by decide +kernel
  have hpick : pick? threeToOne.entries (3 / 4) = some "B" := by decide +kernel
  refine ⟨hsize, hpos, hpick, ((pick?_partitions hsize hpos).2.2 ⟨0, by decide⟩).1.trans ?_⟩
  norm_num [bound, total, threeToOne]

end FiniteAutomata.Choice
