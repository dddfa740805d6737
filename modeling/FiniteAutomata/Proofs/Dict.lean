import FiniteAutomata.Dict
import Mathlib.Data.List.Nodup
import Mathlib.Data.List.Perm.Subperm
import Mathlib.Logic.Embedding.Basic
import Mathlib.Tactic.SplitIfs

/-! # Filling and comparing dictionaries

Inserting entries with new keys one after the other puts them at the end (`entries_insertAll`), so a
dictionary is filled again by its own entries (`insertAll_entries`); keys that are inserted again
stay where they came first (`keys_insert_of_eraseDups`). Dictionaries agree exactly if they have the
same keys up to order and related values under each of them (`keys_perm_of_agrees`,
`find?_of_agrees`, `agrees_of_keys_perm`). Keys that stay different under other names find what they
found (`find?_mapKeys`). -/

namespace FiniteAutomata

universe u v w x

variable {α : Type u} {β : Type v} [DecidableEq α]

theorem Entries.put_of_not_mem {k : α} (v : β) : ∀ {l : List (α × β)}, k ∉ keys l →
    put k v l = l ++ [(k, v)]
  | [], _ => rfl
  | (k', v') :: l, h => by
    simp only [keys, List.map_cons, List.mem_cons, not_or] at h
    rw [put, if_neg (Ne.symm h.1), put_of_not_mem v h.2, List.cons_append]

theorem Entries.put_put (k : α) (v w : β) (l : List (α × β)) :
    put k w (put k v l) = put k w l := by
  induction l with
  | nil => simp [put]
  | cons e l ih =>
    obtain ⟨k', v'⟩ := e
    by_cases h : k' = k
    · simp [put, h]
    · simp [put, h, ih]

theorem Entries.put_of_find? {k : α} {v : β} : ∀ {l : List (α × β)}, find? k l = some v →
    put k v l = l
  | [], h => by simp [find?] at h
  | (k', v') :: l, h => by
    rw [find?] at h
    split_ifs at h with hk
    · obtain rfl := Option.some.inj h
      rw [put, if_pos hk, hk]
    · rw [put, if_neg hk, put_of_find? h]

theorem Entries.find?_append (k : α) : ∀ l l' : List (α × β),
    find? k (l ++ l') = (find? k l).or (find? k l')
  | [], _ => rfl
  | (k', v) :: l, l' => by
    by_cases h : k' = k
    · simp [find?, h]
    · simpa [find?, h] using find?_append k l l'

/-- Keeping the entries with some keys keeps what is under these keys. -/
theorem Entries.find?_filter_key (k : α) (keep : α → Bool) : ∀ l : List (α × β),
    find? k (l.filter fun e => keep e.1) = if keep k then find? k l else none
  | [] => by simp [find?]
  | (k', v) :: l => by
    rw [List.filter_cons]
    by_cases h : k' = k
    · subst h
      cases hk : keep k' <;> simp [find?, hk, find?_filter_key k' keep l]
    · cases keep k' <;> simp [find?, h, find?_filter_key k keep l]

/-- Under the new name of a key stands what its value became, if no other key has the same new
name. -/
theorem Entries.find?_map {γ : Type w} {δ : Type x} [DecidableEq γ] {key : α → γ}
    (value : α → β → δ) {k : α} : ∀ {l : List (α × β)}, (∀ e ∈ l, key e.1 = key k → e.1 = k) →
      find? (key k) (l.map fun e => (key e.1, value e.1 e.2)) = (find? k l).map (value k)
  | [], _ => rfl
  | (k', v) :: l, h => by
    rw [List.forall_mem_cons] at h
    by_cases hk : k' = k
    · simp [find?, hk]
    · simp [find?, hk, mt h.1 hk, find?_map value h.2]

theorem Entries.find?_map_values {γ : Type w} (f : α → β → γ) (k : α) (l : List (α × β)) :
    find? k (l.map fun e => (e.1, f e.1 e.2)) = (find? k l).map (f k) :=
  find?_map f fun e _ (h : id e.1 = id k) => h

theorem Entries.find?_map_keys {γ : Type w} [DecidableEq γ] (f : α ↪ γ) (k : α)
    (l : List (α × β)) : find? (f k) (l.map fun e => (f e.1, e.2)) = find? k l :=
  (find?_map (fun _ v => v) fun _ _ h => f.injective h).trans Option.map_id'

namespace Dict

variable {d e : Dict α β}

/-! ### Inserting -/

theorem entries_insert_of_not_mem {k : α} (v : β) (h : k ∉ d.keys) :
    (d.insert k v).entries = d.entries ++ [(k, v)] := Entries.put_of_not_mem v h

/-- Inserting under a key replaces the value under it and keeps the others. -/
theorem mem_entries_insert {k k' : α} {v v' : β} :
    (k', v') ∈ (d.insert k v).entries ↔ k' = k ∧ v' = v ∨ k' ≠ k ∧ (k', v') ∈ d.entries := by
  rw [← find?_eq_some_iff, find?_insert, ← find?_eq_some_iff]
  by_cases hk : k = k'
  · simp [hk, eq_comm]
  · simp [hk, Ne.symm hk]

/-- A value put under a key replaces the one that was put there before. -/
@[simp] theorem insert_insert (d : Dict α β) (k : α) (v w : β) :
    (d.insert k v).insert k w = d.insert k w := Dict.ext (Entries.put_put k v w d.entries)

/-- Putting the value again that stands under a key changes nothing. -/
theorem insert_of_find? {k : α} {v : β} (h : d.find? k = some v) : d.insert k v = d :=
  Dict.ext (Entries.put_of_find? h)

/-- The dictionary after inserting entries one after the other. -/
def insertAll (d : Dict α β) (l : List (α × β)) : Dict α β :=
  l.foldl (fun d e => d.insert e.1 e.2) d

@[simp] theorem insertAll_nil : d.insertAll [] = d := rfl

@[simp] theorem insertAll_cons (e : α × β) (l : List (α × β)) :
    d.insertAll (e :: l) = (d.insert e.1 e.2).insertAll l := rfl

/-- What is found after inserting entries is one of them or was there before. -/
theorem mem_of_mem_insertAll {e : α × β} : ∀ {l : List (α × β)} {d : Dict α β},
    e ∈ (d.insertAll l).entries → e ∈ l ∨ e ∈ d.entries
  | [], _, h => Or.inr h
  | x :: l, d, h => by
    rw [insertAll_cons] at h
    rcases mem_of_mem_insertAll h with h | h
    · exact Or.inl (List.mem_cons_of_mem _ h)
    · rcases mem_entries_insert.mp h with ⟨hk, hv⟩ | ⟨-, h⟩
      · exact Or.inl (List.mem_cons.mpr (Or.inl (Prod.ext hk hv)))
      · exact Or.inr h

/-- The entries of a dictionary made from a list are among those of the list. -/
theorem mem_of_mem_ofList {e : α × β} {l : List (α × β)} (h : e ∈ (ofList l).entries) : e ∈ l :=
  (mem_of_mem_insertAll h).resolve_right List.not_mem_nil

/-- Entries with new keys go to the end, in order. -/
theorem entries_insertAll : ∀ {l : List (α × β)} {d : Dict α β},
    (d.keys ++ Entries.keys l).Nodup → (d.insertAll l).entries = d.entries ++ l
  | [], d, _ => by simp
  | (k, v) :: l, d, h => by
    have hk : k ∉ d.keys := by
      intro hk
      exact (List.disjoint_of_nodup_append h) hk (by simp [Entries.keys])
    rw [insertAll_cons, entries_insertAll, entries_insert_of_not_mem v hk, List.append_assoc,
      List.singleton_append]
    rw [keys_insert, if_neg hk, List.append_assoc]
    simpa [Entries.keys] using h

/-- Inserting entries puts them into the list of entries, one after the other. -/
theorem entries_insertAll_eq_foldl (d : Dict α β) (l : List (α × β)) :
    (d.insertAll l).entries = l.foldl (fun es e => Entries.put e.1 e.2 es) d.entries :=
  (List.foldl_hom Dict.entries fun _ _ => rfl).symm

/-- Under a key stands what was inserted under it, or else what stood there before. -/
theorem find?_insertAll {k : α} : ∀ {l : List (α × β)} {d : Dict α β}, (Entries.keys l).Nodup →
    (d.insertAll l).find? k = (Entries.find? k l).or (d.find? k)
  | [], _, _ => rfl
  | (k', v) :: l, d, h => by
    rw [Entries.keys, List.map_cons, List.nodup_cons] at h
    rw [insertAll_cons, find?_insertAll h.2, find?_insert]
    by_cases hk : k' = k
    · subst hk
      simp [Entries.find?, Entries.find?_eq_none_iff.mpr h.1]
    · simp [Entries.find?, hk]

/-- The keys after inserting entries are theirs and those that were there before. -/
theorem mem_keys_insertAll {k : α} : ∀ {l : List (α × β)} {d : Dict α β},
    k ∈ (d.insertAll l).keys ↔ k ∈ Entries.keys l ∨ k ∈ d.keys
  | [], d => by simp [Entries.keys]
  | (k', v) :: l, d => by
    have hkeys : k ∈ Entries.keys ((k', v) :: l) ↔ k = k' ∨ k ∈ Entries.keys l := List.mem_cons
    rw [insertAll_cons, mem_keys_insertAll, ← mem_iff_mem_keys, mem_insert, mem_iff_mem_keys, hkeys,
      or_left_comm, or_assoc]

/-- A dictionary is filled again by its own entries. -/
@[simp] theorem insertAll_entries (d : Dict α β) : (∅ : Dict α β).insertAll d.entries = d := by
  refine Dict.ext ?_
  rw [entries_insertAll (by simpa using d.nodup)]
  rfl

/-- Inserting under one key after the other leaves each where it comes first. -/
theorem keys_insert_of_eraseDups {l : List α} (h : d.keys = l.eraseDups) (k : α) (v : β) :
    (d.insert k v).keys = (l ++ [k]).eraseDups := by
  rw [keys_insert, h, List.eraseDups_append, List.removeAll, List.filter_singleton]
  by_cases hk : k ∈ l <;> simp [hk, List.eraseDups_cons]

/-! ### Looking up along a list of keys -/

theorem filterMap_find?_entries : ∀ {l : List α} {es : List (α × β)},
    (Entries.keys es).Sublist l → l.Nodup →
      (l.filterMap fun k => (Entries.find? k es).map fun v => (k, v)) = es
  | [], es, h, _ => by
    have : es = [] := by simpa [Entries.keys] using List.eq_nil_of_sublist_nil h
    simp [this]
  | a :: l, es, h, hl => by
    obtain ⟨ha, hn⟩ := List.nodup_cons.mp hl
    cases es with
    | nil => simp [Entries.find?]
    | cons e es =>
      obtain ⟨k, v⟩ := e
      rw [Entries.keys, List.map_cons] at h
      rcases List.sublist_cons_iff.mp h with h | ⟨rest, hr, hsub⟩
      · have hnone : Entries.find? a ((k, v) :: es) = none :=
          Entries.find?_eq_none_iff.mpr fun hm => ha (h.subset hm)
        rw [List.filterMap_cons, hnone]
        exact filterMap_find?_entries h hn
      · obtain ⟨rfl, rfl⟩ := List.cons.inj hr
        have hsome : Entries.find? k ((k, v) :: es) = some v := by simp [Entries.find?]
        rw [List.filterMap_cons, hsome]
        refine congrArg ((k, v) :: ·) ?_
        rw [← filterMap_find?_entries hsub hn]
        refine List.filterMap_congr fun k' hk' => ?_
        have hne : k ≠ k' := by
          rintro rfl
          exact ha hk'
        rw [Entries.find?, if_neg hne, filterMap_find?_entries hsub hn]

/-- **Looking up every key of a list in order** gives the entries of a dictionary, if its keys stand
in the order of the list. -/
theorem filterMap_find? {l : List α} (h : d.keys.Sublist l) (hl : l.Nodup) :
    (l.filterMap fun k => (d.find? k).map fun v => (k, v)) = d.entries :=
  filterMap_find?_entries h hl

/-- Looking up every key of a list finds entries under those keys that are present. -/
theorem keys_filterMap_find? (d : Dict α β) : ∀ l : List α,
    Entries.keys (l.filterMap fun k => (d.find? k).map fun v => (k, v)) = l.filter (· ∈ d)
  | [] => rfl
  | k :: l => by
    have ih := keys_filterMap_find? d l
    cases h : d.find? k with
    | none =>
      have hk : k ∉ d := by simp [mem_iff_find?, h]
      simpa [List.filterMap_cons, h, hk] using ih
    | some v =>
      have hk : k ∈ d := mem_iff_find?.mpr ⟨v, h⟩
      simpa [List.filterMap_cons, h, hk, Entries.keys] using ih

/-! ### Agreement -/

variable {r : β → β → Bool}

omit [DecidableEq α] in
theorem length_keys (d : Dict α β) : d.keys.length = d.size := by simp [keys, Entries.keys, size]

theorem find?_of_agrees (h : d.agrees r e = true) {k : α} {v : β} (hv : (k, v) ∈ d.entries) :
    ∃ v', (k, v') ∈ e.entries ∧ r v v' = true := by
  rw [agrees, Bool.and_eq_true, List.all_eq_true] at h
  obtain ⟨v', hv', hr⟩ := (Option.any_eq_true _ _).mp (h.2 _ hv)
  exact ⟨v', find?_eq_some_iff.mp hv', hr⟩

theorem size_of_agrees (h : d.agrees r e = true) : d.size = e.size := by
  rw [agrees, Bool.and_eq_true, beq_iff_eq] at h
  exact h.1

/-- **Dictionaries that agree have the same keys**, up to order. -/
theorem keys_perm_of_agrees (h : d.agrees r e = true) : d.keys.Perm e.keys := by
  have hsub : d.keys ⊆ e.keys := by
    intro k hk
    obtain ⟨⟨k', v⟩, hv, rfl⟩ := List.mem_map.mp hk
    obtain ⟨v', hv', -⟩ := find?_of_agrees h hv
    exact List.mem_map.mpr ⟨_, hv', rfl⟩
  have hn : d.keys.Nodup := d.nodup
  refine (hn.subperm hsub).perm_of_length_le ?_
  rw [length_keys, length_keys]
  exact Nat.le_of_eq (size_of_agrees h).symm

/-- Dictionaries that agree have the same entries, up to order, if only equal values agree. -/
theorem entries_perm_of_agrees (h : d.agrees r e = true)
    (hr : ∀ x ∈ d.entries, ∀ v, r x.2 v = true → x.2 = v) : d.entries.Perm e.entries := by
  have hsub : d.entries ⊆ e.entries := by
    rintro ⟨k, v⟩ hv
    obtain ⟨v', hv', hrv⟩ := find?_of_agrees h hv
    obtain rfl : v = v' := hr _ hv _ hrv
    exact hv'
  have hn : d.entries.Nodup := List.Nodup.of_map _ d.nodup
  refine (hn.subperm hsub).perm_of_length_le ?_
  exact Nat.le_of_eq (size_of_agrees h).symm

/-- Dictionaries with the same entries up to order agree, if values agree with themselves. -/
theorem agrees_of_entries_perm (h : d.entries.Perm e.entries)
    (hr : ∀ x ∈ d.entries, r x.2 x.2 = true) : d.agrees r e = true := by
  rw [agrees, Bool.and_eq_true, beq_iff_eq, List.all_eq_true]
  refine ⟨h.length_eq, fun x hx => ?_⟩
  rw [find?_eq_some_iff.mpr (h.mem_iff.mp hx)]
  exact hr x hx

/-- Dictionaries with the same keys up to order agree, if the values under each are related. -/
theorem agrees_of_keys_perm (h : d.keys.Perm e.keys)
    (hr : ∀ k v v', d.find? k = some v → e.find? k = some v' → r v v' = true) :
    d.agrees r e = true := by
  rw [agrees, Bool.and_eq_true, beq_iff_eq, List.all_eq_true]
  refine ⟨by rw [← length_keys, ← length_keys, h.length_eq], fun x hx => ?_⟩
  have hmem : x.1 ∈ e := mem_iff_mem_keys.mpr (h.mem_iff.mp (List.mem_map_of_mem hx))
  obtain ⟨v', hv'⟩ := mem_iff_find?.mp hmem
  rw [hv']
  exact hr x.1 x.2 v' (find?_eq_some_iff.mpr hx) hv'

/-- Dictionaries agree alike under relations that are the same on their values. -/
theorem agrees_congr {r' : β → β → Bool}
    (h : ∀ k v v', (k, v) ∈ d.entries → (k, v') ∈ e.entries → r v v' = r' v v') :
    d.agrees r e = d.agrees r' e := by
  rw [agrees, agrees, Bool.eq_iff_iff, Bool.and_eq_true, Bool.and_eq_true, List.all_eq_true,
    List.all_eq_true]
  refine and_congr_right fun _ => forall₂_congr fun x hx => ?_
  cases hf : e.find? x.1 with
  | none => rfl
  | some v' => rw [Option.any_some, Option.any_some, h x.1 x.2 v' hx (find?_eq_some_iff.mp hf)]

theorem agrees_self (h : ∀ x ∈ d.entries, r x.2 x.2 = true) : d.agrees r d = true :=
  agrees_of_entries_perm (List.Perm.refl _) h

/-! ### Other values and other keys -/

section Map

variable {γ : Type w} (d : Dict α β)

omit [DecidableEq α] in
@[simp] theorem keys_map (f : α → β → γ) : (d.map f).keys = d.keys := by
  simp [keys, Entries.keys, map, Function.comp_def]

theorem find?_map (f : α → β → γ) (k : α) : (d.map f).find? k = (d.find? k).map (f k) :=
  Entries.find?_map_values f k d.entries

omit [DecidableEq α] in
theorem forall_mem_map {f : α → β → γ} {P : α × γ → Prop} :
    (∀ e ∈ (d.map f).entries, P e) ↔ ∀ e ∈ d.entries, P (e.1, f e.1 e.2) := List.forall_mem_map

variable (f : α ↪ γ)

omit [DecidableEq α] in
/-- The same values under other keys. -/
def mapKeys : Dict γ β where
  entries := d.entries.map fun e => (f e.1, e.2)
  nodup := by
    have hkeys : Entries.keys (d.entries.map fun e => (f e.1, e.2)) = d.keys.map f := by
      simp [keys, Entries.keys, Function.comp_def]
    rw [hkeys]
    exact d.nodup.map f.injective

omit [DecidableEq α] in
@[simp] theorem keys_mapKeys : (d.mapKeys f).keys = d.keys.map f := by
  simp [keys, Entries.keys, mapKeys, Function.comp_def]

omit [DecidableEq α] in
theorem forall_mem_mapKeys {P : γ × β → Prop} :
    (∀ e ∈ (d.mapKeys f).entries, P e) ↔ ∀ e ∈ d.entries, P (f e.1, e.2) := List.forall_mem_map

/-- **Under the other keys stands what stood under the keys.** -/
theorem find?_mapKeys [DecidableEq γ] (k : α) : (d.mapKeys f).find? (f k) = d.find? k :=
  Entries.find?_map_keys f k d.entries

theorem mem_mapKeys [DecidableEq γ] {k : α} : f k ∈ d.mapKeys f ↔ k ∈ d := by
  rw [mem_iff_find?, mem_iff_find?, find?_mapKeys]

end Map

end Dict

end FiniteAutomata
