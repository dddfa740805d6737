/-! # Dictionaries that keep the order of first insertion

A dictionary is a list of entries without a repeated key. Inserting under a key that is present
changes the value in place; a new key goes to the end. The order of the entries is what printing
and exploration follow; two dictionaries are `Equiv` when every look-up agrees, whatever the order. -/

namespace FiniteAutomata

universe u v w

variable {α : Type u} {β : Type v} {γ : Type w}

/-! ### Lists of entries -/

namespace Entries

/-- The keys of a list of entries. -/
def keys (l : List (α × β)) : List α := l.map Prod.fst

variable [DecidableEq α]

/-- The value under a key. -/
def find? (k : α) : List (α × β) → Option β
  | [] => none
  | (k', v) :: rest => if k' = k then some v else find? k rest

/-- Puts a value under a key: in place if the key is present, else at the end. -/
def put (k : α) (v : β) : List (α × β) → List (α × β)
  | [] => [(k, v)]
  | (k', v') :: rest => if k' = k then (k, v) :: rest else (k', v') :: put k v rest

theorem find?_put (k k' : α) (v : β) (l : List (α × β)) :
    find? k' (put k v l) = if k = k' then some v else find? k' l := by
  induction l with
  | nil => by_cases h : k = k' <;> simp [put, find?, h]
  | cons e rest ih =>
    obtain ⟨k₀, v₀⟩ := e
    by_cases h₀ : k₀ = k
    · subst h₀
      by_cases h : k₀ = k' <;> simp [put, find?, h]
    · by_cases h : k₀ = k'
      · subst h
        simp [put, find?, h₀, Ne.symm h₀]
      · simp [put, find?, h₀, h, ih]

theorem keys_put (k : α) (v : β) (l : List (α × β)) :
    keys (put k v l) = if k ∈ keys l then keys l else keys l ++ [k] := by
  induction l with
  | nil => simp [put, keys]
  | cons e rest ih =>
    obtain ⟨k₀, v₀⟩ := e
    by_cases h₀ : k₀ = k
    · subst h₀
      simp [put, keys]
    · simp only [put, h₀, if_false, keys, List.map_cons, List.mem_cons] at ih ⊢
      rw [ih]
      by_cases h : k ∈ rest.map Prod.fst <;> simp [h, Ne.symm h₀]

theorem nodup_keys_put (k : α) (v : β) {l : List (α × β)} (h : (keys l).Nodup) :
    (keys (put k v l)).Nodup := by
  rw [keys_put]
  by_cases hk : k ∈ keys l
  · simpa [hk] using h
  · rw [if_neg hk, List.nodup_append]
    refine ⟨h, by simp, ?_⟩
    intro a ha b hb
    rw [List.mem_singleton] at hb
    subst hb
    exact fun e => hk (e ▸ ha)

theorem find?_eq_none_iff {k : α} {l : List (α × β)} : find? k l = none ↔ k ∉ keys l := by
  induction l with
  | nil => simp [find?, keys]
  | cons e rest ih =>
    obtain ⟨k₀, v₀⟩ := e
    by_cases h₀ : k₀ = k
    · simp [find?, keys, h₀]
    · simpa [find?, keys, h₀, Ne.symm h₀] using ih

theorem mem_of_find? {k : α} {v : β} {l : List (α × β)} (h : find? k l = some v) : (k, v) ∈ l := by
  induction l with
  | nil => simp [find?] at h
  | cons e rest ih =>
    obtain ⟨k₀, v₀⟩ := e
    by_cases h₀ : k₀ = k
    · simp only [find?, h₀, if_true, Option.some.injEq] at h
      simp [h₀, h]
    · simp only [find?, h₀, if_false] at h
      exact List.mem_cons_of_mem _ (ih h)

theorem find?_of_mem {k : α} {v : β} {l : List (α × β)} (hl : (keys l).Nodup) (h : (k, v) ∈ l) :
    find? k l = some v := by
  induction l with
  | nil => simp at h
  | cons e rest ih =>
    obtain ⟨k₀, v₀⟩ := e
    simp only [keys, List.map_cons, List.nodup_cons] at hl
    rcases List.mem_cons.1 h with h | h
    · simp only [Prod.mk.injEq] at h
      simp [find?, h.1, h.2]
    · have hk : k₀ ≠ k := fun e => hl.1 (e ▸ List.mem_map.2 ⟨(k, v), h, rfl⟩)
      simpa [find?, hk] using ih hl.2 h

end Entries

/-! ### Dictionaries -/

/-- A list of entries in order of first insertion, with no key twice. -/
structure Dict (α : Type u) (β : Type v) where
  entries : List (α × β)
  nodup : (Entries.keys entries).Nodup

namespace Dict

/-- Two dictionaries with the same entries in the same order are equal. -/
@[ext] theorem ext {d e : Dict α β} (h : d.entries = e.entries) : d = e := by
  cases d; cases e; cases h; rfl

instance [DecidableEq α] [DecidableEq β] : DecidableEq (Dict α β) := fun d e =>
  if h : d.entries = e.entries then .isTrue (Dict.ext h)
  else .isFalse fun he => h (congrArg Dict.entries he)

/-- The dictionary without entries. -/
def empty : Dict α β := ⟨[], by simp [Entries.keys]⟩

instance : EmptyCollection (Dict α β) := ⟨empty⟩

instance : Inhabited (Dict α β) := ⟨∅⟩

/-- The keys, in order of first insertion. -/
def keys (d : Dict α β) : List α := Entries.keys d.entries

/-- The values, in the order of their keys. -/
def values (d : Dict α β) : List β := d.entries.map Prod.snd

/-- The number of entries. -/
def size (d : Dict α β) : Nat := d.entries.length

/-- Whether there is no entry. -/
def isEmpty (d : Dict α β) : Bool := d.entries.isEmpty

/-- The same keys with every value changed by `f`. -/
def map (f : α → β → γ) (d : Dict α β) : Dict α γ where
  entries := d.entries.map fun e => (e.1, f e.1 e.2)
  nodup := by
    have : Entries.keys (d.entries.map fun e => (e.1, f e.1 e.2)) = Entries.keys d.entries := by
      simp [Entries.keys, Function.comp_def]
    rw [this]
    exact d.nodup

@[simp] theorem keys_empty : (∅ : Dict α β).keys = [] := rfl

variable [DecidableEq α]

/-- The value under a key. -/
def find? (d : Dict α β) (k : α) : Option β := Entries.find? k d.entries

/-- Whether a key is present. -/
def contains (d : Dict α β) (k : α) : Bool := (d.find? k).isSome

instance : Membership α (Dict α β) := ⟨fun d k => d.contains k = true⟩

instance (k : α) (d : Dict α β) : Decidable (k ∈ d) := inferInstanceAs (Decidable (_ = true))

/-- Puts a value under a key: in place if the key is present, else at the end. -/
def insert (d : Dict α β) (k : α) (v : β) : Dict α β where
  entries := Entries.put k v d.entries
  nodup := Entries.nodup_keys_put k v d.nodup

/-- Inserts entries one after the other: a key given again keeps its place and takes the new value. -/
def ofList (l : List (α × β)) : Dict α β := l.foldl (fun d e => d.insert e.1 e.2) ∅

/-- Whether both have the same keys, and at every key values related by `r`, in any order. -/
def agrees (r : β → β → Bool) (d e : Dict α β) : Bool :=
  d.size == e.size && d.entries.all fun x => (e.find? x.1).any (r x.2)

/-- Every look-up gives the same value: equality up to the order of entries. -/
def Equiv (d e : Dict α β) : Prop := ∀ k, d.find? k = e.find? k

/-! ### Look-up after each operation -/

@[simp] theorem find?_empty (k : α) : (∅ : Dict α β).find? k = none := rfl

theorem find?_insert (d : Dict α β) (k k' : α) (v : β) :
    (d.insert k v).find? k' = if k = k' then some v else d.find? k' :=
  Entries.find?_put k k' v d.entries

@[simp] theorem find?_insert_self (d : Dict α β) (k : α) (v : β) :
    (d.insert k v).find? k = some v := by simp [find?_insert]

theorem mem_iff_find? {d : Dict α β} {k : α} : k ∈ d ↔ ∃ v, d.find? k = some v :=
  Option.isSome_iff_exists

theorem mem_iff_mem_keys {d : Dict α β} {k : α} : k ∈ d ↔ k ∈ d.keys := by
  have h := Entries.find?_eq_none_iff (k := k) (l := d.entries)
  rw [← Decidable.not_iff_not, show (k ∉ d.keys) = (k ∉ Entries.keys d.entries) from rfl, ← h,
    mem_iff_find?]
  cases hf : Entries.find? k d.entries <;> simp [Dict.find?, hf]

theorem keys_insert (d : Dict α β) (k : α) (v : β) :
    (d.insert k v).keys = if k ∈ d.keys then d.keys else d.keys ++ [k] :=
  Entries.keys_put k v d.entries

theorem mem_insert {d : Dict α β} {k k' : α} {v : β} : k' ∈ d.insert k v ↔ k' = k ∨ k' ∈ d := by
  simp only [mem_iff_find?, find?_insert]
  by_cases h : k = k'
  · simp [h]
  · simp [h, Ne.symm h]

theorem find?_eq_some_iff {d : Dict α β} {k : α} {v : β} :
    d.find? k = some v ↔ (k, v) ∈ d.entries :=
  ⟨Entries.mem_of_find?, Entries.find?_of_mem d.nodup⟩

end Dict

end FiniteAutomata
