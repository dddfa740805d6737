import FiniteAutomata.Options.Reader
import FiniteAutomata.Proofs.Dict

/-! # Options follow what is given

Options are made from fields exactly if every field names an option and every entry can be
converted; each option then has the value that its entry is converted to, or its default
(`ofFields_eq_ok_iff`). One entry is read twice: before anything is converted, `quiet` is set if
`extra_quiet` counts as true. A word for false counts as true, since it is not empty, so one of
three things makes options quiet (`quiet_iff`).

A conversion leaves converted values as they are (`reading_idempotent`). So a merge converts the
fields that are put over the options and keeps the other options, but for `quiet`
(`settled_of_merged`), over any number of merges it is the latest field that counts
(`settled_of_mergedAll`), and a merge done again changes nothing (`merged_again`). -/

namespace FiniteAutomata

/-! ### Conversions -/

namespace Checked

variable {α β : Type}

theorem ap_eq_ok_iff {f : Checked (α → β)} {x : Checked α} {b : β} :
    ap f x = .ok b ↔ ∃ g a, f = .ok g ∧ x = .ok a ∧ g a = b := by
  cases f <;> cases x <;> simp [ap]

theorem map_eq_ok_iff {x : Checked α} {f : α → β} {b : β} :
    x.map f = .ok b ↔ ∃ a, x = .ok a ∧ f a = b := by
  cases x <;> simp [Except.map]

theorem under_eq_ok_iff {x : Checked α} {step : PathStep} {a : α} :
    x.under step = .ok a ↔ x = .ok a := by
  cases x <;> simp [under, Except.mapError]

theorem lenientBool_int {n : Int} {b : Bool} (h : lenientBool (.int n) = .ok b) :
    n = if b then 1 else 0 := by
  rw [lenientBool, boolOfInt] at h
  split_ifs at h with h0 h1
  · obtain rfl := Except.ok.inj h
    exact h0
  · obtain rfl := Except.ok.inj h
    exact h1
  all_goals cases h

theorem lenientBool_float {x : Float} {b : Bool} (h : lenientBool (.float x) = .ok b) :
    (x == 0) = !b := by
  rw [lenientBool, boolOfFloat] at h
  split_ifs at h with h0 h1
  · obtain rfl := Except.ok.inj h
    exact h0
  · obtain rfl := Except.ok.inj h
    simpa using h0
  all_goals cases h

theorem lenientBool_text {word : String} {b : Bool} (h : lenientBool (.text word) = .ok b) :
    wordValue? word = some b := by
  rw [lenientBool] at h
  cases hword : wordValue? word with
  | none =>
    rw [hword] at h
    cases h
  | some b' =>
    rw [hword] at h
    exact congrArg some (Except.ok.inj h)

/-- **Counting as true and reading as true** are the same for a value that reads as a truth value,
but for the words for false. -/
theorem isTruthy_iff_of_lenientBool {d : Datum} {b : Bool} (h : lenientBool d = .ok b) :
    d.isTruthy = true ↔ b = true ∨ ∃ word, d = .text word ∧ wordValue? word = some false := by
  cases d with
  | bool b' =>
    obtain rfl : b' = b := Except.ok.inj h
    simp [Datum.isTruthy]
  | int n =>
    rw [lenientBool_int h]
    cases b <;> simp [Datum.isTruthy]
  | float x =>
    have hzero := lenientBool_float h
    cases b <;> simp_all [Datum.isTruthy, bne]
  | text word =>
    have hword := lenientBool_text h
    have hempty : wordValue? "" = none := by decide +kernel
    have htruthy : (Datum.text word).isTruthy = true := by
      by_contra hnot
      obtain rfl : word = "" := by simpa [Datum.isTruthy] using hnot
      rw [hempty] at hword
      cases hword
    cases b <;> simp [htruthy, hword]
  | null => cases h
  | list items => cases h
  | object fields => cases h

end Checked

/-- Whether a value is nothing. -/
def Datum.isNull : Datum → Bool
  | .null => true
  | _ => false

namespace Options

open Checked

variable {given fields : List (String × Datum)} {o o' : Options} {name : String}
variable {d d' before : Datum}

/-- The value of an option, by its name. -/
def value (o : Options) (name : String) : Datum := (Entries.find? name o.toFields).getD .null

/-- What a value given for an option is converted to. -/
def reading (name : String) (d : Datum) : Checked Datum :=
  if name = "max_steps" then (lenientPositive d).map fun n : Nat => .int n
  else if name = "seed" then (lenientInt? d).map fun n => (n.map Datum.int).getD .null
  else (lenientBool d).map .bool

/-- What an option comes to: what is given for it is converted, and without it nothing changes. -/
def settled (name : String) (before : Datum) : Option Datum → Checked Datum
  | some d => reading name d
  | none => .ok before

/-- **Converting once more** changes nothing. -/
theorem reading_idempotent (h : reading name d = .ok d') : reading name d' = .ok d' := by
  unfold reading at h ⊢
  split_ifs at h ⊢
  · obtain ⟨n, hn, rfl⟩ := map_eq_ok_iff.mp h
    have hpos : 0 < n := by
      unfold lenientPositive at hn
      split at hn
      · split_ifs at hn with hm
        · obtain rfl := Except.ok.inj hn
          omega
        · cases hn
      · cases hn
    simp [lenientPositive, lenientInt, hpos, Except.map]
  · obtain ⟨n, -, rfl⟩ := map_eq_ok_iff.mp h
    cases n <;> rfl
  · obtain ⟨b, -, rfl⟩ := map_eq_ok_iff.mp h
    rfl

/-! ### Options from fields -/

theorem fieldOr_eq_ok_iff {α : Type} {check : Datum → Checked α} {shown : α → Datum} {absent a : α}
    (hshown : Function.Injective shown) (hread : ∀ d, reading name d = (check d).map shown) :
    fieldOr (.ok absent) name check fields = .ok a ↔
      settled name (shown absent) (Entries.find? name fields) = .ok (shown a) := by
  rw [fieldOr, under_eq_ok_iff]
  cases Entries.find? name fields with
  | none => simp [settled, hshown.eq_iff]
  | some d => simp [settled, hread, map_eq_ok_iff, hshown.eq_iff]

theorem flag_eq_ok_iff {b : Bool} (hsteps : name ≠ "max_steps") (hseed : name ≠ "seed") :
    fieldOr (.ok false) name lenientBool fields = .ok b ↔
      settled name (.bool false) (Entries.find? name fields) = .ok (.bool b) :=
  fieldOr_eq_ok_iff (fun _ _ h => Datum.bool.inj h)
    fun d => by rw [reading, if_neg hsteps, if_neg hseed]

theorem maxSteps_eq_ok_iff {n : Nat} :
    fieldOr (.ok 10000) "max_steps" lenientPositive fields = .ok n ↔
      settled "max_steps" (.int 10000) (Entries.find? "max_steps" fields) = .ok (.int n) := by
  have hshown : Function.Injective fun n : Nat => Datum.int n := fun _ _ h =>
    Int.ofNat.inj (Datum.int.inj h)
  exact fieldOr_eq_ok_iff hshown fun _ => rfl

theorem seed_eq_ok_iff {n : Option Int} :
    fieldOr (.ok none) "seed" lenientInt? fields = .ok n ↔
      settled "seed" .null (Entries.find? "seed" fields) = .ok ((n.map Datum.int).getD .null) := by
  have hshown : Function.Injective fun n : Option Int => (n.map Datum.int).getD .null := by
    rintro (_ | n) (_ | m) h <;> simp_all
  exact fieldOr_eq_ok_iff hshown fun _ => rfl

theorem onlyKnown_eq_ok_iff :
    onlyKnown fields = .ok () ↔ ∀ name ∈ Entries.keys fields, name ∈ names := by
  have hiff : (Entries.keys fields).filter (· ∉ names) = [] ↔
      ∀ name ∈ Entries.keys fields, name ∈ names := by simp
  rw [← hiff, onlyKnown, ← Entries.keys]
  cases (Entries.keys fields).filter (· ∉ names) <;> simp

/-- Options are read part by part. -/
theorem ofFields_eq_ok_iff_parts : ofFields given = .ok o ↔
    fieldOr (.ok false) "ignore_lang_check" lenientBool (implyQuiet given) = .ok o.ignoreAlphabet ∧
    fieldOr (.ok 10000) "max_steps" lenientPositive (implyQuiet given) = .ok o.maxSteps ∧
    fieldOr (.ok false) "auto_null" lenientBool (implyQuiet given) = .ok o.autoNull ∧
    fieldOr (.ok false) "term_on_accept" lenientBool (implyQuiet given) = .ok o.stopOnAccept ∧
    fieldOr (.ok false) "quiet" lenientBool (implyQuiet given) = .ok o.quiet ∧
    fieldOr (.ok false) "extra_quiet" lenientBool (implyQuiet given) = .ok o.extraQuiet ∧
    fieldOr (.ok none) "seed" lenientInt? (implyQuiet given) = .ok o.seed ∧
    onlyKnown (implyQuiet given) = .ok () := by
  constructor
  · intro h
    obtain ⟨_, _, h₇, hknown, rfl⟩ := ap_eq_ok_iff.mp h
    obtain ⟨_, _, h₆, hseed, rfl⟩ := ap_eq_ok_iff.mp h₇
    obtain ⟨_, _, h₅, hextra, rfl⟩ := ap_eq_ok_iff.mp h₆
    obtain ⟨_, _, h₄, hquiet, rfl⟩ := ap_eq_ok_iff.mp h₅
    obtain ⟨_, _, h₃, hstop, rfl⟩ := ap_eq_ok_iff.mp h₄
    obtain ⟨_, _, h₂, hnull, rfl⟩ := ap_eq_ok_iff.mp h₃
    obtain ⟨_, _, h₁, hsteps, rfl⟩ := ap_eq_ok_iff.mp h₂
    obtain ⟨_, _, h₀, hignore, rfl⟩ := ap_eq_ok_iff.mp h₁
    obtain rfl := Except.ok.inj h₀
    exact ⟨hignore, hsteps, hnull, hstop, hquiet, hextra, hseed, hknown⟩
  · rintro ⟨hignore, hsteps, hnull, hstop, hquiet, hextra, hseed, hknown⟩
    simp [ofFields, ap, hignore, hsteps, hnull, hstop, hquiet, hextra, hseed, hknown]

theorem known_implyQuiet_iff : (∀ name ∈ Entries.keys (implyQuiet fields), name ∈ names) ↔
    ∀ name ∈ Entries.keys fields, name ∈ names := by
  have hmem : "quiet" ∈ names := by decide
  unfold implyQuiet
  split_ifs
  · rw [Entries.keys_put]
    split_ifs
    · rfl
    · rw [List.forall_mem_append, List.forall_mem_singleton]
      exact and_iff_left hmem
  · rfl

/-- **Options are made from fields** exactly if each field names an option and each option is what
its entry is converted to, or its default. -/
theorem ofFields_eq_ok_iff : ofFields given = .ok o ↔
    (∀ name ∈ Entries.keys given, name ∈ names) ∧
      ∀ name ∈ names, settled name (({} : Options).value name)
        (Entries.find? name (implyQuiet given)) = .ok (o.value name) := by
  rw [ofFields_eq_ok_iff_parts, flag_eq_ok_iff (by decide) (by decide), maxSteps_eq_ok_iff,
    flag_eq_ok_iff (by decide) (by decide), flag_eq_ok_iff (by decide) (by decide),
    flag_eq_ok_iff (by decide) (by decide), flag_eq_ok_iff (by decide) (by decide),
    seed_eq_ok_iff, onlyKnown_eq_ok_iff, known_implyQuiet_iff]
  constructor
  · rintro ⟨hignore, hsteps, hnull, hstop, hquiet, hextra, hseed, hknown⟩
    refine ⟨hknown, ?_⟩
    simp only [names, List.forall_mem_cons]
    exact ⟨hignore, hsteps, hnull, hstop, hquiet, hextra, hseed, by simp⟩
  · rintro ⟨hknown, h⟩
    simp only [names, List.forall_mem_cons] at h
    obtain ⟨hignore, hsteps, hnull, hstop, hquiet, hextra, hseed, -⟩ := h
    exact ⟨hignore, hsteps, hnull, hstop, hquiet, hextra, hseed, hknown⟩

/-! ### What asks for quiet -/

/-- Whether the entry of a name reads as true. -/
def ReadsTrue (fields : List (String × Datum)) (name : String) : Prop :=
  ∃ d, Entries.find? name fields = some d ∧ lenientBool d = .ok true

/-- Whether the entry of a name is a word for false. -/
def IsFalseWord (fields : List (String × Datum)) (name : String) : Prop :=
  ∃ word, Entries.find? name fields = some (.text word) ∧ wordValue? word = some false

/-- Whether the entry of a name counts as true before it is read. -/
def CountsTrue (fields : List (String × Datum)) (name : String) : Prop :=
  ((Entries.find? name fields).getD .null).isTruthy = true

theorem eq_true_iff_readsTrue {b : Bool} (h : fieldOr (.ok false) name lenientBool fields = .ok b) :
    b = true ↔ ReadsTrue fields name := by
  rw [fieldOr, under_eq_ok_iff] at h
  unfold ReadsTrue
  cases hd : Entries.find? name fields with
  | none =>
    rw [hd] at h
    obtain rfl := Except.ok.inj h
    simp
  | some d =>
    rw [hd] at h
    have h : lenientBool d = .ok b := h
    simp [h]

theorem countsTrue_iff {b : Bool} (h : fieldOr (.ok false) name lenientBool fields = .ok b) :
    CountsTrue fields name ↔ ReadsTrue fields name ∨ IsFalseWord fields name := by
  rw [← eq_true_iff_readsTrue h, CountsTrue, IsFalseWord]
  rw [fieldOr, under_eq_ok_iff] at h
  cases hd : Entries.find? name fields with
  | none =>
    rw [hd] at h
    obtain rfl := Except.ok.inj h
    simp [Datum.isTruthy]
  | some d =>
    rw [hd] at h
    simpa using isTruthy_iff_of_lenientBool h

theorem find?_implyQuiet_of_countsTrue (h : CountsTrue fields "extra_quiet") :
    Entries.find? "quiet" (implyQuiet fields) = some (.bool true) := by
  have himplied : implyQuiet fields = Entries.put "quiet" (.bool true) fields := if_pos h
  rw [himplied, Entries.find?_put, if_pos rfl]

/-- Only the entry for quiet is replaced, and only if the one for extra quiet counts as true. -/
theorem find?_implyQuiet (h : name = "quiet" → ¬ CountsTrue fields "extra_quiet") :
    Entries.find? name (implyQuiet fields) = Entries.find? name fields := by
  by_cases hcounts : CountsTrue fields "extra_quiet"
  · have himplied : implyQuiet fields = Entries.put "quiet" (.bool true) fields := if_pos hcounts
    rw [himplied, Entries.find?_put, if_neg fun hname => h hname.symm hcounts]
  · have himplied : implyQuiet fields = fields := if_neg hcounts
    rw [himplied]

theorem find?_implyQuiet_of_ne (h : name ≠ "quiet") (fields : List (String × Datum)) :
    Entries.find? name (implyQuiet fields) = Entries.find? name fields :=
  find?_implyQuiet fun hname => absurd hname h

/-- **What makes options quiet**: an entry for quiet or for extra quiet that reads as true, or an
entry for extra quiet that is a word for false. -/
theorem quiet_iff (h : ofFields given = .ok o) : o.quiet = true ↔
    ReadsTrue given "quiet" ∨ ReadsTrue given "extra_quiet" ∨ IsFalseWord given "extra_quiet" := by
  obtain ⟨-, -, -, -, hquiet, hextra, -, -⟩ := ofFields_eq_ok_iff_parts.mp h
  have hsame : fieldOr (.ok false) "extra_quiet" lenientBool given = .ok o.extraQuiet := by
    rwa [fieldOr, find?_implyQuiet_of_ne (by decide), ← fieldOr] at hextra
  rw [← countsTrue_iff hsame, eq_true_iff_readsTrue hquiet]
  by_cases hcounts : CountsTrue given "extra_quiet"
  · -- the entry for quiet was replaced, whatever it was
    exact iff_of_true ⟨_, find?_implyQuiet_of_countsTrue hcounts, rfl⟩ (Or.inr hcounts)
  · rw [ReadsTrue, find?_implyQuiet fun _ => hcounts, ← ReadsTrue]
    simp [hcounts]

/-- Options are quiet if their entry for extra quiet counts as true. -/
theorem quiet_of_countsTrue (h : ofFields given = .ok o)
    (hcounts : CountsTrue given "extra_quiet") : o.quiet = true := by
  obtain ⟨-, -, -, -, hquiet, -, -, -⟩ := ofFields_eq_ok_iff_parts.mp h
  exact (eq_true_iff_readsTrue hquiet).mpr ⟨_, find?_implyQuiet_of_countsTrue hcounts, rfl⟩

/-- Extra quiet options are quiet. -/
theorem quiet_of_extraQuiet (h : ofFields given = .ok o) (hextra : o.extraQuiet = true) :
    o.quiet = true := by
  obtain ⟨-, -, -, -, -, hread, -, -⟩ := ofFields_eq_ok_iff_parts.mp h
  obtain ⟨d, hd, htrue⟩ := (eq_true_iff_readsTrue hread).mp hextra
  rw [find?_implyQuiet_of_ne (by decide)] at hd
  exact (quiet_iff h).mpr (Or.inr (Or.inl ⟨d, hd, htrue⟩))

/-- Every option is what its own entry is converted to, or its default, but for `quiet` if the entry
for extra quiet counts as true. -/
theorem settled_of_ofFields (h : ofFields given = .ok o) (hname : name ∈ names)
    (hfree : name = "quiet" → ¬ CountsTrue given "extra_quiet") :
    settled name (({} : Options).value name) (Entries.find? name given) = .ok (o.value name) := by
  rw [← find?_implyQuiet hfree]
  exact (ofFields_eq_ok_iff.mp h).2 name hname

/-- Every default passes its own check. -/
theorem reading_default : ∀ name ∈ names,
    reading name (({} : Options).value name) = .ok (({} : Options).value name) := by
  simp only [names, List.forall_mem_cons]
  exact ⟨rfl, rfl, rfl, rfl, rfl, rfl, rfl, by simp⟩

/-- The values of options that were made from fields are converted to themselves. -/
theorem reading_value (h : ofFields given = .ok o) (hname : name ∈ names) :
    reading name (o.value name) = .ok (o.value name) := by
  have hsettled := (ofFields_eq_ok_iff.mp h).2 name hname
  cases hd : Entries.find? name (implyQuiet given) with
  | some d =>
    rw [hd] at hsettled
    exact reading_idempotent hsettled
  | none =>
    rw [hd] at hsettled
    rw [← Except.ok.inj hsettled]
    exact reading_default name hname

/-! ### Merges -/

/-- The fields that hold something. -/
def present (fields : List (String × Datum)) : List (String × Datum) :=
  fields.filter fun e => ! e.2.isNull

/-- What is put over an option. -/
def override? (overrides : Dict String Datum) (name : String) : Option Datum :=
  Entries.find? name (present overrides.entries)

/-- The fields of options. -/
def dict (o : Options) : Dict String Datum where
  entries := o.toFields
  nodup := by
    rw [Entries.keys, toFields_names]
    decide

/-- The fields of options with those put over them that hold something. -/
def overlaid (o : Options) (overrides : Dict String Datum) : Dict String Datum :=
  o.dict.insertAll (present overrides.entries)

variable {overrides : Dict String Datum}

@[simp] theorem present_present (fields : List (String × Datum)) :
    present (present fields) = present fields := by simp [present]

theorem keys_present_nodup (overrides : Dict String Datum) :
    (Entries.keys (present overrides.entries)).Nodup :=
  (List.filter_sublist.map Prod.fst).nodup overrides.nodup

/-- A merge reads the fields with those put over them that hold something. -/
theorem merged_eq (o : Options) (fields : List (String × Datum)) :
    o.merged fields = ofFields (o.dict.insertAll (present fields)).entries := by
  rw [Dict.entries_insertAll_eq_foldl, present, List.foldl_filter, merged]
  refine congrArg ofFields (congrArg (fun f => fields.foldl f o.toFields) ?_)
  funext es e
  cases h : e.2 <;> simp [Datum.isNull]

theorem merged_entries_eq (o : Options) (overrides : Dict String Datum) :
    o.merged overrides.entries = ofFields (o.overlaid overrides).entries :=
  merged_eq o overrides.entries

theorem find?_dict (hname : name ∈ names) : o.dict.find? name = some (o.value name) := by
  have hmem : name ∈ o.dict := Dict.mem_iff_mem_keys.mpr hname
  obtain ⟨d, hd⟩ := Dict.mem_iff_find?.mp hmem
  have hvalue : o.value name = (o.dict.find? name).getD .null := rfl
  rw [hvalue, hd, Option.getD_some]

/-- Over an option stands what is put over it, or else its value. -/
theorem find?_overlaid (hname : name ∈ names) : (o.overlaid overrides).find? name =
    (override? overrides name).or (some (o.value name)) := by
  rw [overlaid, Dict.find?_insertAll (keys_present_nodup overrides), find?_dict hname]
  rfl

/-- What is read for an option is what is put over it, or else its value, which stays as it is. -/
theorem settled_overlaid (hbuilt : ofFields given = .ok o) (hname : name ∈ names) (before : Datum) :
    settled name before ((o.overlaid overrides).find? name) =
      settled name (o.value name) (override? overrides name) := by
  rw [find?_overlaid hname]
  cases override? overrides name with
  | none => exact reading_value hbuilt hname
  | some _ => rfl

theorem known_overlaid_iff : (∀ name ∈ (o.overlaid overrides).keys, name ∈ names) ↔
    ∀ name ∈ Entries.keys (present overrides.entries), name ∈ names := by
  have hown : ∀ name ∈ o.dict.keys, name ∈ names := fun _ hname => hname
  simp only [overlaid, Dict.mem_keys_insertAll, or_imp, forall_and]
  exact and_iff_left hown

theorem countsTrue_overlaid (hname : name ∈ names) :
    CountsTrue (o.overlaid overrides).entries name ↔
      ((override? overrides name).getD (o.value name)).isTruthy = true := by
  rw [CountsTrue, ← Dict.find?, find?_overlaid hname]
  cases override? overrides name <;> rfl

/-- **A merge converts what is put over an option** and keeps the value of the option otherwise, but
for `quiet` if the entry for extra quiet counts as true. -/
theorem settled_of_merged (hbuilt : ofFields given = .ok o)
    (h : o.merged overrides.entries = .ok o') (hname : name ∈ names)
    (hfree : name = "quiet" → ¬ CountsTrue (o.overlaid overrides).entries "extra_quiet") :
    settled name (o.value name) (override? overrides name) = .ok (o'.value name) := by
  rw [merged_entries_eq] at h
  rw [← settled_overlaid hbuilt hname]
  exact settled_of_ofFields h hname hfree

/-- One merge after the other. -/
def mergedAll (o : Options) : List (Dict String Datum) → Checked Options
  | [] => .ok o
  | overrides :: rest =>
    match o.merged overrides.entries with
    | .ok o' => mergedAll o' rest
    | .error e => .error e

/-- What is put over an option last. -/
def latest? (name : String) : List (Dict String Datum) → Option Datum
  | [] => none
  | overrides :: rest => (latest? name rest).or (override? overrides name)

theorem mergedAll_cons_ok {calls : List (Dict String Datum)}
    (h : o.mergedAll (overrides :: calls) = .ok o') :
    ∃ o₁, o.merged overrides.entries = .ok o₁ ∧ o₁.mergedAll calls = .ok o' := by
  rw [mergedAll] at h
  split at h
  · exact ⟨_, ‹_›, h⟩
  · cases h

/-- Merges give options that were made from fields. -/
theorem exists_given_of_mergedAll : ∀ {calls : List (Dict String Datum)} {o : Options}
    {given : List (String × Datum)}, ofFields given = .ok o → o.mergedAll calls = .ok o' →
      ∃ given', ofFields given' = .ok o'
  | [], _, given, hbuilt, h => ⟨given, Except.ok.inj h ▸ hbuilt⟩
  | _ :: _, _, _, _, h => by
    obtain ⟨o₁, hm, hrest⟩ := mergedAll_cons_ok h
    rw [merged_entries_eq] at hm
    exact exists_given_of_mergedAll hm hrest

/-- **Over any number of merges** an option that is not `quiet` becomes what is put over it last, or
stays what it was. -/
theorem settled_of_mergedAll (hname : name ∈ names) (hquiet : name ≠ "quiet") :
    ∀ {calls : List (Dict String Datum)} {o : Options} {given : List (String × Datum)},
      ofFields given = .ok o → o.mergedAll calls = .ok o' →
        settled name (o.value name) (latest? name calls) = .ok (o'.value name)
  | [], _, _, _, h => by rw [Except.ok.inj h, latest?, settled]
  | overrides :: calls, o, _, hbuilt, h => by
    obtain ⟨o₁, hm, hrest⟩ := mergedAll_cons_ok h
    have hstep := settled_of_merged hbuilt hm hname fun h => absurd h hquiet
    rw [merged_entries_eq] at hm
    have hrun := settled_of_mergedAll hname hquiet hm hrest
    -- a later field hides the one of this merge
    rw [latest?]
    cases hl : latest? name calls with
    | some d =>
      rw [hl] at hrun
      exact hrun
    | none =>
      rw [hl] at hrun
      rw [Option.none_or, hstep]
      exact hrun

/-! ### Merges that change nothing -/

/-- What is settled stays settled. -/
theorem settled_again {after : Datum} {given? : Option Datum}
    (h : settled name before given? = .ok after) : settled name after given? = .ok after := by
  cases given? with
  | none => rfl
  | some _ => exact h

/-- Options stay as they are if what is put over them is converted to their values, and they are
quiet if the entry for extra quiet counts as true. -/
theorem merged_eq_self (hbuilt : ofFields given = .ok o)
    (hknown : ∀ name ∈ Entries.keys (present overrides.entries), name ∈ names)
    (hquiet : CountsTrue (o.overlaid overrides).entries "extra_quiet" → o.quiet = true)
    (hsame : ∀ name ∈ names,
      (name = "quiet" → ¬ CountsTrue (o.overlaid overrides).entries "extra_quiet") →
        settled name (o.value name) (override? overrides name) = .ok (o.value name)) :
    o.merged overrides.entries = .ok o := by
  rw [merged_entries_eq, ofFields_eq_ok_iff]
  refine ⟨known_overlaid_iff.mpr hknown, fun name hname => ?_⟩
  by_cases hfree : name = "quiet" → ¬ CountsTrue (o.overlaid overrides).entries "extra_quiet"
  · rw [find?_implyQuiet hfree, ← Dict.find?, settled_overlaid hbuilt hname]
    exact hsame name hname hfree
  · -- the entry for quiet is replaced, by what the option says already
    obtain ⟨rfl, hcounts⟩ : name = "quiet" ∧ _ := by simpa using hfree
    have hvalue : o.value "quiet" = .bool true := congrArg Datum.bool (hquiet hcounts)
    rw [find?_implyQuiet_of_countsTrue hcounts, hvalue]
    rfl

/-- Putting nothing over options changes nothing. -/
theorem merged_nothing (hbuilt : ofFields given = .ok o)
    (hnothing : ∀ e ∈ overrides.entries, e.2.isNull = true) :
    o.merged overrides.entries = .ok o := by
  have hpresent : present overrides.entries = [] := by
    simpa [present] using fun k d he => hnothing (k, d) he
  have hnone : ∀ name, override? overrides name = none := fun name => by
    rw [override?, hpresent, Entries.find?]
  refine merged_eq_self hbuilt (by simp [hpresent, Entries.keys]) (fun hcounts => ?_) ?_
  · rw [countsTrue_overlaid (by decide), hnone, Option.getD_none] at hcounts
    exact quiet_of_extraQuiet hbuilt hcounts
  · intro name _ _
    rw [hnone, settled]

/-- **A merge done again changes nothing.** -/
theorem merged_again (hbuilt : ofFields given = .ok o) (h : o.merged overrides.entries = .ok o') :
    o'.merged overrides.entries = .ok o' := by
  have hbuilt' : ofFields (o.overlaid overrides).entries = .ok o' := by
    rwa [merged_entries_eq] at h
  -- the entry for extra quiet is the one that was read the first time
  have hcounts : CountsTrue (o'.overlaid overrides).entries "extra_quiet" ↔
      CountsTrue (o.overlaid overrides).entries "extra_quiet" := by
    have hextra := settled_of_merged hbuilt h (by decide : "extra_quiet" ∈ names) fun h =>
      absurd h (by decide)
    rw [countsTrue_overlaid (by decide), countsTrue_overlaid (by decide)]
    cases hover : override? overrides "extra_quiet" with
    | some d => rfl
    | none =>
      rw [hover] at hextra
      rw [Option.getD_none, Option.getD_none, Except.ok.inj hextra]
  have hknown := known_overlaid_iff.mp (ofFields_eq_ok_iff.mp hbuilt').1
  refine merged_eq_self hbuilt' hknown (fun h' => quiet_of_countsTrue hbuilt' (hcounts.mp h')) ?_
  intro name hname hfree
  rw [hcounts] at hfree
  exact settled_again (settled_of_merged hbuilt h hname hfree)

/-! ### Options and merges together -/

/-- **Options follow what is given.** Options made from fields are quiet exactly if the entry for
quiet or the one for extra quiet reads as true, or the one for extra quiet is a word for false, and
every other option is what its own entry is converted to, or its default. After any number of merges
extra quiet options are quiet, and every option but `quiet` is what the field put over it last is
converted to, or what it was. Fields that hold nothing change nothing, and neither does a merge done
again. -/
theorem options_follow (h : ofFields given = .ok o) :
    (o.quiet = true ↔
      ReadsTrue given "quiet" ∨ ReadsTrue given "extra_quiet" ∨ IsFalseWord given "extra_quiet") ∧
    (∀ name ∈ names, name ≠ "quiet" →
      settled name (({} : Options).value name) (Entries.find? name given) = .ok (o.value name)) ∧
    ∀ calls o', o.mergedAll calls = .ok o' →
      (o'.extraQuiet = true → o'.quiet = true) ∧
      (∀ name ∈ names, name ≠ "quiet" →
        settled name (o.value name) (latest? name calls) = .ok (o'.value name)) ∧
      (∀ overrides : Dict String Datum,
        o'.merged overrides.entries = o'.merged (present overrides.entries)) ∧
      (∀ overrides : Dict String Datum, (∀ e ∈ overrides.entries, e.2.isNull = true) →
        o'.merged overrides.entries = .ok o') ∧
      ∀ (overrides : Dict String Datum) (o'' : Options), o'.merged overrides.entries = .ok o'' →
        o''.merged overrides.entries = .ok o'' := by
  refine ⟨quiet_iff h, fun name hname hquiet => ?_, fun calls o' hcalls => ?_⟩
  · exact settled_of_ofFields h hname fun hname => absurd hname hquiet
  · obtain ⟨given', hbuilt⟩ := exists_given_of_mergedAll h hcalls
    refine ⟨quiet_of_extraQuiet hbuilt, ?_, ?_, ?_, ?_⟩
    · exact fun name hname hquiet => settled_of_mergedAll hname hquiet h hcalls
    · intro overrides
      rw [merged_eq, merged_eq, present_present]
    · exact fun overrides hnothing => merged_nothing hbuilt hnothing
    · exact fun overrides o'' hmerged => merged_again hbuilt hmerged

/-- Fields that say no to extra quiet in a word. -/
def falseWordFields : List (String × Datum) :=
  [("extra_quiet", .text "False"), ("max_steps", .text "7")]

/-- The options of `falseWordFields`. -/
def falseWordOptions : Options := { maxSteps := 7, quiet := true }

/-- A seed and no quiet, and then the word yes for a flag and nothing for the seed. -/
def seedThenFlag : List (Dict String Datum) :=
  [Dict.ofList [("seed", .int 3), ("quiet", .bool false)],
   Dict.ofList [("seed", .null), ("auto_null", .text "yes")]]

/-- The word makes the options quiet, though not extra quiet; the merges undo this and keep the
seed. -/
theorem options_follow_falseWord :
    ofFields falseWordFields = .ok falseWordOptions ∧ IsFalseWord falseWordFields "extra_quiet" ∧
      falseWordOptions.extraQuiet = false ∧ falseWordOptions.quiet = true ∧
      falseWordOptions.mergedAll seedThenFlag =
        .ok { maxSteps := 7, autoNull := true, seed := some 3 } := by
  have hbuilt : ofFields falseWordFields = .ok falseWordOptions := by decide +kernel
  have hword : IsFalseWord falseWordFields "extra_quiet" := ⟨"False", rfl, by decide +kernel⟩
  have hquiet := (options_follow hbuilt).1.mpr (Or.inr (Or.inr hword))
  exact ⟨hbuilt, hword, rfl, hquiet, by decide +kernel⟩

end Options

end FiniteAutomata
