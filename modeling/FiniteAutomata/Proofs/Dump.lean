import FiniteAutomata.Decimal.Number
import FiniteAutomata.Dump
import FiniteAutomata.Proofs.Producers.WellFormed

/-! # Programs and their data agree together

Values of a data format agree if they are equal as data: numbers by value, lists in order, and
objects in any order of their fields (`Datum.agrees`).

Programs as data write sentinels and commands as texts, and leave out whether the alphabet is
declared. In a program from a source nothing is lost by this: no name is spelled like a sentinel, a
legible command is read back from its text (`Command.text_inj`), and the alphabet is declared
exactly if `lang` is assigned. So two such programs agree exactly if they agree as data
(`Listing.Sourced.toDatum_agrees_iff`). -/

namespace FiniteAutomata

open Decimal Listing

universe u v

/-! ### Agreement of data -/

/-- Whether two numbers have the same value, also if they are of different kinds. -/
def Decimal.Number.agrees : Number → Number → Bool
  | .int m, .int n => m == n
  | .float x, .float y => x == y
  | .int n, .float x | .float x, .int n => ! x.isNaN && ! intLess n x && ! intLess (-n) (-x)
  | _, _ => false

namespace Datum

/-- The number that a value stands for, if any; truth values stand for zero and one. -/
def number? : Datum → Option Number
  | .bool b => some (.int (if b then 1 else 0))
  | .int n => some (.int n)
  | .float x => some (.float x)
  | _ => none

mutual

/-- Whether two values are equal as data: lists in order, objects in any order of the fields. -/
def agrees : Datum → Datum → Bool
  | .null, .null => true
  | .text s, .text t => s = t
  | .list items, .list items' => itemsAgree items items'
  | .object fields, .object fields' =>
    fields.length == fields'.length && fieldsAgree fields fields'
  | a, b => (a.number?.bind fun m => b.number?.map m.agrees).getD false

/-- Whether two lists agree item by item. -/
def itemsAgree : List Datum → List Datum → Bool
  | [], [] => true
  | a :: items, b :: items' => agrees a b && itemsAgree items items'
  | _, _ => false

/-- Whether each field agrees with the one of its name among others. -/
def fieldsAgree : List (String × Datum) → List (String × Datum) → Bool
  | [], _ => true
  | (name, a) :: fields, fields' =>
    (match Entries.find? name fields' with
      | some b => agrees a b
      | none => false) && fieldsAgree fields fields'

end

variable {α : Type u} {β : Type v} [DecidableEq α]

@[simp] theorem agrees_text (s t : String) : (text s).agrees (.text t) = decide (s = t) := by
  rw [agrees]

@[simp] theorem agrees_float (x y : Float) : (float x).agrees (.float y) = (x == y) := by
  simp [agrees, number?, Number.agrees]

@[simp] theorem agrees_list (items items' : List Datum) :
    (list items).agrees (.list items') = itemsAgree items items' := by
  rw [agrees]

@[simp] theorem agrees_object (fields fields' : List (String × Datum)) :
    (object fields).agrees (.object fields') =
      (fields.length == fields'.length && fieldsAgree fields fields') := by
  rw [agrees]

theorem itemsAgree_texts : ∀ a b : List String,
    itemsAgree (a.map .text) (b.map .text) = decide (a = b)
  | [], [] => by simp [itemsAgree]
  | [], _ :: _ => by simp [itemsAgree]
  | _ :: _, [] => by simp [itemsAgree]
  | s :: a, t :: b => by simp [itemsAgree, itemsAgree_texts a b]

theorem fieldsAgree_eq_all (fields' : List (String × Datum)) : ∀ fields : List (String × Datum),
    fieldsAgree fields fields' =
      fields.all fun e => (Entries.find? e.1 fields').any e.2.agrees
  | [] => by simp [fieldsAgree]
  | (name, a) :: fields => by
    rw [fieldsAgree, List.all_cons, fieldsAgree_eq_all fields' fields]
    cases Entries.find? name fields' <;> rfl

/-- **The entries of dictionaries agree as data** under the texts of their keys as the dictionaries
do, if no two keys have the same text. -/
theorem agrees_object_map {d e : Dict α β} {key : α → String} (value : β → Datum)
    (hkey : ∀ k ∈ d.keys, ∀ k' ∈ e.keys, key k' = key k → k' = k) :
    (object (d.entries.map fun x => (key x.1, value x.2))).agrees
        (.object (e.entries.map fun x => (key x.1, value x.2))) =
      d.agrees (fun v v' => (value v).agrees (value v')) e := by
  rw [agrees_object, fieldsAgree_eq_all, List.length_map, List.length_map, List.all_map,
    Dict.agrees, Bool.eq_iff_iff, Bool.and_eq_true, Bool.and_eq_true, List.all_eq_true,
    List.all_eq_true]
  refine and_congr_right fun _ => forall₂_congr fun x hx => ?_
  -- under the text of a key of one, the other holds what it holds under the key
  have hfind := Entries.find?_map (fun _ => value) fun y hy =>
    hkey x.1 (List.mem_map_of_mem hx) y.1 (List.mem_map_of_mem hy)
  rw [Function.comp_apply, hfind, Option.any_map]
  rfl

end Datum

namespace Program

variable {p q : Program}

/-! ### Lists and single values -/

theorem agrees_textsDatum (a b : List String) :
    (textsDatum a).agrees (textsDatum b) = decide (a = b) := by
  rw [textsDatum, textsDatum, Datum.agrees_list, Datum.itemsAgree_texts]

theorem agrees_settingDatum (a b : Setting) :
    (settingDatum a).agrees (settingDatum b) = decide (a = b) := by
  cases a <;> cases b <;>
    simp [settingDatum, textsDatum, Datum.itemsAgree_texts, Datum.agrees, Datum.number?]

theorem mode_text_inj {a b : Mode} : a.text = b.text ↔ a = b := by
  cases a <;> cases b <;> simp [Mode.text]

/-- **A legible command is known by its text**, as it is read back from it. -/
theorem command_text_inj {c c' : Command} (hc : LegibleCommand c) (hc' : LegibleCommand c') :
    c.text = c'.text ↔ c = c' := by
  refine ⟨fun h => ?_, congrArg Command.text⟩
  have hread := readCommand?_text hc
  rw [h, readCommand?_text hc'] at hread
  exact (Option.some.inj hread).symm

theorem commandTexts_inj {cs cs' : List Command} (hcs : ∀ c ∈ cs, LegibleCommand c)
    (hcs' : ∀ c ∈ cs', LegibleCommand c) :
    cs.map Command.text = cs'.map Command.text ↔ cs = cs' := by
  refine ⟨fun h => ?_, congrArg _⟩
  induction cs generalizing cs' with
  | nil => exact (List.map_eq_nil_iff.mp h.symm).symm
  | cons c cs ih =>
    cases cs' with
    | nil => cases h
    | cons c' cs' =>
      rw [List.forall_mem_cons] at hcs hcs'
      obtain ⟨hhead, htail⟩ := List.cons.inj h
      rw [(command_text_inj hcs.1 hcs'.1).mp hhead, ih hcs.2 hcs'.2 htail]

/-! ### Tables -/

/-- Fields with different names are the fields of their object. -/
theorem objectOf_of_nodup {fields : List (String × Datum)} (h : (Entries.keys fields).Nodup) :
    objectOf fields = .object fields := by
  have hinsert := Dict.entries_insertAll_eq_foldl (∅ : Dict String Datum) fields
  rw [Dict.entries_insertAll (by simpa using h)] at hinsert
  exact congrArg Datum.object hinsert.symm

section Spelled

variable {β : Type u} {d e : Dict Ref β}

theorem objectOf_spelled (hd : ∀ x ∈ d.entries, x.1.IsSpelled) (value : β → Datum) :
    objectOf (d.entries.map fun x => (x.1.lexeme, value x.2)) =
      .object (d.entries.map fun x => (x.1.lexeme, value x.2)) := by
  refine objectOf_of_nodup ?_
  have hkeys : Entries.keys (d.entries.map fun x => (x.1.lexeme, value x.2)) =
      d.keys.map Ref.lexeme := by
    simp [Entries.keys, Dict.keys, Function.comp_def]
  rw [hkeys]
  -- a spelled reference is read back from its spelling
  refine d.nodup.map_on fun r hr r' hr' h => ?_
  obtain ⟨x, hx, rfl⟩ := List.mem_map.mp hr
  obtain ⟨x', hx', rfl⟩ := List.mem_map.mp hr'
  rw [← hd x hx, h, hd x' hx']

/-- **Entries under spelled references agree as data** as they do under the references. -/
theorem agrees_objectOf_spelled (hd : ∀ x ∈ d.entries, x.1.IsSpelled)
    (he : ∀ x ∈ e.entries, x.1.IsSpelled) (value : β → Datum) :
    (objectOf (d.entries.map fun x => (x.1.lexeme, value x.2))).agrees
        (objectOf (e.entries.map fun x => (x.1.lexeme, value x.2))) =
      d.agrees (fun v v' => (value v).agrees (value v')) e := by
  rw [objectOf_spelled hd, objectOf_spelled he]
  refine Datum.agrees_object_map value fun r hr r' hr' h => ?_
  obtain ⟨x, hx, rfl⟩ := List.mem_map.mp hr
  obtain ⟨x', hx', rfl⟩ := List.mem_map.mp hr'
  rw [← he x' hx', h, hd x hx]

end Spelled

theorem agrees_destinationsDatum {d e : Destinations} (hd : Draft.ProperDestinations d)
    (he : Draft.ProperDestinations e) :
    (destinationsDatum d).agrees (destinationsDatum e) = d.agrees (· == ·) e := by
  have h := agrees_objectOf_spelled (fun x hx => (hd.entries x hx).1)
    (fun x hx => (he.entries x hx).1) Datum.float
  simpa [destinationsDatum] using h

theorem agrees_tableDatum {t u : Table} (ht : Draft.ProperTable t) (hu : Draft.ProperTable u) :
    (tableDatum t).agrees (tableDatum u) = tablesAgree t u := by
  have h := agrees_objectOf_spelled (fun x hx => (ht x hx).1) (fun x hx => (hu x hx).1)
    destinationsDatum
  refine h.trans (Dict.agrees_congr fun k d e hd he => ?_)
  exact agrees_destinationsDatum (ht _ hd).2 (hu _ he).2

/-! ### Programs -/

theorem agrees_statesDatum {states states' : Dict String Table} (hs : Draft.ProperStates states)
    (hs' : Draft.ProperStates states') :
    (Datum.object (states.entries.map fun e => (e.1, tableDatum e.2))).agrees
        (.object (states'.entries.map fun e => (e.1, tableDatum e.2))) =
      states.agrees tablesAgree states' := by
  rw [Datum.agrees_object_map tableDatum fun _ _ _ _ h => h]
  exact Dict.agrees_congr fun k t u ht hu => agrees_tableDatum (hs _ ht).2 (hs' _ hu).2

theorem agrees_commandsDatum {commands commands' : Dict String (List Command)}
    (hc : ∀ e ∈ commands.entries, ∀ c ∈ e.2, LegibleCommand c)
    (hc' : ∀ e ∈ commands'.entries, ∀ c ∈ e.2, LegibleCommand c) :
    (Datum.object (commands.entries.map fun e => (e.1, textsDatum (e.2.map Command.text)))).agrees
        (.object (commands'.entries.map fun e => (e.1, textsDatum (e.2.map Command.text)))) =
      commands.agrees (fun a b => a = b) commands' := by
  have hmap := Datum.agrees_object_map (fun cs : List Command => textsDatum (cs.map Command.text))
    fun k (_ : k ∈ commands.keys) k' (_ : k' ∈ commands'.keys) (h : k' = k) => h
  refine hmap.trans (Dict.agrees_congr fun k cs cs' hcs hcs' => ?_)
  rw [agrees_textsDatum]
  exact decide_eq_decide.mpr (commandTexts_inj (hc _ hcs) (hc' _ hcs'))

theorem agrees_varsDatum (vars vars' : Dict String Setting) :
    (Datum.object (vars.entries.map fun e => (e.1, settingDatum e.2))).agrees
        (.object (vars'.entries.map fun e => (e.1, settingDatum e.2))) =
      vars.agrees (fun a b => a = b) vars' := by
  rw [Datum.agrees_object_map settingDatum fun _ _ _ _ h => h]
  exact Dict.agrees_congr fun _ a b _ _ => agrees_settingDatum a b

/-- Programs of proper states and legible commands agree as data exactly if they agree in all fields
but whether the alphabet is declared. -/
theorem agrees_toDatum_iff (hp : Draft.ProperStates p.states) (hq : Draft.ProperStates q.states)
    (hpc : ∀ e ∈ p.commands.entries, ∀ c ∈ e.2, LegibleCommand c)
    (hqc : ∀ e ∈ q.commands.entries, ∀ c ∈ e.2, LegibleCommand c) :
    p.toDatum.agrees q.toDatum = true ↔
      p.mode = q.mode ∧ p.alphabet = q.alphabet ∧ p.start = q.start ∧ p.accept = q.accept ∧
        p.statesAgree q = true ∧ p.commandsAgree q = true ∧ p.varsAgree q = true := by
  rw [statesAgree, ← agrees_statesDatum hp hq, commandsAgree, ← agrees_commandsDatum hpc hqc,
    varsAgree, ← agrees_varsDatum, toDatum, toDatum, Datum.agrees_object, Datum.fieldsAgree_eq_all]
  simp [Entries.find?, -Datum.agrees_object, agrees_textsDatum, mode_text_inj]

end Program

/-! ### Sources -/

open Program

variable {p q : Program}

/-- The commands of a program from a source are legible. -/
theorem Listing.Sourced.legibleCommands (h : Sourced p) :
    ∀ e ∈ p.commands.entries, ∀ c ∈ e.2, LegibleCommand c := by
  induction h with
  | parsed h => exact fun e he => ((legible_of_parse h).parts.commands e he).2.2
  | imported h =>
    obtain ⟨diagram, -, hd⟩ := Diagram.exists_diagram_of_convert h
    obtain ⟨draft, hdraft, hres⟩ := Diagram.exists_draft_of_toProgram hd
    -- a diagram attaches no commands
    rw [hres.commands, commands_of_toDraft hdraft]
    exact fun e he => absurd he List.not_mem_nil
  | withMode _ mode ih => exact ih

/-- Programs from sources with the same assignments both declare their alphabets or neither does. -/
theorem Listing.Sourced.declaresAlphabet_eq (hp : Sourced p) (hq : Sourced q)
    (h : p.varsAgree q = true) : p.declaresAlphabet = q.declaresAlphabet := by
  have hwp := wellFormed_of_resolves hp.proper hp.resolves_and_ordered.1
  have hwq := wellFormed_of_resolves hq.proper hq.resolves_and_ordered.1
  rw [Bool.eq_iff_iff, hwp.declares, hwq.declares, Dict.mem_iff_mem_keys, Dict.mem_iff_mem_keys]
  exact (Dict.keys_perm_of_agrees h).mem_iff

/-- **Programs from sources agree as data** exactly if they agree in every field. -/
theorem Listing.Sourced.toDatum_agrees_iff (hp : Sourced p) (hq : Sourced q) :
    p.toDatum.agrees q.toDatum = true ↔ p.agrees q = true := by
  rw [agrees_toDatum_iff hp.proper.states hq.proper.states hp.legibleCommands hq.legibleCommands,
    agrees_iff]
  constructor
  · rintro ⟨hmode, halphabet, hstart, haccept, hstates, hcommands, hvars⟩
    exact ⟨halphabet, hstates, hstart, haccept, hmode, hcommands, hvars,
      hp.declaresAlphabet_eq hq hvars⟩
  · rintro ⟨halphabet, hstates, hstart, haccept, hmode, hcommands, hvars, -⟩
    exact ⟨hmode, halphabet, hstart, haccept, hstates, hcommands, hvars⟩

namespace Listing

/-- A listing of two states with sentinels, weights and commands. -/
def sentinelText : String :=
  "start = a\naccept = [b]\na:\n\t$log(x, y)\n\t0\t[2-null, b]\nb:\n\t\\phi\ta\n"

/-- The listing with its blocks and its list the other way round. -/
def reversedSentinelText : String :=
  "start = a\naccept = [b]\nb:\n\t\\phi\ta\na:\n\t0\t[b, 2-null]\n\t$log(x, y)\n"

/-- The program of `sentinelText`. -/
def sentinelProgram : Program where
  alphabet := ["0"]
  states := Dict.ofList
    [("a", Dict.ofList [(.named "0", Dict.ofList [(.null, 2), (.named "b", 1)])]),
     ("b", Dict.ofList [(.sentinel .phi, Dict.ofList [(.named "a", 1)])])]
  start := "a"
  accept := ["b"]
  commands := Dict.ofList [("a", [⟨"log", ["x", "y"]⟩])]
  vars := Dict.ofList [("start", .literal "a"), ("accept", .array ["b"])]

/-- The program of `reversedSentinelText`. -/
def reversedSentinelProgram : Program where
  alphabet := ["0"]
  states := Dict.ofList
    [("b", Dict.ofList [(.sentinel .phi, Dict.ofList [(.named "a", 1)])]),
     ("a", Dict.ofList [(.named "0", Dict.ofList [(.named "b", 1), (.null, 2)])])]
  start := "a"
  accept := ["b"]
  commands := Dict.ofList [("a", [⟨"log", ["x", "y"]⟩])]
  vars := Dict.ofList [("start", .literal "a"), ("accept", .array ["b"])]

/-- Blocks and lists the other way round make no difference to the data, and another mode does. -/
theorem Sourced.toDatum_agrees_iff_reversed :
    (Sourced sentinelProgram ∧ Sourced reversedSentinelProgram ∧
      sentinelProgram.toDatum.agrees reversedSentinelProgram.toDatum = true) ∧
    Sourced (sentinelProgram.withMode .nfa) ∧
      sentinelProgram.toDatum.agrees (sentinelProgram.withMode .nfa).toDatum = false := by
  have hparse : parse sentinelText = .ok sentinelProgram := rfl
  have hreversed : parse reversedSentinelText = .ok reversedSentinelProgram := rfl
  have hp : Sourced sentinelProgram := .parsed hparse
  have hq : Sourced reversedSentinelProgram := .parsed hreversed
  have hmode : Sourced (sentinelProgram.withMode .nfa) := .withMode hp .nfa
  refine ⟨⟨hp, hq, (hp.toDatum_agrees_iff hq).mpr (by decide +kernel)⟩, hmode, ?_⟩
  exact Bool.eq_false_iff.mpr (mt (hp.toDatum_agrees_iff hmode).mp (by decide +kernel))

end Listing

end FiniteAutomata
