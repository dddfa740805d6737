import FiniteAutomata.Proofs.Dict
import FiniteAutomata.Proofs.Listing.Items
import Mathlib

/-! # Destination sets: printing and reading

A destination set that was read is legible (`legible_of_readDestinations`). A legible set is read
from what is printed for it (`readDestinations_print`), unless it clashes with the syntax: it is a
list with an item of weight one whose name holds a hyphen, or a bare name that starts with a
bracket. In both cases the names that are read are shorter, in all or each of them, so that the set
that is read never agrees with the one that was printed (`not_hyphenClash_of_agrees`,
`not_bracketClash_of_agrees`). -/

namespace FiniteAutomata.Listing

open Text Decimal

/-! ### Legible sets and clashes -/

/-- Whether a set is a single destination of weight one, which is printed without brackets. -/
def isBare (d : Destinations) : Bool :=
  match d.entries with
  | [e] => e.2 == 1
  | _ => false

/-- A destination set as reading gives it: not empty, with legible names and positive finite
weights, and without commas in the names of a list. -/
structure LegibleDestinations (d : Destinations) : Prop where
  nonempty : d.entries ≠ []
  names : ∀ e ∈ d.entries, LegibleName e.1
  weights : ∀ e ∈ d.entries, isWeight e.2 = true
  commaless : isBare d = false → ∀ e ∈ d.entries, ',' ∉ e.1.lexeme.toList

/-- A list that holds an entry of weight one whose name holds a hyphen. -/
def HyphenClash (d : Destinations) : Prop :=
  isBare d = false ∧ ∃ e ∈ d.entries, (e.2 == 1) = true ∧ '-' ∈ e.1.lexeme.toList

/-- A bare name that starts with a bracket. -/
def BracketClash (d : Destinations) : Prop :=
  isBare d = true ∧ ∃ e ∈ d.entries, e.1.lexeme.toList.head? = some '['

variable {d d' : Destinations}

theorem entries_of_isBare (h : isBare d = true) :
    ∃ r w, d.entries = [(r, w)] ∧ (w == 1) = true := by
  unfold isBare at h
  split at h
  · next e he => exact ⟨e.1, e.2, he, h⟩
  · simp at h

/-! ### Reading items -/

/-- **Items are read** exactly if each is spelled like one and no destination comes twice; their
entries follow those from before. -/
theorem readItems_eq_ok_iff : ∀ {items : List (List Char)} {acc : Destinations} {position : ℕ},
    readItems position acc items = .ok d ↔ ∃ es, d.entries = acc.entries ++ es ∧
      (acc.keys ++ Entries.keys es).Nodup ∧
      List.Forall₂ (SpellsItem fun _ => True) items es
  | [], acc, position => by
    rw [readItems, Except.ok.injEq]
    constructor
    · rintro rfl
      have hn : acc.keys.Nodup := acc.nodup
      exact ⟨[], by simp, by simpa [Entries.keys] using hn, .nil⟩
    · rintro ⟨es, he, -, hes⟩
      obtain rfl := List.forall₂_nil_left_iff.mp hes
      exact Dict.ext (by rw [he, List.append_nil])
  | item :: items, acc, position => by
    rw [readItems]
    constructor
    · intro h
      rcases hi : readItem position item with e | ⟨r, w⟩
      · simp [hi, bind, Except.bind] at h
      · simp only [hi, bind, Except.bind] at h
        split_ifs at h with hr
        have hk : r ∉ acc.keys := fun hk => hr (Dict.mem_iff_mem_keys.mpr hk)
        obtain ⟨es, he, hn, hes⟩ := readItems_eq_ok_iff.mp h
        refine ⟨(r, w) :: es, ?_, ?_, .cons (readItem_eq_ok_iff.mp hi) hes⟩
        · rw [he, Dict.entries_insert_of_not_mem w hk, List.append_assoc, List.singleton_append]
        · rw [Dict.keys_insert, if_neg hk, List.append_assoc] at hn
          simpa [Entries.keys] using hn
    · rintro ⟨es, he, hn, hes⟩
      obtain ⟨⟨r, w⟩, es, hitem, hrest, rfl⟩ := List.forall₂_cons_left_iff.mp hes
      have hk : r ∉ acc.keys := fun hk =>
        (List.disjoint_of_nodup_append hn) hk (by simp [Entries.keys])
      have hr : ¬ r ∈ acc := fun hm => hk (Dict.mem_iff_mem_keys.mp hm)
      simp only [readItem_eq_ok_iff.mpr hitem, bind, Except.bind, if_neg hr]
      refine readItems_eq_ok_iff.mpr ⟨es, ?_, ?_, hrest⟩
      · rw [he, Dict.entries_insert_of_not_mem w hk, List.append_assoc, List.singleton_append]
      · rw [Dict.keys_insert, if_neg hk, List.append_assoc]
        simpa [Entries.keys] using hn

/-! ### Reading destination sets -/

theorem readDestinations_of_ne {c : Char} (h : c ≠ '[') (rest : List Char) :
    readDestinations (c :: rest) =
      .ok ((∅ : Destinations).insert (.ofLexeme (String.ofList (c :: rest))) 1) := by
  simp [readDestinations, h]

theorem readDestinations_bracket (body : List Char) :
    readDestinations ('[' :: body) =
      if body.getLast? = some ']' then
        if (splitOn ',' body.dropLast).map trim = [[]] then .error .noDestinations
        else readItems 1 ∅ ((splitOn ',' body.dropLast).map trim)
      else .error .unclosedDestinations := rfl

/-- What is read from a list comes from its pieces. -/
theorem readDestinations_list {body : List Char} (h : readDestinations ('[' :: body) = .ok d) :
    List.Forall₂ (SpellsItem fun _ => True) ((splitOn ',' body.dropLast).map trim) d.entries := by
  rw [readDestinations_bracket] at h
  split_ifs at h
  obtain ⟨es, he, -, hes⟩ := readItems_eq_ok_iff.mp h
  rw [he]
  exact hes

/-- A name that is read from a list comes from one of its pieces. -/
theorem exists_piece_of_mem {items : List (List Char)} {es : List (Ref × Float)}
    (h : List.Forall₂ (SpellsItem fun _ => True) items es) {e : Ref × Float} (he : e ∈ es) :
    ∃ item ∈ items, SpellsItem (fun _ => True) item e := by
  induction h with
  | nil => simp at he
  | cons hi _ ih =>
    rcases List.mem_cons.mp he with rfl | he
    · exact ⟨_, List.mem_cons_self, hi⟩
    · obtain ⟨item, hm, hr⟩ := ih he
      exact ⟨item, List.mem_cons_of_mem _ hm, hr⟩

/-- **A destination set that was read is legible.** -/
theorem legible_of_readDestinations {text : List Char} (hs : Solid text) (ht : '\t' ∉ text)
    (h : readDestinations text = .ok d) : LegibleDestinations d := by
  obtain ⟨c, rest, rfl, -⟩ := hs.head
  by_cases hc : c = '['
  · subst hc
    have hes := readDestinations_list h
    have hne : (splitOn ',' rest.dropLast).map trim ≠ [] := by simp [splitOn_ne_nil]
    have hpiece : ∀ e ∈ d.entries, LegibleName e.1 ∧ isWeight e.2 = true ∧
        ',' ∉ e.1.lexeme.toList := by
      intro e he
      obtain ⟨item, hitem, hr⟩ := exists_piece_of_mem hes he
      obtain ⟨piece, hp, rfl⟩ := List.mem_map.mp hitem
      have hchars : ∀ c ∈ trim piece, c ∈ '[' :: rest ∧ c ≠ ',' := fun c hc =>
        (mem_of_mem_splitOn hp c (mem_of_mem_trim hc)).imp_left fun hm =>
          List.mem_cons_of_mem _ ((List.dropLast_sublist rest).subset hm)
      refine ⟨hr.legibleName (trim_trim piece) (fun c hc => hs.unbroken c (hchars c hc).1)
        (fun hc => ht (hchars _ hc).1), hr.parts.1, fun hc => (hchars _ (hr.subset _ hc)).2 rfl⟩
    refine ⟨?_, fun e he => (hpiece e he).1, fun e he => (hpiece e he).2.1,
      fun _ e he => (hpiece e he).2.2⟩
    intro hnil
    rw [hnil, List.forall₂_nil_right_iff] at hes
    exact hne hes
  · rw [readDestinations_of_ne hc, Except.ok.injEq] at h
    have hentries : d.entries = [(.ofLexeme (String.ofList (c :: rest)), 1)] := by rw [← h]; rfl
    have hbare : isBare d = true := by
      simp only [isBare, hentries]
      decide +kernel
    refine ⟨by simp [hentries], ?_, ?_, fun hb => absurd hbare (by simp [hb])⟩
    · intro e he
      rw [hentries, List.mem_singleton] at he
      subst he
      exact ⟨by simp, by simpa using hs, by simpa using ht⟩
    · intro e he
      rw [hentries, List.mem_singleton] at he
      subst he
      exact isWeight_one

/-! ### Printing destination sets -/

theorem printDestinations_bare {r : Ref} {w : Float} (h : d.entries = [(r, w)])
    (hw : (w == 1) = true) : printDestinations d = r.lexeme := by
  simp [printDestinations, h, weightText?, hw, printItems]

theorem printDestinations_list (h : isBare d = false) : (printDestinations d).toList =
    '[' :: (List.intercalate [',', ' '] (d.entries.map fun e => (itemText e).toList) ++ [']']) := by
  have hitems : printDestinations d =
      "[" ++ String.intercalate ", " (d.entries.map itemText) ++ "]" := by
    unfold printDestinations printItems
    split
    · next r hr =>
      -- a single item without a text for its weight is bare
      obtain ⟨e, he, heq⟩ := List.map_eq_singleton_iff.mp hr
      have hw := (Prod.mk.inj heq).2
      rw [weightText?] at hw
      split_ifs at hw with hone
      simp [isBare, he, hone] at h
    · rw [List.map_map]
      rfl
  rw [hitems]
  simp [String.toList_append, String.toList_intercalate, List.map_map, Function.comp_def]

/-- What is printed for a legible set is solid and holds no tab. -/
theorem solid_printDestinations (hd : LegibleDestinations d)
    (hr : ∀ e ∈ d.entries, ReadsBack e.2) :
    Solid (printDestinations d).toList ∧ '\t' ∉ (printDestinations d).toList := by
  cases hbare : isBare d with
  | true =>
    obtain ⟨r, w, he, hw⟩ := entries_of_isBare hbare
    have hn := hd.names (r, w) (by simp [he])
    rw [printDestinations_bare he hw]
    exact ⟨hn.solid, hn.tabless⟩
  | false =>
    have hitems : ∀ p ∈ d.entries.map fun e => (itemText e).toList, Unbroken p ∧ '\t' ∉ p := by
      intro p hp
      obtain ⟨e, he, rfl⟩ := List.mem_map.mp hp
      obtain ⟨hsolid, htab, -⟩ := solid_itemText (hd.names e he) (hd.weights e he) (hr e he)
      exact ⟨hsolid.unbroken, htab⟩
    rw [printDestinations_list hbare]
    constructor
    · have hopen : Solid ['['] := by decide
      have hclose : Solid [']'] := by decide
      have hbody : Unbroken (List.intercalate [',', ' ']
          (d.entries.map fun e => (itemText e).toList)) :=
        unbroken_intercalate (by decide) fun p hp => (hitems p hp).1
      simpa using hopen.append hbody hclose
    · intro hc
      simp only [List.mem_cons, List.mem_append, List.not_mem_nil, or_false] at hc
      rcases hc with hc | hc | hc
      · exact absurd hc (by decide)
      · rcases mem_intercalate hc with hc | ⟨p, hp, hc⟩
        · exact absurd hc (by decide)
        · exact (hitems p hp).2 hc
      · exact absurd hc (by decide)

/-- What is printed for a list is cut into the texts of its items again. -/
theorem readDestinations_items (hd : LegibleDestinations d)
    (hr : ∀ e ∈ d.entries, ReadsBack e.2) (hbare : isBare d = false) :
    readDestinations (printDestinations d).toList =
      readItems 1 ∅ (d.entries.map fun e => (itemText e).toList) := by
  have hsolid : ∀ e ∈ d.entries, Solid (itemText e).toList ∧ ',' ∉ (itemText e).toList := by
    intro e he
    obtain ⟨h1, -, h2⟩ := solid_itemText (hd.names e he) (hd.weights e he) (hr e he)
    exact ⟨h1, h2 (hd.commaless hbare e he)⟩
  have hne : (d.entries.map fun e => (itemText e).toList) ≠ [] := by simpa using hd.nonempty
  have hempty : (d.entries.map fun e => (itemText e).toList) ≠ [[]] := by
    intro h
    obtain ⟨e, he, hnil⟩ := List.map_eq_singleton_iff.mp h
    exact (hsolid e (by simp [he])).1.nonempty hnil
  rw [printDestinations_list hbare, readDestinations_bracket, List.getLast?_concat,
    List.dropLast_concat, map_trim_splitOn_intercalate (by decide) (by decide) hne, if_pos rfl,
    if_neg hempty]
  intro p hp
  obtain ⟨e, he, rfl⟩ := List.mem_map.mp hp
  exact ⟨(hsolid e he).1.trimmed, (hsolid e he).2⟩

/-- **A legible set that does not clash with the syntax** is read from what is printed for it. -/
theorem readDestinations_print (hd : LegibleDestinations d) (hr : ∀ e ∈ d.entries, ReadsBack e.2)
    (hh : ¬ HyphenClash d) (hb : ¬ BracketClash d) :
    readDestinations (printDestinations d).toList = .ok d := by
  cases hbare : isBare d with
  | true =>
    obtain ⟨r, w, he, hw⟩ := entries_of_isBare hbare
    have hmem : (r, w) ∈ d.entries := by simp [he]
    obtain ⟨c, rest, hc, -⟩ := (hd.names _ hmem).solid.head
    have hbracket : c ≠ '[' := by
      rintro rfl
      exact hb ⟨hbare, _, hmem, by simp [hc]⟩
    have hone := eq_of_beq_of_isWeight (hd.weights _ hmem) hw
    have hspelled := (hd.names _ hmem).spelled
    dsimp only at hc hone hspelled
    rw [printDestinations_bare he hw, hc, readDestinations_of_ne hbracket, ← hc,
      String.ofList_toList, hspelled]
    refine congrArg Except.ok (Dict.ext ?_)
    rw [he, hone]
    rfl
  | false =>
    rw [readDestinations_items hd hr hbare, readItems_eq_ok_iff]
    refine ⟨d.entries, rfl, by simpa using d.nodup, ?_⟩
    rw [List.forall₂_map_left_iff, List.forall₂_same]
    intro e he
    refine readItem_eq_ok_iff.mp
      (readItem_itemText (hd.names e he) (hd.weights e he) (hr e he) (fun hone hm => ?_) 1)
    exact hh ⟨hbare, e, he, hone, hm⟩

/-! ### Clashes -/

section Sums

variable {α β : Type*} {R : α → β → Prop} {f : α → ℕ} {g : β → ℕ} {l : List α} {l' : List β}

theorem sum_le_sum_of_forall₂ (h : List.Forall₂ R l l') (hle : ∀ a ∈ l, ∀ b, R a b → g b ≤ f a) :
    (l'.map g).sum ≤ (l.map f).sum := by
  induction h with
  | nil => exact le_rfl
  | @cons x y l l' hxy _ ih =>
    have hx := hle x List.mem_cons_self y hxy
    have := ih fun a ha => hle a (List.mem_cons_of_mem _ ha)
    rw [List.map_cons, List.map_cons, List.sum_cons, List.sum_cons]
    omega

/-- Elements that are related one by one, never to a larger one and once to a smaller one, have a
smaller sum. -/
theorem sum_lt_sum_of_forall₂ (h : List.Forall₂ R l l') (hle : ∀ a ∈ l, ∀ b, R a b → g b ≤ f a)
    {a : α} (ha : a ∈ l) (hlt : ∀ b, R a b → g b < f a) : (l'.map g).sum < (l.map f).sum := by
  induction h with
  | nil => simp at ha
  | @cons x y l l' hxy hl ih =>
    have hle' : ∀ a ∈ l, ∀ b, R a b → g b ≤ f a := fun a ha => hle a (List.mem_cons_of_mem _ ha)
    rw [List.map_cons, List.map_cons, List.sum_cons, List.sum_cons]
    rcases List.mem_cons.mp ha with rfl | ha
    · have := hlt y hxy
      have := sum_le_sum_of_forall₂ hl hle'
      omega
    · have := hle x List.mem_cons_self y hxy
      have := ih hle' ha
      omega

end Sums

/-- The length of the spelling of a reference. -/
def spellingLength (r : Ref) : ℕ := r.lexeme.toList.length

/-- **A list that clashes at a hyphen never comes back**: no name that is read is longer than the
one that was printed, and the one at the clash is shorter. -/
theorem not_hyphenClash_of_agrees (hd : LegibleDestinations d) (hr : ∀ e ∈ d.entries, ReadsBack e.2)
    (h : readDestinations (printDestinations d).toList = .ok d')
    (ha : d.agrees (· == ·) d' = true) : ¬ HyphenClash d := by
  rintro ⟨hbare, e, he, hone, hhyphen⟩
  rw [readDestinations_items hd hr hbare] at h
  obtain ⟨es, hes, -, hread⟩ := readItems_eq_ok_iff.mp h
  obtain rfl : d'.entries = es := by rw [hes]; rfl
  rw [List.forall₂_map_left_iff] at hread
  -- the names that are read have together fewer characters, as none has more than what was printed
  have hlt : (d'.entries.map fun e => spellingLength e.1).sum <
      (d.entries.map fun e => spellingLength e.1).sum := by
    refine sum_lt_sum_of_forall₂ hread ?_ he ?_
    · intro e he e' hp
      cases hw : e.2 == 1 with
      | true =>
        rw [toList_itemText_of_one hw] at hp
        exact hp.length.1
      | false =>
        have hsame := readItem_itemText (hd.names e he) (hd.weights e he) (hr e he) (by simp [hw]) 1
        rw [readItem_eq_ok_iff.mpr hp] at hsame
        rw [Except.ok.inj hsame]
    · intro e' hp
      rw [toList_itemText_of_one hone] at hp
      exact hp.length.2 hhyphen
  -- but sets that agree have the same names
  have hperm := ((Dict.keys_perm_of_agrees ha).map spellingLength).sum_eq
  simp only [Dict.keys, Entries.keys, List.map_map, Function.comp_def] at hperm
  exact Nat.ne_of_gt hlt hperm

/-- **A bare name that starts with a bracket never comes back**: all names read from inside of the
bracket are shorter. -/
theorem not_bracketClash_of_agrees (h : readDestinations (printDestinations d).toList = .ok d')
    (ha : d.agrees (· == ·) d' = true) : ¬ BracketClash d := by
  rintro ⟨hbare, e, he, hhead⟩
  obtain ⟨r, w, hentries, hw⟩ := entries_of_isBare hbare
  obtain rfl : e = (r, w) := by simpa [hentries] using he
  obtain ⟨body, hbody⟩ : ∃ body, r.lexeme.toList = '[' :: body := by
    cases hl : r.lexeme.toList with
    | nil => simp [hl] at hhead
    | cons c body => exact ⟨body, by simpa [hl] using hhead⟩
  rw [printDestinations_bare hentries hw, hbody] at h
  obtain ⟨v, hv, -⟩ := Dict.find?_of_agrees ha he
  -- the name itself would have to be read from a piece of what follows its bracket
  obtain ⟨item, hitem, hread⟩ := exists_piece_of_mem (readDestinations_list h) hv
  obtain ⟨piece, hpiece, rfl⟩ := List.mem_map.mp hitem
  have h1 := hread.length.1
  have h2 := length_trim_le piece
  have h3 := length_le_of_mem_splitOn hpiece
  rw [hbody, List.length_cons] at h1
  rw [List.length_dropLast] at h3
  omega

end FiniteAutomata.Listing
