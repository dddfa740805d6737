import FiniteAutomata.Proofs.Dict
import FiniteAutomata.Proofs.Diagram.Drafting

/-! # The tables that edges make up

Edges are collected by their source, then by their token, then by their target, and the collection
starts from one empty table for each state. Tables `Hold` a list of edges if they have an entry for
each edge and no other, in the order of the edges that come first. Adding an edge to tables that
hold some makes them hold one more (`Holds.addEdge`), so the tables of edges hold exactly these
(`holds_tables`), and no state is added by an edge that starts from a state (`keys_tables`). -/

namespace FiniteAutomata.Diagram

/-- The tokens of the edges from a state, in the order of the edges. -/
def tokensFrom (es : List Edge) (source : String) : List Token :=
  (es.filter (·.source = source)).map Edge.token

/-- The targets of the edges from a state on a token, in the order of the edges. -/
def targetsOn (es : List Edge) (source : String) (token : Token) : List Ref :=
  (es.filter fun e => e.source = source ∧ e.token = token).map fun e => .named e.target

/-- The table of a state; a state without one has no transitions. -/
def tableAt (states : Dict String Table) (source : String) : Table := (states.find? source).getD ∅

/-- The destination set of a token in a table; a token without one has no destinations. -/
def destinationsOn (table : Table) (token : Token) : Destinations := (table.find? token).getD ∅

/-- Tables have an entry of weight one for each edge and no other entry. The tokens of a state stand
in the order of the edges from the state, and the destinations of a token in the order of the edges
on the token, where repetitions do not count. -/
structure Holds (states : Dict String Table) (es : List Edge) : Prop where
  tokens : ∀ source, (tableAt states source).keys = (tokensFrom es source).eraseDups
  destinations : ∀ source token,
    (destinationsOn (tableAt states source) token).keys = (targetsOn es source token).eraseDups
  weights : ∀ source token, ∀ x ∈ (destinationsOn (tableAt states source) token).entries, x.2 = 1

variable {states : Dict String Table} {names : List String} {es : List Edge}

/-! ### Adding an edge -/

theorem tokensFrom_append (es : List Edge) (e : Edge) (source : String) :
    tokensFrom (es ++ [e]) source =
      if e.source = source then tokensFrom es source ++ [e.token] else tokensFrom es source := by
  by_cases h : e.source = source <;> simp [tokensFrom, h]

theorem targetsOn_append (es : List Edge) (e : Edge) (source : String) (token : Token) :
    targetsOn (es ++ [e]) source token =
      if e.source = source ∧ e.token = token then targetsOn es source token ++ [.named e.target]
      else targetsOn es source token := by
  by_cases h : e.source = source ∧ e.token = token <;> simp [targetsOn, h]

theorem tableAt_addEdge (states : Dict String Table) (e : Edge) (source : String) :
    tableAt (addEdge states e) source =
      if e.source = source then
        (tableAt states source).insert e.token
          ((destinationsOn (tableAt states source) e.token).insert (.named e.target) 1)
      else tableAt states source := by
  rw [addEdge, addArrow, tableAt, Dict.find?_insert]
  split_ifs with h
  · rw [← h]
    rfl
  · rfl

theorem destinationsOn_addEdge (states : Dict String Table) (e : Edge) (source : String)
    (token : Token) : destinationsOn (tableAt (addEdge states e) source) token =
      if e.source = source ∧ e.token = token then
        (destinationsOn (tableAt states source) token).insert (.named e.target) 1
      else destinationsOn (tableAt states source) token := by
  rw [tableAt_addEdge]
  by_cases hsource : e.source = source
  · rw [if_pos hsource, destinationsOn, Dict.find?_insert]
    by_cases htoken : e.token = token
    · rw [if_pos htoken, if_pos ⟨hsource, htoken⟩, htoken, Option.getD_some]
    · rw [if_neg htoken, if_neg fun h => htoken h.2, ← destinationsOn]
  · rw [if_neg hsource, if_neg fun h => hsource h.1]

/-- An edge that is added is held along with those before it. -/
theorem Holds.addEdge (h : Holds states es) (e : Edge) :
    Holds (addEdge states e) (es ++ [e]) := by
  refine ⟨fun source => ?_, fun source token => ?_, fun source token x hx => ?_⟩
  · rw [tableAt_addEdge, tokensFrom_append]
    split_ifs
    · exact Dict.keys_insert_of_eraseDups (h.tokens source) e.token _
    · exact h.tokens source
  · rw [destinationsOn_addEdge, targetsOn_append]
    split_ifs
    · exact Dict.keys_insert_of_eraseDups (h.destinations source token) _ 1
    · exact h.destinations source token
  · rw [destinationsOn_addEdge] at hx
    split_ifs at hx
    · rcases Dict.mem_entries_insert.mp hx with ⟨-, hone⟩ | ⟨-, hx⟩
      · exact hone
      · exact h.weights source token x hx
    · exact h.weights source token x hx

theorem keys_addEdge {e : Edge} (h : e.source ∈ states.keys) :
    (addEdge states e).keys = states.keys := by
  rw [addEdge, addArrow, Dict.keys_insert, if_pos h]

/-! ### From the first edge to the last -/

theorem tables_append (names : List String) (es : List Edge) (e : Edge) :
    tables names (es ++ [e]) = addEdge (tables names es) e := by
  rw [tables, List.foldl_append, List.foldl_cons, List.foldl_nil, ← tables]

theorem tableAt_tables_nil (names : List String) (source : String) :
    tableAt (tables names []) source = ∅ := by
  unfold tableAt
  cases hf : (tables names []).find? source with
  | none => rfl
  | some table =>
    obtain ⟨name, -, hname⟩ := List.mem_map.mp (Dict.mem_of_mem_ofList (Dict.find?_eq_some_iff.mp hf))
    exact (Prod.ext_iff.mp hname).2.symm

/-- **The tables of edges hold these edges** and nothing else. -/
theorem holds_tables (names : List String) (es : List Edge) : Holds (tables names es) es := by
  induction es using List.reverseRecOn with
  | nil =>
    refine ⟨fun source => ?_, fun source token => ?_, fun source token x hx => ?_⟩
    · rw [tableAt_tables_nil]
      rfl
    · rw [tableAt_tables_nil]
      rfl
    · rw [tableAt_tables_nil] at hx
      cases hx
  | append_singleton es e ih => exact tables_append names es e ▸ ih.addEdge e

/-- **The states are those that the tables started with**, if every edge starts from one. -/
theorem keys_tables (hnames : names.Nodup) (hes : ∀ e ∈ es, e.source ∈ names) :
    (tables names es).keys = names := by
  induction es using List.reverseRecOn with
  | nil =>
    have hkeys : Entries.keys (names.map fun name => (name, (∅ : Table))) = names := by
      simp [Entries.keys, Function.comp_def]
    have hentries := Dict.entries_insertAll (d := (∅ : Dict String Table))
      (l := names.map fun name => (name, ∅)) (by rwa [hkeys])
    rw [Dict.keys, tables, List.foldl_nil, Dict.ofList, ← Dict.insertAll, hentries]
    exact hkeys
  | append_singleton es e ih =>
    have hkeys := ih fun e' he' => hes e' (List.mem_append_left _ he')
    have hsource : e.source ∈ (tables names es).keys := by
      rw [hkeys]
      exact hes e (by simp)
    rw [tables_append, keys_addEdge hsource, hkeys]

/-! ### What tables hold -/

theorem mem_targetsOn {source : String} {token : Token} {ref : Ref} : ref ∈ targetsOn es source token ↔
    ∃ e ∈ es, e.source = source ∧ e.token = token ∧ ref = .named e.target := by
  simp only [targetsOn, List.mem_map, List.mem_filter, decide_eq_true_iff, and_assoc,
    eq_comm (a := ref)]

theorem mem_tokensFrom {source : String} {token : Token} :
    token ∈ tokensFrom es source ↔ ∃ e ∈ es, e.source = source ∧ e.token = token := by
  simp [tokensFrom, and_assoc]

theorem Holds.mem_destinations (h : Holds states es) {source : String} {token : Token} {ref : Ref} :
    ref ∈ destinationsOn (tableAt states source) token ↔
      ∃ e ∈ es, e.source = source ∧ e.token = token ∧ ref = .named e.target := by
  rw [Dict.mem_iff_mem_keys, h.destinations, List.mem_eraseDups, mem_targetsOn]

theorem Holds.mem_tokens (h : Holds states es) {source : String} {token : Token} :
    token ∈ tableAt states source ↔ ∃ e ∈ es, e.source = source ∧ e.token = token := by
  rw [Dict.mem_iff_mem_keys, h.tokens, List.mem_eraseDups, mem_tokensFrom]

theorem destinationsOn_of_mem {s : String × Table} {t : Token × Destinations}
    (hs : s ∈ states.entries) (ht : t ∈ s.2.entries) :
    destinationsOn (tableAt states s.1) t.1 = t.2 := by
  rw [tableAt, Dict.find?_eq_some_iff.mpr hs, Option.getD_some, destinationsOn,
    Dict.find?_eq_some_iff.mpr ht, Option.getD_some]

/-- Every destination is the target of an edge. -/
theorem Holds.exists_target (h : Holds states es) {s : String × Table} {t : Token × Destinations}
    {x : Ref × Float} (hs : s ∈ states.entries) (ht : t ∈ s.2.entries) (hx : x ∈ t.2.entries) :
    ∃ e ∈ es, x.1 = .named e.target := by
  have hmem : x.1 ∈ destinationsOn (tableAt states s.1) t.1 := by
    rw [destinationsOn_of_mem hs ht]
    exact Dict.mem_iff_mem_keys.mpr (List.mem_map_of_mem hx)
  obtain ⟨e, he, -, -, htarget⟩ := h.mem_destinations.mp hmem
  exact ⟨e, he, htarget⟩

/-- The tokens in use are those of the edges. -/
theorem Holds.mem_tokenNames (h : Holds states es) {name : String} :
    name ∈ Draft.tokenNames states.entries ↔ ∃ e ∈ es, e.token = .named name := by
  rw [Draft.mem_tokenNames]
  constructor
  · rintro ⟨s, hs, hname⟩
    have htoken : Ref.named name ∈ tableAt states s.1 := by
      rw [tableAt, Dict.find?_eq_some_iff.mpr hs, Option.getD_some]
      exact Dict.mem_iff_mem_keys.mpr hname
    obtain ⟨e, he, -, heq⟩ := h.mem_tokens.mp htoken
    exact ⟨e, he, heq⟩
  · rintro ⟨e, he, heq⟩
    have htoken : Ref.named name ∈ tableAt states e.source := h.mem_tokens.mpr ⟨e, he, rfl, heq⟩
    unfold tableAt at htoken
    cases hf : states.find? e.source with
    | none =>
      rw [hf] at htoken
      cases htoken
    | some table =>
      rw [hf] at htoken
      exact ⟨_, Dict.find?_eq_some_iff.mp hf, Dict.mem_iff_mem_keys.mp htoken⟩

/-- **Tables that hold the same edges agree**, in whatever order they hold them. -/
theorem Holds.agrees {states' : Dict String Table} {es' : List Edge} (h : Holds states es)
    (h' : Holds states' es') (hes : es.Perm es') (hkeys : states.keys.Perm states'.keys) :
    states.agrees Program.tablesAgree states' = true := by
  refine Dict.agrees_of_keys_perm hkeys fun source table table' ht ht' => ?_
  have htable : tableAt states source = table := by rw [tableAt, ht, Option.getD_some]
  have htable' : tableAt states' source = table' := by rw [tableAt, ht', Option.getD_some]
  have htokens : ∀ token, token ∈ table.keys ↔ token ∈ table'.keys := by
    intro token
    rw [← htable, ← htable', ← Dict.mem_iff_mem_keys, ← Dict.mem_iff_mem_keys, h.mem_tokens,
      h'.mem_tokens]
    simp only [hes.mem_iff]
  refine Dict.agrees_of_keys_perm ((List.perm_ext_iff_of_nodup table.nodup table'.nodup).mpr htokens)
    fun token d d' hd hd' => ?_
  have hset : destinationsOn (tableAt states source) token = d := by
    rw [htable, destinationsOn, hd, Option.getD_some]
  have hset' : destinationsOn (tableAt states' source) token = d' := by
    rw [htable', destinationsOn, hd', Option.getD_some]
  have hrefs : ∀ ref, ref ∈ d.keys ↔ ref ∈ d'.keys := by
    intro ref
    rw [← hset, ← hset', ← Dict.mem_iff_mem_keys, ← Dict.mem_iff_mem_keys, h.mem_destinations,
      h'.mem_destinations]
    simp only [hes.mem_iff]
  refine Dict.agrees_of_keys_perm ((List.perm_ext_iff_of_nodup d.nodup d'.nodup).mpr hrefs)
    fun ref w w' hw hw' => ?_
  obtain rfl : w = 1 := h.weights source token (ref, w) (hset ▸ Dict.find?_eq_some_iff.mp hw)
  obtain rfl : w' = 1 := h'.weights source token (ref, w') (hset' ▸ Dict.find?_eq_some_iff.mp hw')
  decide +kernel

end FiniteAutomata.Diagram
