import ChartParsing.Grammar.Register
import ChartParsing.Proofs.DraftedGrammar
import Std.Data.HashMap.Lemmas
import Std.Data.HashSet.Lemmas

/-!
# Look-ups of a registered grammar

A register keeps five tables: its names, the table that finds them, its rules, the set of them,
and what its grammar tabulates for a chart.  They are filled at different places, and yet they say
the same: the look-ups of a grammar are exact views of its names and of its rules.

**Invariant.** `Register.Tracks` relates a register to a draft of the same declarations: the table
of names finds what a search would find, and the set holds the rules of the list.  A declaration
keeps it, also one that is refused or repeated (`Register.Tracks.add`), and so do any number of
declarations (`Register.Tracks.addAll`).

**Results.**
* `Register.map_toGrammar_addAll`: a register has the grammar that the declarations describe, or
  reports the same error.
* `Grammar.WellFormed.listed_eq`: what the two tables of a chart list under one key are the rules
  of that key, in the order of the rules.
* `IndexedGrammar.lookups_view_rules`: the look-ups of a registered grammar are exact views.
-/

namespace ChartParsing

/-- A name that is added at the end is found there, and the others where they were. -/
theorem idxOf?_append_singleton
    {names : List String} {name : String}
    (hnew : name ∉ names)
    (other : String) :
    (names ++ [name]).idxOf? other =
      if name = other then some names.length else names.idxOf? other := by
  have happend : (names ++ [name]).idxOf? other =
      (names.idxOf? other).or (if name = other then some names.length else none) := by
    simp [List.idxOf?, List.findIdx?_append]
  rw [happend]
  by_cases h : name = other
  · subst h
    rw [List.idxOf?_eq_none_iff.mpr hnew, Option.none_or]
  · rw [if_neg h, if_neg h, Option.or_none]

namespace Register

variable {r : Register} {d : Draft}

/-- A register holds what a draft holds, and its tables say the same as the lists. -/
structure Tracks (r : Register) (d : Draft) : Prop where
  toDraft_eq : r.toDraft = d
  index_eq : ∀ name, r.index[name]? = (d.symbols.idxOf? name).map Symbol.mk
  mem_seen_iff : ∀ rule, rule ∈ r.seen ↔ rule ∈ d.rules

theorem tracks_empty : empty.Tracks Draft.empty where
  toDraft_eq := rfl
  index_eq name := by simp [empty, Draft.empty, Builder.empty]
  mem_seen_iff rule := by simp [empty, Draft.empty, Builder.empty]

theorem Tracks.refuse
    (h : r.Tracks d)
    (e : GrammarError) :
    (r.refuse e).Tracks (d.refuse e) := by
  obtain ⟨rfl, hindex, hseen⟩ := h
  exact ⟨rfl, hindex, hseen⟩

theorem Tracks.mem_index_iff
    (h : r.Tracks d)
    (name : String) :
    name ∈ r.index ↔ name ∈ d.symbols := by
  rw [Std.HashMap.mem_iff_isSome_getElem?, h.index_eq, Option.isSome_map, List.isSome_idxOf?]

/-- The table finds the symbol that a search would find. -/
theorem Tracks.lookup
    (h : r.Tracks d)
    (name : String) :
    (r.lookup name).1 = (d.lookup name).1 ∧ (r.lookup name).2.Tracks (d.lookup name).2 := by
  unfold Register.lookup Draft.lookup
  rw [h.index_eq]
  cases d.symbols.idxOf? name with
  | none => exact ⟨rfl, h.refuse _⟩
  | some index => exact ⟨rfl, h⟩

theorem Tracks.addSymbol
    (h : r.Tracks d)
    (repeats : Repeats)
    (name : String) :
    (r.addSymbol repeats name).Tracks (d.addSymbol repeats name) := by
  unfold Register.addSymbol Draft.addSymbol
  by_cases hname : name ∈ d.symbols
  · rw [if_pos ((h.mem_index_iff name).mpr hname), if_pos hname]
    cases repeats with
    | refused => exact h.refuse _
    | ignored => exact h
  · rw [if_neg (fun hmem => hname ((h.mem_index_iff name).mp hmem)), if_neg hname]
    obtain ⟨rfl, hindex, hseen⟩ := h
    refine ⟨rfl, ?_, hseen⟩
    intro other
    simp only [Std.HashMap.getElem?_insert, beq_iff_eq, hindex,
      idxOf?_append_singleton hname]
    split <;> rfl

theorem Tracks.addRule
    (h : r.Tracks d)
    (repeats : Repeats)
    (rule : Rule) :
    (r.addRule repeats rule).Tracks (d.addRule repeats rule) := by
  unfold Register.addRule Draft.addRule
  by_cases hrule : rule ∈ d.rules
  · rw [if_pos ((h.mem_seen_iff rule).mpr hrule), if_pos hrule]
    cases repeats with
    | refused =>
        obtain ⟨rfl, hindex, hseen⟩ := h
        exact ⟨rfl, hindex, hseen⟩
    | ignored => exact h
  · rw [if_neg (fun hmem => hrule ((h.mem_seen_iff rule).mp hmem)), if_neg hrule]
    obtain ⟨rfl, hindex, hseen⟩ := h
    refine ⟨rfl, hindex, ?_⟩
    intro other
    simp only [Std.HashSet.mem_insert, beq_iff_eq, hseen, List.mem_append, List.mem_singleton]
    rw [or_comm, eq_comm]

theorem add_of_length_ne
    (r : Register)
    {head : String} {body : List String}
    (hbody : body.length ≠ 2)
    (repeats : Repeats) :
    r.add ⟨.production head body, repeats⟩ = r.refuse (.notNormalForm head body) := by
  unfold add
  split <;> simp_all

/-- A declaration is followed by a register as by a draft. -/
theorem Tracks.add
    (h : r.Tracks d)
    (x : Declaration) :
    (r.add x).Tracks (d.add x) := by
  obtain ⟨item, repeats⟩ := x
  cases item with
  | nonterminal name => exact h.addSymbol repeats name
  | production head body =>
      by_cases hbody : body.length = 2
      · obtain ⟨left, right, rfl⟩ := List.length_eq_two.mp hbody
        -- the three names are looked up one after another, whatever was found
        obtain ⟨hleft, h⟩ := h.lookup left
        obtain ⟨hright, h⟩ := h.lookup right
        obtain ⟨hhead, h⟩ := h.lookup head
        simp only [Register.add, Draft.add, hleft, hright, hhead]
        rcases (d.lookup left).1 with _ | B
        · exact h
        · rcases ((d.lookup left).2.lookup right).1 with _ | C
          · exact h
          · rcases (((d.lookup left).2.lookup right).2.lookup head).1 with _ | A
            · exact h
            · exact h.addRule repeats _
      · rw [add_of_length_ne r hbody, Draft.add_of_length_ne d hbody]
        exact h.refuse _
  | lexical head word =>
      obtain ⟨hhead, h⟩ := h.lookup head
      simp only [Register.add, Draft.add, hhead]
      rcases (d.lookup head).1 with _ | A
      · exact h
      · exact h.addRule repeats _

/-- Declarations are followed by a register as by a draft. -/
theorem Tracks.addAll
    (h : r.Tracks d)
    (declarations : List Declaration) :
    (r.addAll declarations).Tracks (d.addAll declarations) := by
  induction declarations generalizing r d with
  | nil => exact h
  | cons x rest ih => exact ih (h.add x)

/-- A register has the grammar of a draft, or reports the same error. -/
theorem Tracks.map_toGrammar
    (h : r.Tracks d)
    (start : String) :
    (r.toGrammar start).map IndexedGrammar.toGrammar = d.toGrammar start := by
  obtain ⟨hstart, h⟩ := h.lookup start
  simp only [Register.toGrammar, Draft.toGrammar, hstart, ← h.toDraft_eq]
  rcases (r.lookup start).2.refusal? with _ | e
  · rcases (d.lookup start).1 with _ | A
    · rfl
    · by_cases hrules : (r.lookup start).2.rules.isEmpty = true
      · simp only [if_pos hrules]
        rfl
      · simp only [if_neg hrules]
        rfl
  · rfl

/-- The table of names comes along with the grammar. -/
theorem Tracks.symbolOf?_eq
    {start : String} {g : IndexedGrammar}
    (h : r.Tracks d)
    (hg : r.toGrammar start = .ok g)
    (name : String) :
    g.symbolOf? name = g.symbol? name := by
  obtain ⟨_, h⟩ := h.lookup start
  simp only [Register.toGrammar] at hg
  split at hg
  · cases hg
  · cases hg
  · split at hg
    · cases hg
    · cases hg
      obtain ⟨hdraft, hindex, _⟩ := h
      rw [← hdraft] at hindex
      exact hindex name

/-- A register of declarations has the grammar that they describe, or reports the same error. -/
theorem map_toGrammar_addAll
    (declarations : List Declaration)
    (start : String) :
    ((empty.addAll declarations).toGrammar start).map IndexedGrammar.toGrammar =
      Grammar.ofDeclarations declarations start := by
  rw [(tracks_empty.addAll declarations).map_toGrammar, Draft.toGrammar_addAll]

end Register

/-- What the tables of a chart are asked: a word, or the symbol that begins a body. -/
inductive Grammar.Key
  | word (text : String)
  | left (symbol : Symbol)
  deriving DecidableEq, Repr

/-- The key under which a rule is found. -/
def Rule.key : Rule → Grammar.Key
  | binary r => .left r.left
  | lexical _ word => .word word

namespace Grammar

/-- The rules that the tables list under a key. -/
def listed (g : Grammar) : Key → List Rule
  | .word text => (g.lexicalHeads text).map (Rule.lexical · text)
  | .left symbol => (g.binaryRulesByLeft symbol).map Rule.binary

theorem symbol?_eq_some_iff
    {g : Grammar} {name : String} {A : Symbol} :
    g.symbol? name = some A ↔ g.symbols.idxOf? name = some A.index := by
  rw [symbol?, Option.map_eq_some_iff]
  constructor
  · rintro ⟨index, hindex, rfl⟩
    exact hindex
  · intro hindex
    exact ⟨A.index, hindex, rfl⟩

/-- A name that is known is that of its symbol. -/
theorem name_of_symbol?
    {g : Grammar} {name : String} {A : Symbol}
    (h : g.symbol? name = some A) :
    A.index < g.symbols.length ∧ g.name A = name := by
  obtain ⟨hlt, hget, _⟩ := List.idxOf?_eq_some_iff.mp (symbol?_eq_some_iff.mp h)
  refine ⟨hlt, ?_⟩
  rw [Grammar.name, List.getD_eq_getElem?_getD, List.getElem?_eq_getElem hlt, Option.getD_some]
  exact hget

namespace WellFormed

variable {g : Grammar}

/-- A symbol is known under its name. -/
theorem symbol?_name
    (hg : g.WellFormed)
    {A : Symbol}
    (hA : A.index < g.symbols.length) :
    g.symbol? (g.name A) = some A := by
  have hmem : g.name A ∈ g.symbols := by
    rw [Grammar.name, List.getD_eq_getElem?_getD, List.getElem?_eq_getElem hA, Option.getD_some]
    exact List.getElem_mem hA
  obtain ⟨index, hindex⟩ := Option.isSome_iff_exists.mp (List.isSome_idxOf?.mpr hmem)
  have hknown : g.symbol? (g.name A) = some ⟨index⟩ := symbol?_eq_some_iff.mpr hindex
  obtain ⟨hlt, hname⟩ := name_of_symbol? hknown
  rw [hknown, hg.name_injective hlt hA hname]

theorem size_byLeft
    (hg : g.WellFormed) :
    g.byLeft.size = g.symbols.length := by
  rw [hg.eq_ofRules]
  exact size_tabulateByLeft g.symbols.length g.rules

/-- The tables list under a key the rules of that key, in the order of the rules. -/
theorem listed_eq
    (hg : g.WellFormed)
    (key : Key) :
    g.listed key = g.rules.filter (·.key = key) := by
  rw [← List.filterMap_eq_filter]
  cases key with
  | word text =>
      rw [listed, hg.lexicalHeads_eq, List.map_filterMap]
      refine List.filterMap_congr ?_
      intro rule _
      cases rule with
      | binary r => simp [Rule.headOver?, Rule.key, Option.guard]
      | lexical head word =>
          by_cases h : word = text <;> simp [Rule.headOver?, Rule.key, Option.guard, h]
  | left symbol =>
      rw [listed, hg.binaryRulesByLeft_eq, List.map_filterMap]
      refine List.filterMap_congr ?_
      intro rule _
      cases rule with
      | binary r =>
          by_cases h : r.left = symbol <;> simp [Rule.binaryFrom?, Rule.key, Option.guard, h]
      | lexical head word => simp [Rule.binaryFrom?, Rule.key, Option.guard]

/-- Every rule is found under one key, once. -/
theorem found_once
    (hg : g.WellFormed)
    {rule : Rule}
    (hrule : rule ∈ g.rules) :
    ∃ key, (g.listed key).count rule = 1 ∧ ∀ other, other ≠ key → rule ∉ g.listed other := by
  refine ⟨rule.key, ?_, ?_⟩
  · rw [hg.listed_eq]
    exact List.count_eq_one_of_mem (hg.nodup_rules.filter _) (List.mem_filter.mpr ⟨hrule, by simp⟩)
  · intro other hother hmem
    rw [hg.listed_eq, List.mem_filter] at hmem
    exact hother (of_decide_eq_true hmem.2).symm

end WellFormed
end Grammar

namespace IndexedGrammar

/-- The look-ups of a grammar are exact views of its names and of its rules. -/
structure ExactViews (g : IndexedGrammar) : Prop where
  nodup_symbols : g.symbols.Nodup
  symbolOf?_name : ∀ A : Symbol, A.index < g.symbols.length → g.symbolOf? (g.name A) = some A
  name_of_symbolOf? : ∀ name A, g.symbolOf? name = some A →
    A.index < g.symbols.length ∧ g.name A = name
  /-- No look-up of a name or of the rules from a symbol leaves its table. -/
  in_tables : ∀ A, (A = g.start ∨ ∃ rule ∈ g.rules, A ∈ rule.symbolList) →
    A.index < g.symbols.length ∧ A.index < g.byLeft.size
  nodup_rules : g.rules.Nodup
  lexicalHeads_eq : ∀ word, g.lexicalHeads word = g.rules.filterMap (Rule.headOver? word)
  nodup_lexicalHeads : ∀ word, (g.lexicalHeads word).Nodup
  lexicalHeads_eq_nil : ∀ word, (∀ A, .lexical A word ∉ g.rules) → g.lexicalHeads word = []
  binaryRulesByLeft_eq : ∀ B, g.binaryRulesByLeft B = g.rules.filterMap (Rule.binaryFrom? B)
  mem_rules_iff : ∀ rule, rule ∈ g.rules ↔ ∃ key, rule ∈ g.listed key
  found_once : ∀ rule ∈ g.rules,
    ∃ key, (g.listed key).count rule = 1 ∧ ∀ other, other ≠ key → rule ∉ g.listed other

theorem exactViews
    {g : IndexedGrammar}
    (hg : g.WellFormed)
    (hindex : ∀ name, g.symbolOf? name = g.symbol? name) :
    g.ExactViews where
  nodup_symbols := hg.nodup_symbols
  symbolOf?_name A hA := by rw [hindex, hg.symbol?_name hA]
  name_of_symbolOf? name A h := Grammar.name_of_symbol? ((hindex name).symm.trans h)
  in_tables A hA := by
    rw [hg.size_byLeft, and_self]
    rcases hA with rfl | ⟨rule, hrule, hA⟩
    · exact hg.start_lt
    · exact Rule.index_lt_of_mem (hg.below rule hrule) hA
  nodup_rules := hg.nodup_rules
  lexicalHeads_eq := hg.lexicalHeads_eq
  nodup_lexicalHeads := hg.nodup_lexicalHeads
  lexicalHeads_eq_nil word hnone := by
    refine List.eq_nil_iff_forall_not_mem.mpr ?_
    intro A hA
    exact hnone A (hg.mem_lexicalHeads_iff.mp hA)
  binaryRulesByLeft_eq := hg.binaryRulesByLeft_eq
  mem_rules_iff rule := by
    simp only [hg.listed_eq, List.mem_filter, decide_eq_true_eq, exists_and_left, exists_eq',
      and_true]
  found_once rule hrule := hg.found_once hrule

/-- The look-ups of the grammar of a register are exact views of its names and of its rules,
whatever was declared; and the grammar is the one that the declarations describe. -/
theorem lookups_view_rules
    {declarations : List Declaration} {start : String} {g : IndexedGrammar}
    (h : (Register.empty.addAll declarations).toGrammar start = .ok g) :
    Grammar.ofDeclarations declarations start = .ok g.toGrammar ∧ g.ExactViews := by
  have hmap := Register.map_toGrammar_addAll declarations start
  rw [h] at hmap
  refine ⟨hmap.symm, exactViews (.of_ofDeclarations hmap.symm) ?_⟩
  exact (Register.tracks_empty.addAll declarations).symbolOf?_eq h

/-- Names and rules that are declared again, and a word of two symbols. -/
def repeatedDeclarations : List Declaration :=
  [⟨.nonterminal "S", .refused⟩, ⟨.nonterminal "X", .refused⟩, ⟨.nonterminal "S", .ignored⟩,
    ⟨.production "S" ["X", "S"], .refused⟩, ⟨.lexical "X" "a", .refused⟩,
    ⟨.production "S" ["X", "S"], .ignored⟩, ⟨.lexical "S" "a", .refused⟩]

def repeatedGrammar : Grammar :=
  .ofRules ["S", "X"] ⟨0⟩
    [.binary ⟨⟨0⟩, ⟨1⟩, ⟨0⟩⟩, .lexical ⟨1⟩ "a", .lexical ⟨0⟩ "a"]

/-- Both symbols of a word are listed, in the order of their rules. -/
theorem lookups_view_repeatedRules :
    ∃ g : IndexedGrammar,
      (Register.empty.addAll repeatedDeclarations).toGrammar "S" = .ok g ∧
      g.toGrammar = repeatedGrammar ∧ g.symbolOf? "X" = some ⟨1⟩ ∧
      g.lexicalHeads "a" = [⟨1⟩, ⟨0⟩] ∧ g.lexicalHeads "b" = [] := by
  have hdescribed : Grammar.ofDeclarations repeatedDeclarations "S" = .ok repeatedGrammar := by
    decide
  have hmap := Register.map_toGrammar_addAll repeatedDeclarations "S"
  rw [hdescribed] at hmap
  cases hg : (Register.empty.addAll repeatedDeclarations).toGrammar "S" with
  | error e =>
      rw [hg] at hmap
      cases hmap
  | ok g =>
      obtain ⟨_, hviews⟩ := lookups_view_rules hg
      rw [hg] at hmap
      obtain ⟨grammar, index⟩ := g
      obtain rfl : grammar = repeatedGrammar := Except.ok.inj hmap
      have hknown : (⟨1⟩ : Symbol).index < repeatedGrammar.symbols.length := by
        decide
      have hheads : repeatedGrammar.rules.filterMap (Rule.headOver? "a") = [⟨1⟩, ⟨0⟩] := by
        decide
      refine ⟨_, rfl, rfl, hviews.symbolOf?_name ⟨1⟩ hknown, ?_, ?_⟩
      · exact (hviews.lexicalHeads_eq "a").trans hheads
      · exact hviews.lexicalHeads_eq_nil "b" (by simp [repeatedGrammar, Grammar.ofRules])

end IndexedGrammar
end ChartParsing
