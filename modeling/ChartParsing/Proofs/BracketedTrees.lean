import ChartParsing.Proofs.BatchRuns

/-!
# Trees in brackets

A tree is written in brackets without escaping anything in its symbols and words.  It can still be
told from its text, as long as no symbol holds a space and no word a bracket: a symbol goes up to
the first space, behind which only a tree begins with a bracket, and a word goes up to the first
closing bracket.

**Step.** A text that goes on behind a tree says which tree it is and where the tree ends
(`Tree.text_append_inj`, by induction on the tree, with any text behind it).

**Results.** `bracketed_texts_identify`: different trees have different texts, of which none begins
another one, and so a batch lists as many different texts as it counts derivations.
-/

namespace ChartParsing

/-- A name that ends where the first space is. -/
def IsLabel (name : String) : Prop :=
  ' ' ∉ name.toList

/-- A word without brackets. -/
def IsUnbracketed (word : String) : Prop :=
  '[' ∉ word.toList ∧ ']' ∉ word.toList

instance (name : String) : Decidable (IsLabel name) :=
  inferInstanceAs (Decidable (' ' ∉ name.toList))

instance (word : String) : Decidable (IsUnbracketed word) :=
  inferInstanceAs (Decidable ('[' ∉ word.toList ∧ ']' ∉ word.toList))

/-- Two texts that are cut at the first occurrence of the same mark. -/
theorem append_cons_inj_of_free
    {α : Type}
    {mark : α} {before before' rest rest' : List α}
    (hbefore : mark ∉ before)
    (hbefore' : mark ∉ before')
    (h : before ++ mark :: rest = before' ++ mark :: rest') :
    before = before' ∧ rest = rest' := by
  induction before generalizing before' with
  | nil =>
      cases before' with
      | nil => exact ⟨rfl, (List.cons.inj h).2⟩
      | cons x before' =>
          obtain ⟨rfl, -⟩ := List.cons.inj h
          exact absurd List.mem_cons_self hbefore'
  | cons x before ih =>
      cases before' with
      | nil =>
          obtain ⟨rfl, -⟩ := List.cons.inj h
          exact absurd List.mem_cons_self hbefore
      | cons x' before' =>
          obtain ⟨rfl, htail⟩ := List.cons.inj h
          obtain ⟨rfl, hrest⟩ := ih (List.not_mem_of_not_mem_cons hbefore)
            (List.not_mem_of_not_mem_cons hbefore') htail
          exact ⟨rfl, hrest⟩

namespace Tree

/-- The symbols of a tree, each in front of those below it. -/
def symbols : Tree → List String
  | leaf symbol _ => [symbol]
  | node symbol left right => symbol :: (left.symbols ++ right.symbols)

/-- The tree can be told from its text: no symbol holds a space, and no word a bracket. -/
structure Legible (t : Tree) : Prop where
  isLabel : ∀ symbol ∈ t.symbols, IsLabel symbol
  isUnbracketed : ∀ word ∈ t.words, IsUnbracketed word

variable {t t' left right : Tree} {symbol word : String} {rest rest' : List Char}

theorem legible_leaf_iff :
    (leaf symbol word).Legible ↔ IsLabel symbol ∧ IsUnbracketed word := by
  constructor
  · rintro ⟨hsymbols, hwords⟩
    exact ⟨hsymbols symbol List.mem_cons_self, hwords word List.mem_cons_self⟩
  · rintro ⟨hsymbol, hword⟩
    exact ⟨List.forall_mem_singleton.mpr hsymbol, List.forall_mem_singleton.mpr hword⟩

theorem legible_node_iff :
    (node symbol left right).Legible ↔ IsLabel symbol ∧ left.Legible ∧ right.Legible := by
  constructor
  · rintro ⟨hsymbols, hwords⟩
    obtain ⟨hsymbol, hsymbols⟩ := List.forall_mem_cons.mp hsymbols
    obtain ⟨hleft, hright⟩ := List.forall_mem_append.mp hsymbols
    obtain ⟨hleft', hright'⟩ := List.forall_mem_append.mp hwords
    exact ⟨hsymbol, ⟨hleft, hleft'⟩, ⟨hright, hright'⟩⟩
  · rintro ⟨hsymbol, ⟨hleft, hleft'⟩, ⟨hright, hright'⟩⟩
    exact ⟨List.forall_mem_cons.mpr ⟨hsymbol, List.forall_mem_append.mpr ⟨hleft, hright⟩⟩,
      List.forall_mem_append.mpr ⟨hleft', hright'⟩⟩

theorem toList_text_leaf
    (symbol word : String)
    (rest : List Char) :
    (leaf symbol word).text.toList ++ rest =
      '[' :: (symbol.toList ++ ' ' :: (word.toList ++ ']' :: rest)) := by
  simp [text]

theorem toList_text_node
    (symbol : String)
    (left right : Tree)
    (rest : List Char) :
    (node symbol left right).text.toList ++ rest =
      '[' :: (symbol.toList ++ ' ' ::
        (left.text.toList ++ ' ' :: (right.text.toList ++ ']' :: rest))) := by
  simp [text]

theorem head?_text
    (t : Tree)
    (rest : List Char) :
    (t.text.toList ++ rest).head? = some '[' := by
  cases t with
  | leaf symbol word => rw [toList_text_leaf, List.head?_cons]
  | node symbol left right => rw [toList_text_node, List.head?_cons]

/-- Behind a symbol, a word does not go on as a tree does. -/
theorem head?_word_ne
    (hword : IsUnbracketed word)
    (rest : List Char) :
    (word.toList ++ ']' :: rest).head? ≠ some '[' := by
  rw [List.head?_append]
  intro h
  cases hhead : word.toList.head? with
  | none =>
      rw [hhead] at h
      cases h
  | some c =>
      rw [hhead] at h
      obtain rfl : c = '[' := Option.some.inj h
      exact hword.1 (List.mem_of_head? hhead)

/-- A leaf and a node are told apart behind their symbols. -/
theorem leaf_ne_node
    (hleaf : (leaf symbol word).Legible)
    {symbol' : String}
    (hnode : (node symbol' left right).Legible) :
    (leaf symbol word).text.toList ++ rest ≠ (node symbol' left right).text.toList ++ rest' := by
  obtain ⟨hsymbol, hword⟩ := legible_leaf_iff.mp hleaf
  obtain ⟨hsymbol', -, -⟩ := legible_node_iff.mp hnode
  intro h
  rw [toList_text_leaf, toList_text_node] at h
  obtain ⟨-, hbehind⟩ := append_cons_inj_of_free hsymbol hsymbol' (List.cons.inj h).2
  refine head?_word_ne hword rest ?_
  rw [hbehind, head?_text]

/-- A text says which tree it begins with, and where that ends. -/
theorem text_append_inj
    (ht : t.Legible)
    (ht' : t'.Legible)
    (h : t.text.toList ++ rest = t'.text.toList ++ rest') :
    t = t' ∧ rest = rest' := by
  induction t generalizing t' rest rest' with
  | leaf symbol word =>
      cases t' with
      | leaf symbol' word' =>
          obtain ⟨hsymbol, hword⟩ := legible_leaf_iff.mp ht
          obtain ⟨hsymbol', hword'⟩ := legible_leaf_iff.mp ht'
          rw [toList_text_leaf, toList_text_leaf] at h
          obtain ⟨hsymbols, hbehind⟩ :=
            append_cons_inj_of_free hsymbol hsymbol' (List.cons.inj h).2
          obtain ⟨hwords, hrest⟩ := append_cons_inj_of_free hword.2 hword'.2 hbehind
          rw [String.toList_injective hsymbols, String.toList_injective hwords]
          exact ⟨rfl, hrest⟩
      | node symbol' left' right' => exact absurd h (leaf_ne_node ht ht')
  | node symbol left right ihleft ihright =>
      cases t' with
      | leaf symbol' word' => exact absurd h.symm (leaf_ne_node ht' ht)
      | node symbol' left' right' =>
          obtain ⟨hsymbol, hleft, hright⟩ := legible_node_iff.mp ht
          obtain ⟨hsymbol', hleft', hright'⟩ := legible_node_iff.mp ht'
          rw [toList_text_node, toList_text_node] at h
          obtain ⟨hsymbols, hbehind⟩ :=
            append_cons_inj_of_free hsymbol hsymbol' (List.cons.inj h).2
          obtain ⟨hlefts, hbehind'⟩ := ihleft hleft hleft' hbehind
          obtain ⟨hrights, hclosed⟩ := ihright hright hright' (List.cons.inj hbehind').2
          rw [String.toList_injective hsymbols, hlefts, hrights]
          exact ⟨rfl, (List.cons.inj hclosed).2⟩

/-- A tree whose text begins that of another one is the same tree. -/
theorem eq_of_text_prefix
    (ht : t.Legible)
    (ht' : t'.Legible)
    (h : t.text.toList <+: t'.text.toList) :
    t = t' := by
  obtain ⟨rest, hrest⟩ := h
  rw [← List.append_nil t'.text.toList] at hrest
  exact (text_append_inj ht ht' hrest).1

theorem text_injective
    (ht : t.Legible)
    (ht' : t'.Legible)
    (h : t.text = t'.text) :
    t = t' :=
  eq_of_text_prefix ht ht' (h ▸ List.prefix_rfl)

-- A space in a symbol may be taken for the one behind it.
example : (leaf "S a" "b").text = (leaf "S" "a b").text := by decide +kernel

end Tree

theorem Grammar.isLabel_name
    {g : Grammar}
    (hnames : ∀ name ∈ g.symbols, IsLabel name)
    (A : Symbol) :
    IsLabel (g.name A) := by
  rw [Grammar.name, List.getD_eq_getElem?_getD]
  cases hname : g.symbols[A.index]? with
  | none => exact List.not_mem_nil
  | some name => exact hnames name (List.mem_of_getElem? hname)

/-- The symbols of a derivation are names of the grammar. -/
theorem Derives.isLabel_of_mem_symbols
    {g : Grammar} {A : Symbol} {t : Tree}
    (h : Derives g A t)
    (hnames : ∀ name ∈ g.symbols, IsLabel name) :
    ∀ symbol ∈ t.symbols, IsLabel symbol := by
  induction h with
  | lexical _ => exact List.forall_mem_singleton.mpr (Grammar.isLabel_name hnames _)
  | binary _ _ _ ihleft ihright =>
      exact List.forall_mem_cons.mpr
        ⟨Grammar.isLabel_name hnames _, List.forall_mem_append.mpr ⟨ihleft, ihright⟩⟩

/-- The trees of a sentence without brackets have different texts, as many as were counted. -/
theorem Outcome.Reports.nodup_trees
    {o : Outcome} {b : Batch} {s : Sentence} {n : Nat}
    (h : o.Reports b s)
    (hwith : b.withTrees = true)
    (hnames : ∀ name ∈ b.grammar.symbols, IsLabel name)
    (htokens : ∀ token ∈ s.tokens, IsUnbracketed token)
    (hcount : o.count = .ok n) :
    o.trees.Nodup ∧ o.trees.length = n := by
  obtain ⟨trees, htexts, hnodup, hlength, hmem⟩ := h.exists_trees n hcount hwith
  have hlegible : ∀ t ∈ trees, t.Legible := by
    intro t ht
    obtain ⟨hderives, hwords⟩ := (hmem t).mp ht
    refine ⟨hderives.isLabel_of_mem_symbols hnames, ?_⟩
    rw [hwords]
    exact htokens
  rw [htexts, List.length_map]
  refine ⟨hnodup.map_on fun t ht t' ht' htext => ?_, hlength⟩
  exact Tree.text_injective (hlegible t ht) (hlegible t' ht') htext

/-- A grammar with brackets for symbols, under which two words have two trees. -/
def bracketGrammar : Grammar :=
  .ofRules ["S", "[", "]"] ⟨0⟩
    [.binary ⟨⟨0⟩, ⟨1⟩, ⟨1⟩⟩, .binary ⟨⟨0⟩, ⟨2⟩, ⟨2⟩⟩, .lexical ⟨1⟩ "a", .lexical ⟨2⟩ "a"]

/-- The declarations of `bracketGrammar`. -/
def bracketDeclarations : List Declaration :=
  [⟨.nonterminal "S", .refused⟩, ⟨.nonterminal "[", .refused⟩, ⟨.nonterminal "]", .refused⟩,
    ⟨.production "S" ["[", "["], .refused⟩, ⟨.production "S" ["]", "]"], .refused⟩,
    ⟨.lexical "[" "a", .refused⟩, ⟨.lexical "]" "a", .refused⟩]

/-- Different trees whose symbols hold no space and whose words hold no bracket have different
texts, and none of these texts begins another one.  So a batch under a grammar with such symbols
lists different texts for a sentence of such words, as many as the derivations that it counts. -/
theorem bracketed_texts_identify :
    (∀ t t' : Tree, t.Legible → t'.Legible →
      (t.text = t'.text → t = t') ∧
        (t.text.toList <+: t'.text.toList → t.text = t'.text)) ∧
    ∀ (declarations : List Declaration) (start : String) (g : Grammar),
      Grammar.ofDeclarations declarations start = .ok g →
      (∀ name ∈ g.symbols, IsLabel name) →
      ∀ sentences : List Sentence,
        List.Forall₂
          (fun s o => (∀ token ∈ s.tokens, IsUnbracketed token) →
            o.trees.Nodup ∧
              (s.tokens = [] ∧ o.count = .error .emptyInput ∧ o.trees = [] ∨
                ∃ n, o.count = .ok n ∧ o.trees.length = n))
          sentences (Batch.run ⟨g, true⟩ sentences) := by
  refine ⟨fun t t' ht ht' => ⟨Tree.text_injective ht ht', fun hprefix => ?_⟩, ?_⟩
  · rw [Tree.eq_of_text_prefix ht ht' hprefix]
  · intro declarations start g hg hnames sentences
    have hwf := Grammar.WellFormed.of_ofDeclarations hg
    refine (Batch.forall₂_reports_run (b := ⟨g, true⟩) hwf sentences).imp ?_
    intro s o hreports htokens
    by_cases hnil : s.tokens = []
    · have herror := hreports.count_eq_error_iff.mpr hnil
      have htrees := hreports.trees_eq_nil (.inr ⟨_, herror⟩)
      rw [htrees]
      exact ⟨List.nodup_nil, .inl ⟨hnil, herror, rfl⟩⟩
    · obtain ⟨n, hcount, -⟩ := hreports.exists_count hnil
      obtain ⟨hnodup, hlength⟩ := hreports.nodup_trees rfl hnames htokens hcount
      exact ⟨hnodup, .inr ⟨n, hcount, hlength⟩⟩

/-- Brackets for symbols: an empty word and one with a space are told apart, and the two trees of a
sentence have different texts. -/
theorem bracketed_texts_identify_bracketSymbols :
    (Tree.leaf "[" "").Legible ∧ (Tree.leaf "[" " a").Legible ∧
      ¬ (Tree.leaf "[" "").text.toList <+: (Tree.leaf "[" " a").text.toList ∧
      Grammar.ofDeclarations bracketDeclarations "S" = .ok bracketGrammar ∧
      (∀ name ∈ bracketGrammar.symbols, IsLabel name) ∧
      (∀ token ∈ ["a", "a"], IsUnbracketed token) ∧
      ∃ o, Batch.run ⟨bracketGrammar, true⟩ [⟨["a", "a"], none⟩] = [o] ∧
        o.count = .ok 2 ∧ o.trees.Nodup ∧ o.trees.length = 2 := by
  obtain ⟨htrees, hbatches⟩ := bracketed_texts_identify
  have hleaf : (Tree.leaf "[" "").Legible := Tree.legible_leaf_iff.mpr (by decide +kernel)
  have hleaf' : (Tree.leaf "[" " a").Legible := Tree.legible_leaf_iff.mpr (by decide +kernel)
  have hg : Grammar.ofDeclarations bracketDeclarations "S" = .ok bracketGrammar := by
    decide
  have hnames : ∀ name ∈ bracketGrammar.symbols, IsLabel name := by decide +kernel
  have htokens : ∀ token ∈ ["a", "a"], IsUnbracketed token := by decide +kernel
  refine ⟨hleaf, hleaf', fun hprefix => ?_, hg, hnames, htokens, ?_⟩
  · obtain ⟨hinjective, hbegins⟩ := htrees _ _ hleaf hleaf'
    exact absurd (hinjective (hbegins hprefix)) (by decide +kernel)
  · have houtcomes := hbatches _ _ _ hg hnames [⟨["a", "a"], none⟩]
    have hcounts : (Batch.run ⟨bracketGrammar, true⟩ [⟨["a", "a"], none⟩]).map Outcome.count =
        [.ok 2] := by
      decide +kernel
    generalize Batch.run ⟨bracketGrammar, true⟩ [⟨["a", "a"], none⟩] = outcomes at *
    obtain _ | ⟨ho, _ | _⟩ := houtcomes
    rename_i o
    have hcount : o.count = .ok 2 := by simpa using hcounts
    obtain ⟨hnodup, ⟨hnil, -⟩ | ⟨n, hn, hlength⟩⟩ := ho htokens
    · cases hnil
    · rw [hcount] at hn
      cases hn
      exact ⟨o, rfl, hcount, hnodup, hlength⟩

end ChartParsing
