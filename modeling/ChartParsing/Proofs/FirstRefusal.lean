import ChartParsing.Proofs.DraftedGrammar
import ChartParsing.Proofs.Refusals
import ChartParsing.Proofs.WrittenRules

/-!
# The first refused declaration

Whether a declaration is refused can be said from the declarations before it alone, by the names
that they declare and the productions that they write down (`Declaration.RefusedAfter`).  The
first refused declaration is the error of all of them.  If none is refused, the symbols of the
grammar are the declared names and its rules the declared productions, both in the order of
their first declaration (`Grammar.Lists`).

**Invariant.** `Builder.Reflects` says what a builder holds after declarations that are all
followed.  Under it, a builder refuses what is to be refused (`Builder.add_eq_error_iff`), and a
declaration that it follows keeps it (`Builder.reflects_of_add`).

**Results.**
* `Builder.addAll_cases`: declarations are all followed, or the first refusal is reported.
* `Grammar.ofDeclarations_eq_ok_iff`, `Grammar.ofDeclarations_eq_error_iff`: when declarations
  describe a grammar, which one, and what is reported otherwise.
* `Grammar.draft_reports_first_refusal`: so a draft reports the first refusal, or has the grammar.
-/

namespace ChartParsing

/-- The name of a declared symbol. -/
def Item.name? : Item → Option String
  | nonterminal name => some name
  | _ => none

/-- The production of a declared rule. -/
def Item.production? : Item → Option Production
  | nonterminal _ => none
  | production head body => some ⟨head, .names body⟩
  | lexical head word => some ⟨head, .word word⟩

/-- The names that declarations declare, in order. -/
def declaredNames (declarations : List Declaration) : List String :=
  declarations.filterMap fun d => d.item.name?

/-- The productions that declarations declare, in order. -/
def declaredProductions (declarations : List Declaration) : List Production :=
  declarations.filterMap fun d => d.item.production?

/-- A declaration is refused after earlier ones.  What is wrong with the body of a rule comes
first, then the first of its names that is not declared, and a repeated rule last. -/
inductive Declaration.RefusedAfter
    (earlier : List Declaration) :
    Declaration → GrammarError → Prop
  | repeatedSymbol
      {name : String}
      (hname : name ∈ declaredNames earlier) :
      RefusedAfter earlier ⟨.nonterminal name, .refused⟩ (.duplicateSymbol name)
  | notTwoNames
      {head : String} {body : List String} {repeats : Repeats}
      (hbody : body.length ≠ 2) :
      RefusedAfter earlier ⟨.production head body, repeats⟩ (.notNormalForm head body)
  | missingInRule
      {head left right name : String} {repeats : Repeats}
      (hname : [left, right, head].find? (· ∉ declaredNames earlier) = some name) :
      RefusedAfter earlier ⟨.production head [left, right], repeats⟩ (.missingSymbol name)
  | missingHead
      {head word : String} {repeats : Repeats}
      (hhead : head ∉ declaredNames earlier) :
      RefusedAfter earlier ⟨.lexical head word, repeats⟩ (.missingSymbol head)
  | repeatedRule
      {head left right : String}
      (hnames : ∀ name ∈ [left, right, head], name ∈ declaredNames earlier)
      (hrule : ⟨head, .names [left, right]⟩ ∈ declaredProductions earlier) :
      RefusedAfter earlier ⟨.production head [left, right], .refused⟩
        (.duplicateRule head [left, right])
  | repeatedWord
      {head word : String}
      (hhead : head ∈ declaredNames earlier)
      (hrule : ⟨head, .word word⟩ ∈ declaredProductions earlier) :
      RefusedAfter earlier ⟨.lexical head word, .refused⟩ (.duplicateRule head [quoteWord word])

/-- No declaration is refused after those before it. -/
def Accepted (declarations : List Declaration) : Prop :=
  ∀ earlier d later e, declarations = earlier ++ d :: later → ¬ d.RefusedAfter earlier e

/-- The first declaration that is refused is refused with an error. -/
def FirstRefusal (declarations : List Declaration) (e : GrammarError) : Prop :=
  ∃ earlier d later, declarations = earlier ++ d :: later ∧ Accepted earlier ∧
    d.RefusedAfter earlier e

/-- The right side of a production as the parts that are written. -/
def Body.texts : Body → List String
  | word text => [quoteWord text]
  | names list => list

/-- The symbols of a grammar are names and its rules are productions, both in the order in which
they occur first, with the start symbol of a name. -/
structure Grammar.Lists
    (g : Grammar)
    (names : List String)
    (productions : List Production)
    (start : String) : Prop where
  symbols_eq : g.symbols = names.eraseDups
  start_eq : g.symbol? start = some g.start
  written_eq : g.written = productions.eraseDups
  wellFormed : g.WellFormed

theorem eraseDups_append_singleton
    {α : Type} [DecidableEq α]
    (xs : List α)
    (x : α) :
    (xs ++ [x]).eraseDups = if x ∈ xs then xs.eraseDups else xs.eraseDups ++ [x] := by
  rw [List.eraseDups_append]
  by_cases h : x ∈ xs <;> simp [List.removeAll, List.eraseDups_cons, h]

theorem eraseDups_of_nodup
    {α : Type} [DecidableEq α]
    {xs : List α}
    (h : xs.Nodup) :
    xs.eraseDups = xs := by
  induction xs with
  | nil => rfl
  | cons x xs ih =>
      obtain ⟨hx, hxs⟩ := List.nodup_cons.mp h
      have hkeep : xs.filter (fun y => !y == x) = xs := by
        refine List.filter_eq_self.mpr ?_
        rintro y hy
        have hne : y ≠ x := ne_of_mem_of_not_mem hy hx
        simp [hne]
      rw [List.eraseDups_cons, hkeep, ih hxs]

theorem accepted_nil : Accepted [] :=
  noneRefused_nil

theorem accepted_append_singleton
    {declarations : List Declaration} {d : Declaration}
    (haccepted : Accepted declarations)
    (hd : ∀ e, ¬ d.RefusedAfter declarations e) :
    Accepted (declarations ++ [d]) :=
  noneRefused_append_singleton haccepted hd

theorem FirstRefusal.append
    {declarations : List Declaration} {e : GrammarError}
    (h : FirstRefusal declarations e)
    (more : List Declaration) :
    FirstRefusal (declarations ++ more) e :=
  FirstRefused.append h more

theorem Accepted.not_firstRefusal
    {declarations : List Declaration} {e : GrammarError}
    (haccepted : Accepted declarations) :
    ¬ FirstRefusal declarations e :=
  NoneRefused.not_firstRefused haccepted

/-- Different rules about named symbols are written differently. -/
theorem Rule.production_injective
    {names : List String} {rule rule' : Rule}
    (hnodup : names.Nodup)
    (hrule : rule.Below names.length)
    (hrule' : rule'.Below names.length)
    (h : rule.production names = rule'.production names) :
    rule = rule' := by
  obtain ⟨hhead, hbody⟩ := (Production.mk.injEq ..).mp h
  cases rule with
  | lexical A word =>
      cases rule' with
      | lexical A' word' =>
          cases hbody
          rw [Symbol.eq_of_getD_eq hnodup hrule hrule' hhead]
      | binary r' => cases hbody
  | binary r =>
      cases rule' with
      | lexical A' word' => cases hbody
      | binary r' =>
          obtain ⟨A, B, C⟩ := r
          obtain ⟨A', B', C'⟩ := r'
          obtain ⟨hA, hB, hC⟩ := hrule
          obtain ⟨hA', hB', hC'⟩ := hrule'
          simp only [Rule.body, Body.names.injEq, List.cons.injEq, and_true] at hbody
          have hheads : A = A' := Symbol.eq_of_getD_eq hnodup hA hA' hhead
          have hlefts : B = B' := Symbol.eq_of_getD_eq hnodup hB hB' hbody.1
          have hrights : C = C' := Symbol.eq_of_getD_eq hnodup hC hC' hbody.2
          rw [hheads, hlefts, hrights]

namespace Builder

variable {b b' : Builder} {earlier : List Declaration} {d : Declaration} {e : GrammarError}

theorem mem_written_iff
    (hb : b.Consistent)
    {rule : Rule}
    (hrule : rule.Below b.symbols.length) :
    rule.production b.symbols ∈ b.written ↔ rule ∈ b.rules := by
  constructor
  · intro h
    obtain ⟨other, hother, heq⟩ := List.mem_map.mp h
    rwa [← Rule.production_injective hb.nodup_symbols (hb.below other hother) hrule heq]
  · exact List.mem_map_of_mem

/-- What a builder holds after declarations that are all followed. -/
structure Reflects (b : Builder) (earlier : List Declaration) : Prop where
  consistent : b.Consistent
  symbols_eq : b.symbols = (declaredNames earlier).eraseDups
  written_eq : b.written = (declaredProductions earlier).eraseDups

theorem reflects_empty : empty.Reflects [] where
  consistent := consistent_empty
  symbols_eq := rfl
  written_eq := rfl

theorem Reflects.mem_symbols_iff
    (hb : b.Reflects earlier)
    {name : String} :
    name ∈ b.symbols ↔ name ∈ declaredNames earlier := by
  rw [hb.symbols_eq, List.mem_eraseDups]

theorem Reflects.mem_rules_iff
    (hb : b.Reflects earlier)
    {rule : Rule}
    (hrule : rule.Below b.symbols.length) :
    rule ∈ b.rules ↔ rule.production b.symbols ∈ declaredProductions earlier := by
  rw [← mem_written_iff hb.consistent hrule, hb.written_eq, List.mem_eraseDups]

theorem Describes.production?_eq
    {item : Item} {rule : Rule}
    (h : b.Describes item rule) :
    item.production? = some (rule.production b.symbols) := by
  cases item with
  | nonterminal name => exact h.elim
  | production head body => exact congrArg some (h.production_eq (p := ⟨head, .names body⟩)).symm
  | lexical head word => exact congrArg some (h.production_eq (p := ⟨head, .word word⟩)).symm

theorem Describes.name?_eq_none
    {item : Item} {rule : Rule}
    (h : b.Describes item rule) :
    item.name? = none := by
  cases item with
  | nonterminal name => exact h.elim
  | production | lexical => rfl

/-- One more name changes how no rule about the earlier ones is written. -/
theorem written_addSymbol
    (hb : b.Consistent)
    (name : String) :
    written { b with symbols := b.symbols ++ [name] } = b.written :=
  List.map_congr_left fun rule hrule => Rule.production_append (hb.below rule hrule) [name]

/-- A declaration that is followed is reflected. -/
theorem reflects_of_add
    (hb : b.Reflects earlier)
    (h : b.add d = .ok b') :
    b'.Reflects (earlier ++ [d]) := by
  have hconsistent := consistent_of_add hb.consistent h
  rcases add_cases h with ⟨name, hitem, hadd⟩ | ⟨rule, hrule, hadd⟩
  · have hnames : declaredNames (earlier ++ [d]) = declaredNames earlier ++ [name] := by
      simp [declaredNames, hitem, Item.name?]
    have hproductions : declaredProductions (earlier ++ [d]) = declaredProductions earlier := by
      simp [declaredProductions, hitem, Item.production?]
    rcases addSymbol_cases hadd with ⟨hold, rfl⟩ | ⟨hnew, rfl⟩
    · rw [hb.mem_symbols_iff] at hold
      refine ⟨hconsistent, ?_, ?_⟩
      · rw [hnames, eraseDups_append_singleton, if_pos hold, hb.symbols_eq]
      · rw [hproductions, hb.written_eq]
    · rw [hb.mem_symbols_iff] at hnew
      refine ⟨hconsistent, ?_, ?_⟩
      · rw [hnames, eraseDups_append_singleton, if_neg hnew, hb.symbols_eq]
      · rw [hproductions, written_addSymbol hb.consistent, hb.written_eq]
  · have hnames : declaredNames (earlier ++ [d]) = declaredNames earlier := by
      simp [declaredNames, hrule.name?_eq_none]
    have hproductions : declaredProductions (earlier ++ [d]) =
        declaredProductions earlier ++ [rule.production b.symbols] := by
      simp [declaredProductions, hrule.production?_eq]
    rcases addRule_cases hadd with ⟨hold, rfl⟩ | ⟨hnew, rfl⟩
    · rw [hb.mem_rules_iff hrule.below] at hold
      refine ⟨hconsistent, ?_, ?_⟩
      · rw [hnames, hb.symbols_eq]
      · rw [hproductions, eraseDups_append_singleton, if_pos hold, hb.written_eq]
    · rw [hb.mem_rules_iff hrule.below] at hnew
      refine ⟨hconsistent, ?_, ?_⟩
      · rw [hnames, hb.symbols_eq]
      · rw [hproductions, eraseDups_append_singleton, if_neg hnew, ← hb.written_eq, written,
          List.map_append]
        rfl

/-- A name is looked up with success if it is declared. -/
theorem resolve_eq_ok_or_error
    (hb : b.Reflects earlier)
    (name : String) :
    (∃ A, name ∈ declaredNames earlier ∧ b.resolve name = .ok A) ∨
      (name ∉ declaredNames earlier ∧ b.resolve name = .error (.missingSymbol name)) := by
  rcases b.resolve_cases name with ⟨A, hmem, _, hresolve⟩ | ⟨hmem, _, hresolve⟩
  · exact Or.inl ⟨A, hb.mem_symbols_iff.mp hmem, hresolve⟩
  · exact Or.inr ⟨fun h => hmem (hb.mem_symbols_iff.mpr h), hresolve⟩

theorem addSymbol_eq_error_iff
    (hb : b.Reflects earlier)
    {repeats : Repeats} {name : String} :
    b.addSymbol repeats name = .error e ↔
      repeats = .refused ∧ name ∈ declaredNames earlier ∧ e = .duplicateSymbol name := by
  rw [← hb.mem_symbols_iff]
  unfold addSymbol
  split
  · cases repeats <;> simp_all [eq_comm]
  · simp_all

/-- A rule is refused if it is a repeat that has to be refused. -/
theorem addRule_eq_error_iff
    (hb : b.Reflects earlier)
    {item : Item} {rule : Rule} {p : Production} {repeats : Repeats}
    (hrule : b.Describes item rule)
    (hp : item.production? = some p) :
    b.addRule repeats rule = .error e ↔
      repeats = .refused ∧ p ∈ declaredProductions earlier ∧
        e = .duplicateRule p.head p.body.texts := by
  obtain rfl : rule.production b.symbols = p := Option.some.inj (hrule.production?_eq.symm.trans hp)
  have htexts : rule.bodyTexts b.symbols = (rule.production b.symbols).body.texts := by
    cases rule <;> rfl
  rw [← hb.mem_rules_iff hrule.below, ← htexts]
  unfold addRule
  split
  · cases repeats <;> simp_all [eq_comm, Rule.production]
  · simp_all

/-- A rule over two names is added, or the first of its names that is not declared is missing. -/
theorem add_production_cases
    (hb : b.Reflects earlier)
    (head left right : String)
    (repeats : Repeats) :
    (∃ rule, b.Describes (.production head [left, right]) rule ∧
        (∀ name ∈ [left, right, head], name ∈ declaredNames earlier) ∧
        b.add ⟨.production head [left, right], repeats⟩ = b.addRule repeats rule) ∨
      ∃ name, [left, right, head].find? (· ∉ declaredNames earlier) = some name ∧
        b.add ⟨.production head [left, right], repeats⟩ = .error (.missingSymbol name) := by
  simp only [add]
  rcases resolve_eq_ok_or_error hb left with ⟨B, hleft, hB⟩ | ⟨hleft, hB⟩
  · rcases resolve_eq_ok_or_error hb right with ⟨C, hright, hC⟩ | ⟨hright, hC⟩
    · rcases resolve_eq_ok_or_error hb head with ⟨A, hhead, hA⟩ | ⟨hhead, hA⟩
      · refine Or.inl ⟨.binary ⟨A, B, C⟩, ⟨left, right, rfl, hA, hB, hC⟩, ?_, ?_⟩
        · simp [hleft, hright, hhead]
        · rw [hB, hC, hA]
          rfl
      · refine Or.inr ⟨head, by simp [hleft, hright, hhead], ?_⟩
        rw [hB, hC, hA]
        rfl
    · refine Or.inr ⟨right, by simp [hleft, hright], ?_⟩
      rw [hB, hC]
      rfl
  · refine Or.inr ⟨left, by simp [hleft], ?_⟩
    rw [hB]
    rfl

/-- A rule for a word is added, or its head is missing. -/
theorem add_lexical_cases
    (hb : b.Reflects earlier)
    (head word : String)
    (repeats : Repeats) :
    (∃ rule, b.Describes (.lexical head word) rule ∧ head ∈ declaredNames earlier ∧
        b.add ⟨.lexical head word, repeats⟩ = b.addRule repeats rule) ∨
      (head ∉ declaredNames earlier ∧
        b.add ⟨.lexical head word, repeats⟩ = .error (.missingSymbol head)) := by
  simp only [add]
  rcases resolve_eq_ok_or_error hb head with ⟨A, hhead, hA⟩ | ⟨hhead, hA⟩
  · refine Or.inl ⟨.lexical A word, ⟨hA, rfl⟩, hhead, ?_⟩
    rw [hA]
    rfl
  · refine Or.inr ⟨hhead, ?_⟩
    rw [hA]
    rfl

theorem refusedAfter_of_add
    (hb : b.Reflects earlier)
    (h : b.add d = .error e) :
    d.RefusedAfter earlier e := by
  obtain ⟨item, repeats⟩ := d
  cases item with
  | nonterminal name =>
      obtain ⟨rfl, hname, rfl⟩ := (addSymbol_eq_error_iff hb).mp h
      exact .repeatedSymbol hname
  | production head body =>
      by_cases hbody : body.length = 2
      · obtain ⟨left, right, rfl⟩ := List.length_eq_two.mp hbody
        rcases add_production_cases hb head left right repeats with
          ⟨rule, hrule, hnames, hadd⟩ | ⟨name, hname, hadd⟩
        · obtain ⟨rfl, hmem, rfl⟩ := (addRule_eq_error_iff hb hrule rfl).mp (hadd.symm.trans h)
          exact .repeatedRule hnames hmem
        · cases hadd.symm.trans h
          exact .missingInRule hname
      · cases (b.add_of_length_ne hbody repeats).symm.trans h
        exact .notTwoNames hbody
  | lexical head word =>
      rcases add_lexical_cases hb head word repeats with
        ⟨rule, hrule, hhead, hadd⟩ | ⟨hhead, hadd⟩
      · obtain ⟨rfl, hmem, rfl⟩ := (addRule_eq_error_iff hb hrule rfl).mp (hadd.symm.trans h)
        exact .repeatedWord hhead hmem
      · cases hadd.symm.trans h
        exact .missingHead hhead

theorem add_of_refusedAfter
    (hb : b.Reflects earlier)
    (h : d.RefusedAfter earlier e) :
    b.add d = .error e := by
  cases h with
  | repeatedSymbol hname => exact (addSymbol_eq_error_iff hb).mpr ⟨rfl, hname, rfl⟩
  | notTwoNames hbody => exact b.add_of_length_ne hbody _
  | @missingInRule head left right name repeats hname =>
      rcases add_production_cases hb head left right repeats with
        ⟨_, _, hnames, _⟩ | ⟨other, hother, hadd⟩
      · have hmem := List.mem_of_find?_eq_some hname
        have hmissing := List.find?_some hname
        exact absurd (hnames name hmem) (by simpa using hmissing)
      · rw [hname] at hother
        cases hother
        exact hadd
  | @missingHead head word repeats hhead =>
      rcases add_lexical_cases hb head word repeats with ⟨_, _, hold, _⟩ | ⟨_, hadd⟩
      · exact absurd hold hhead
      · exact hadd
  | @repeatedRule head left right hnames hrule =>
      rcases add_production_cases hb head left right .refused with
        ⟨rule, hdescribes, _, hadd⟩ | ⟨name, hname, _⟩
      · exact hadd.trans ((addRule_eq_error_iff hb hdescribes rfl).mpr ⟨rfl, hrule, rfl⟩)
      · have hmissing := List.find?_some hname
        exact absurd (hnames name (List.mem_of_find?_eq_some hname)) (by simpa using hmissing)
  | @repeatedWord head word hhead hrule =>
      rcases add_lexical_cases hb head word .refused with
        ⟨rule, hdescribes, _, hadd⟩ | ⟨hnew, _⟩
      · exact hadd.trans ((addRule_eq_error_iff hb hdescribes rfl).mpr ⟨rfl, hrule, rfl⟩)
      · exact absurd hhead hnew

/-- A builder refuses a declaration as the earlier declarations demand. -/
theorem add_eq_error_iff
    (hb : b.Reflects earlier) :
    b.add d = .error e ↔ d.RefusedAfter earlier e :=
  ⟨refusedAfter_of_add hb, add_of_refusedAfter hb⟩

/-- Declarations are all followed and reflected, or the first refusal among them is reported. -/
theorem addAll_cases
    (declarations : List Declaration) :
    (∃ b, empty.addAll declarations = .ok b ∧ b.Reflects declarations ∧ Accepted declarations) ∨
      ∃ e, empty.addAll declarations = .error e ∧ FirstRefusal declarations e := by
  induction declarations using List.reverseRecOn with
  | nil => exact Or.inl ⟨empty, rfl, reflects_empty, accepted_nil⟩
  | append_singleton earlier d ih =>
      rw [addAll_append]
      rcases ih with ⟨b, hadd, hb, haccepted⟩ | ⟨e, hadd, hrefusal⟩
      · have hstep : (empty.addAll earlier >>= fun b' => b'.addAll [d]) = b.add d := by
          rw [hadd]
          change (b.add d >>= fun b' => Except.ok b') = b.add d
          cases b.add d <;> rfl
        rw [hstep]
        cases hd : b.add d with
        | error e =>
            exact Or.inr ⟨e, rfl, earlier, d, [], rfl, haccepted, (add_eq_error_iff hb).mp hd⟩
        | ok b' =>
            refine Or.inl ⟨b', rfl, reflects_of_add hb hd, ?_⟩
            refine accepted_append_singleton haccepted ?_
            intro e hrefused
            cases hd.symm.trans ((add_eq_error_iff hb).mpr hrefused)
      · rw [hadd]
        exact Or.inr ⟨e, rfl, hrefusal.append [d]⟩

/-- Declarations are refused with the error of the first that is refused. -/
theorem addAll_eq_error_iff
    {declarations : List Declaration} :
    empty.addAll declarations = .error e ↔ FirstRefusal declarations e := by
  constructor
  · intro h
    rcases addAll_cases declarations with ⟨b, hadd, _, _⟩ | ⟨e', hadd, hrefusal⟩
    · cases hadd.symm.trans h
    · cases hadd.symm.trans h
      exact hrefusal
  · rintro ⟨earlier, d, later, rfl, haccepted, hrefused⟩
    rcases addAll_cases earlier with ⟨b, hadd, hb, _⟩ | ⟨e', _, hrefusal⟩
    · rw [addAll_append, hadd]
      change (b.add d >>= fun b' => b'.addAll later) = .error e
      rw [(add_eq_error_iff hb).mpr hrefused]
      rfl
    · exact absurd hrefusal haccepted.not_firstRefusal

theorem Reflects.rules_eq_nil_iff
    (hb : b.Reflects earlier) :
    b.rules = [] ↔ declaredProductions earlier = [] := by
  have hwritten : b.rules = [] ↔ b.written = [] := List.map_eq_nil_iff.symm
  rw [hwritten, hb.written_eq]
  cases declaredProductions earlier with
  | nil => simp
  | cons p rest => simp [List.eraseDups_cons]

/-- A start symbol that is declared is looked up in what was declared; it comes before the
question whether there are rules. -/
theorem toGrammar_cases
    (hb : b.Reflects earlier)
    (start : String) :
    (start ∉ declaredNames earlier ∧ b.toGrammar start = .error (.missingSymbol start)) ∨
      (start ∈ declaredNames earlier ∧ declaredProductions earlier = [] ∧
        b.toGrammar start = .error .noRules) ∨
      (start ∈ declaredNames earlier ∧ declaredProductions earlier ≠ [] ∧
        ∃ A, b.resolve start = .ok A ∧
          b.toGrammar start = .ok (Grammar.ofRules b.symbols A b.rules)) := by
  unfold toGrammar
  rcases resolve_eq_ok_or_error hb start with ⟨A, hstart, hresolve⟩ | ⟨hstart, hresolve⟩
  · rw [hresolve]
    by_cases hrules : b.rules = []
    · refine Or.inr (Or.inl ⟨hstart, hb.rules_eq_nil_iff.mp hrules, ?_⟩)
      rw [hrules]
      rfl
    · refine Or.inr (Or.inr ⟨hstart, fun h => hrules (hb.rules_eq_nil_iff.mpr h), A, rfl, ?_⟩)
      exact if_neg (by simpa using hrules)
  · rw [hresolve]
    exact Or.inl ⟨hstart, rfl⟩

end Builder

namespace Grammar

/-- A list of names, a list of productions and a start symbol tell a grammar. -/
theorem Lists.unique
    {g g' : Grammar} {names : List String} {productions : List Production} {start : String}
    (h : g.Lists names productions start)
    (h' : g'.Lists names productions start) :
    g = g' := by
  have hsymbols : g.symbols = g'.symbols := h.symbols_eq.trans h'.symbols_eq.symm
  have hstart : g.start = g'.start := by
    have hsame : g.symbol? start = g'.symbol? start := by
      rw [symbol?, symbol?, hsymbols]
    rw [h.start_eq, h'.start_eq] at hsame
    exact Option.some.inj hsame
  have hrules : g.rules = g'.rules := by
    have hwritten : g.written = g'.written := h.written_eq.trans h'.written_eq.symm
    refine List.ext_getElem ?_ ?_
    · simpa [written] using congrArg List.length hwritten
    · intro i hi hi'
      have hbelow := h.wellFormed.below _ (List.getElem_mem hi)
      have hbelow' := h'.wellFormed.below _ (List.getElem_mem hi')
      rw [← hsymbols] at hbelow'
      refine Rule.production_injective h.wellFormed.nodup_symbols hbelow hbelow' ?_
      have hget := List.getElem_of_eq hwritten (by simpa [written] using hi)
      simpa [written, hsymbols] using hget
  rw [h.wellFormed.eq_ofRules, h'.wellFormed.eq_ofRules, hsymbols, hstart, hrules]

theorem lists_of_ofDeclarations
    {declarations : List Declaration} {start : String} {g : Grammar}
    (h : ofDeclarations declarations start = .ok g) :
    g.Lists (declaredNames declarations) (declaredProductions declarations) start := by
  have hg := WellFormed.of_ofDeclarations h
  obtain ⟨b, hadd, h⟩ := exists_of_bind_eq_ok h
  obtain ⟨A, hA, _, rfl⟩ := Builder.toGrammar_eq_ok_iff.mp h
  rcases Builder.addAll_cases declarations with ⟨b', hadd', hb, _⟩ | ⟨e, hadd', _⟩
  · cases hadd.symm.trans hadd'
    refine ⟨hb.symbols_eq, ?_, hb.written_eq, hg⟩
    rw [symbol?, ofRules, Builder.resolve_eq_ok_iff.mp hA]
    rfl
  · cases hadd.symm.trans hadd'

/-- The result of declarations, by whether they are accepted and what they declare. -/
theorem ofDeclarations_cases
    (declarations : List Declaration)
    (start : String) :
    (∃ e, FirstRefusal declarations e ∧ ofDeclarations declarations start = .error e) ∨
      Accepted declarations ∧
        ((start ∉ declaredNames declarations ∧
            ofDeclarations declarations start = .error (.missingSymbol start)) ∨
          (start ∈ declaredNames declarations ∧ declaredProductions declarations = [] ∧
            ofDeclarations declarations start = .error .noRules) ∨
          (start ∈ declaredNames declarations ∧ declaredProductions declarations ≠ [] ∧
            ∃ g, ofDeclarations declarations start = .ok g)) := by
  unfold ofDeclarations
  rcases Builder.addAll_cases declarations with ⟨b, hadd, hb, haccepted⟩ | ⟨e, hadd, hrefusal⟩
  · rw [hadd]
    change _ ∨ _ ∧ ((_ ∧ b.toGrammar start = _) ∨ (_ ∧ _ ∧ b.toGrammar start = _) ∨
      (_ ∧ _ ∧ ∃ g, b.toGrammar start = .ok g))
    refine Or.inr ⟨haccepted, ?_⟩
    rcases Builder.toGrammar_cases hb start with hmissing | hnone | ⟨hstart, hrules, A, _, hg⟩
    · exact Or.inl hmissing
    · exact Or.inr (Or.inl hnone)
    · exact Or.inr (Or.inr ⟨hstart, hrules, _, hg⟩)
  · rw [hadd]
    exact Or.inl ⟨e, hrefusal, rfl⟩

/-- Declarations describe a grammar exactly if none is refused, the start symbol is declared and
there is a rule. -/
theorem ofDeclarations_eq_ok_iff
    {declarations : List Declaration} {start : String} {g : Grammar} :
    ofDeclarations declarations start = .ok g ↔
      Accepted declarations ∧ start ∈ declaredNames declarations ∧
        declaredProductions declarations ≠ [] ∧
        g.Lists (declaredNames declarations) (declaredProductions declarations) start := by
  rcases ofDeclarations_cases declarations start with
    ⟨e, hrefusal, he⟩ | ⟨haccepted, ⟨hstart, he⟩ | ⟨hstart, hnone, he⟩ | ⟨hstart, hrules, g', hg'⟩⟩
  · refine iff_of_false (by rw [he]; exact nofun) ?_
    exact fun h => h.1.not_firstRefusal hrefusal
  · refine iff_of_false (by rw [he]; exact nofun) ?_
    exact fun h => hstart h.2.1
  · refine iff_of_false (by rw [he]; exact nofun) ?_
    exact fun h => h.2.2.1 hnone
  · constructor
    · intro hg
      exact ⟨haccepted, hstart, hrules, lists_of_ofDeclarations hg⟩
    · rintro ⟨_, _, _, hlists⟩
      rw [hg', (lists_of_ofDeclarations hg').unique hlists]

/-- What is reported of declarations that describe no grammar. -/
theorem ofDeclarations_eq_error_iff
    {declarations : List Declaration} {start : String} {e : GrammarError} :
    ofDeclarations declarations start = .error e ↔
      FirstRefusal declarations e ∨
        Accepted declarations ∧
          ((start ∉ declaredNames declarations ∧ e = .missingSymbol start) ∨
            (start ∈ declaredNames declarations ∧ declaredProductions declarations = [] ∧
              e = .noRules)) := by
  constructor
  · intro h
    rcases ofDeclarations_cases declarations start with
      ⟨e', hrefusal, he⟩ | ⟨haccepted, ⟨hstart, he⟩ | ⟨hstart, hnone, he⟩ | ⟨_, _, g, hg⟩⟩
    · cases he.symm.trans h
      exact Or.inl hrefusal
    · cases he.symm.trans h
      exact Or.inr ⟨haccepted, Or.inl ⟨hstart, rfl⟩⟩
    · cases he.symm.trans h
      exact Or.inr ⟨haccepted, Or.inr ⟨hstart, hnone, rfl⟩⟩
    · cases hg.symm.trans h
  · rintro (hrefusal | ⟨haccepted, hlast⟩)
    · rw [ofDeclarations, Builder.addAll_eq_error_iff.mpr hrefusal]
      rfl
    · rcases ofDeclarations_cases declarations start with
        ⟨e', hrefusal, _⟩ | ⟨_, ⟨hstart, he⟩ | ⟨hstart, hnone, he⟩ | ⟨hstart, hrules, _⟩⟩
      · exact absurd hrefusal haccepted.not_firstRefusal
      · rcases hlast with ⟨_, rfl⟩ | ⟨hdeclared, _⟩
        · exact he
        · exact absurd hdeclared hstart
      · rcases hlast with ⟨hmissing, _⟩ | ⟨_, _, rfl⟩
        · exact absurd hstart hmissing
        · exact he
      · rcases hlast with ⟨hmissing, _⟩ | ⟨_, hnone, _⟩
        · exact absurd hstart hmissing
        · exact absurd hnone hrules

/-- A draft of declarations reports the first of them that is refused, and after none of them a
start symbol that is missing or that there is no rule.  Else it has the grammar whose symbols are
the declared names and whose rules are the declared productions, in the order in which they were
declared first. -/
theorem draft_reports_first_refusal
    (declarations : List Declaration)
    (start : String) :
    (Draft.empty.addAll declarations).toGrammar start = ofDeclarations declarations start ∧
      (∀ e, ofDeclarations declarations start = .error e ↔
        FirstRefusal declarations e ∨
          Accepted declarations ∧
            ((start ∉ declaredNames declarations ∧ e = .missingSymbol start) ∨
              (start ∈ declaredNames declarations ∧ declaredProductions declarations = [] ∧
                e = .noRules))) ∧
      ∀ g, ofDeclarations declarations start = .ok g ↔
        Accepted declarations ∧ start ∈ declaredNames declarations ∧
          declaredProductions declarations ≠ [] ∧
          g.Lists (declaredNames declarations) (declaredProductions declarations) start := by
  refine ⟨Draft.toGrammar_addAll declarations start, ?_, ?_⟩
  · intro e
    exact ofDeclarations_eq_error_iff
  · intro g
    exact ofDeclarations_eq_ok_iff

end Grammar
end ChartParsing
