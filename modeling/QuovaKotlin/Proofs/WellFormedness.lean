import QuovaKotlin.Ast.Dump
import QuovaKotlin.Proofs.Reading.File
import QuovaKotlin.Proofs.Reading.FileOrigins

/-!
# Syntax trees are well-formed

Not every syntax tree stands for a text: a property has a value or a delegate but not both, the
names and the new name of an import exclude each other, and no branch is without a condition. Every
tree that is read from a text keeps these rules. The grammar lets at most one of several children
stand, or asks for at least one, and every part of a tree was read from a node of its rule.
-/

set_option autoImplicit false

namespace QuovaKotlin.Ast

open Json (tagged)

/-- At most one of a wildcard, a list of names and a new name is given. -/
def Import.WellFormed (i : Import) : Prop :=
  [i.wildcard, ! i.names.isEmpty, i.newName.isSome].count true ≤ 1

namespace Expression

/-- The expression is dumped as a list in braces. `side` tells elements (`A`) from dictionary
entries (`B`). -/
def IsInitializerList (e : Expression) (side : String) (entries : List Json)
    (element : Option TypeRef) : Prop :=
  e.dump = tagged "Literal" (tagged "InitializerList" (dumpInitializer side entries element))

/-- The expression is dumped as a list in braces behind the type of an array. -/
def IsArrayInvocation (e : Expression) (side : String) (entries : List Json)
    (element : Option TypeRef) : Prop :=
  e.dump = tagged "ConstructorInvocation" (tagged "Array" (dumpInitializer side entries element))

structure WellFormed (e : Expression) : Prop where
  dictionary {entries : List Json} {element : Option TypeRef} :
    e.IsInitializerList "B" entries element → entries ≠ [] ∧ element = none
  array {side : String} {entries : List Json} {element : Option TypeRef} :
    e.IsArrayInvocation side entries element → side = "A" ∧ element ≠ none

end Expression

/-- What a reader of the tree may rely on, part by part. -/
def Part.WellFormed : Part → Prop
  | .property p => p.value = none ∨ p.delegate = none
  | .properties p => p.properties ≠ []
  | .function f => f.returnType = none → f.body ≠ .absent
  | .suffix (.indexing indices) => indices ≠ []
  | .branch b => b.conditions ≠ []
  | .expression e => e.WellFormed
  | .typeKind (.singleton _ members) => members.instances = []
  | _ => True

/-- The tag of the object that an expression is dumped as. -/
def Expression.tag : Expression → String
  | .literal _ | .initializer _ | .dictionary _ | .lambda .. => "Literal"
  | .identifier _ => "Identifier"
  | .construct .. | .arrayOf .. => "ConstructorInvocation"
  | .switch none .. => "When"
  | .switch (some _) .. => "Switch"
  | .parenthesized _ => "Parenthesized"
  | .suffixed .. => "Postfix"
  | .prefixed .. => "Prefix"
  | .cast .. => "Cast"
  | .binary operator .. => operator.tag
  | .ternary .. => "Ternary"
  | .spread _ => "Spread"
  | .assign .. => "Assignment"
  | .comprehension .. => "ListComprehension"

theorem Expression.dump_eq_tagged (e : Expression) : ∃ value, e.dump = tagged e.tag value := by
  cases e with
  | switch subject branches fallback =>
    cases subject <;> cases fallback <;> exact ⟨_, rfl⟩
  | comprehension mapping item source condition => cases condition <;> exact ⟨_, rfl⟩
  | _ => exact ⟨_, rfl⟩

theorem tagged_inj {tag tag' : String} {value value' : Json}
    (h : tagged tag value = tagged tag' value') : tag = tag' ∧ value = value' := by
  simpa [tagged] using h

theorem tag_of_dump {e : Expression} {tag : String} {value : Json}
    (h : e.dump = tagged tag value) : e.tag = tag := by
  obtain ⟨value', hdump⟩ := e.dump_eq_tagged
  exact (tagged_inj (hdump.symm.trans h)).1

theorem dumpInitializer_inj {side side' : String} {entries entries' : List Json}
    {element element' : Option TypeRef}
    (h : dumpInitializer side entries element = dumpInitializer side' entries' element') :
    side = side' ∧ entries = entries' ∧ dumpType element = dumpType element' := by
  simpa [dumpInitializer, tagged, and_assoc] using h

theorem eq_none_of_dumpType {type : Option TypeRef} (h : dumpType none = dumpType type) :
    type = none := by
  cases type with
  | none => rfl
  | some type =>
    obtain ⟨core, dimensions, nullable⟩ := type
    simp [dumpType, Json.ofOption, TypeRef.dump] at h

namespace Expression

theorem dictionary_of_isInitializerList {e : Expression} {entries : List Json}
    {element : Option TypeRef} (h : e.IsInitializerList "B" entries element) :
    element = none ∧ ∃ list, e = .dictionary list ∧ entries = DictionaryEntry.dumpEach list := by
  have htag := tag_of_dump h
  cases e with
  | dictionary list =>
    obtain ⟨-, hlist, htype⟩ := dumpInitializer_inj (tagged_inj (tagged_inj h).2).2
    exact ⟨eq_none_of_dumpType htype, list, rfl, hlist.symm⟩
  | initializer list =>
    obtain ⟨hside, -, -⟩ := dumpInitializer_inj (tagged_inj (tagged_inj h).2).2
    simp at hside
  | literal value =>
    replace h := (tagged_inj h).2
    cases value <;> simp [Literal.dump, tagged] at h
  | lambda parameters body =>
    obtain ⟨hkind, -⟩ := tagged_inj (tagged_inj h).2
    simp at hkind
  | switch subject branches fallback => cases subject <;> simp [tag] at htag
  | binary operator left right => cases operator <;> simp [tag, BinaryOperator.tag] at htag
  | _ => simp [tag] at htag

theorem arrayOf_of_isArrayInvocation {e : Expression} {side : String} {entries : List Json}
    {element : Option TypeRef} (h : e.IsArrayInvocation side entries element) :
    side = "A" ∧ element ≠ none := by
  have htag := tag_of_dump h
  cases e with
  | arrayOf type elements =>
    obtain ⟨hside, -, htype⟩ := dumpInitializer_inj (tagged_inj (tagged_inj h).2).2
    refine ⟨hside.symm, fun hnone => ?_⟩
    rw [hnone] at htype
    cases eq_none_of_dumpType htype.symm
  | construct type arguments =>
    obtain ⟨hkind, -⟩ := tagged_inj (tagged_inj h).2
    simp at hkind
  | switch subject branches fallback => cases subject <;> simp [tag] at htag
  | binary operator left right => cases operator <;> simp [tag, BinaryOperator.tag] at htag
  | _ => simp [tag] at htag

/-- Only a dictionary without entries would not be well-formed. -/
theorem wellFormed_of_dictionary {e : Expression}
    (h : ∀ list, e = .dictionary list → list ≠ []) : e.WellFormed where
  dictionary hlist := by
    obtain ⟨hnone, list, rfl, rfl⟩ := dictionary_of_isInitializerList hlist
    refine ⟨?_, hnone⟩
    cases list with
    | nil => exact absurd rfl (h [] rfl)
    | cons entry list => simp [DictionaryEntry.dumpEach]
  array := arrayOf_of_isArrayInvocation

end Expression

end QuovaKotlin.Ast

namespace QuovaKotlin.Reading

open Ast Peg
open Peg.ParseTree (Within)
open Source (Rule)

section

variable {height : Nat} {node : Node} {parts : Readers}

theorem each_ne_nil {α : Type} {rule : Rule} {read : Node → Read α} {child : Node} {xs : List α}
    (hchild : node.child? rule = some child) (h : each node rule read = .ok xs) : xs ≠ [] := by
  obtain ⟨hmem, hrule⟩ := mem_of_child? hchild
  have hchildren : child ∈ node.childrenOf rule :=
    List.mem_filter.mpr ⟨hmem, decide_eq_true hrule⟩
  unfold each at h
  cases hnodes : node.childrenOf rule with
  | nil =>
    rw [hnodes] at hchildren
    cases hchildren
  | cons first others =>
    rw [hnodes, List.mapM_cons] at h
    obtain ⟨x, -, h⟩ := bind_eq_ok h
    obtain ⟨ys, -, h⟩ := bind_eq_ok h
    cases h
    exact List.cons_ne_nil x ys

theorem each_of_always {α : Type} {rule r : Rule} {read : Node → Read α} {xs : List α}
    (hsite : Site height rule node) (halways : always rule (· = r))
    (h : each node r read = .ok xs) : xs ≠ [] := by
  obtain ⟨child, hchild⟩ := hsite.child?_some halways
  exact each_ne_nil hchild h

theorem readImport_wellFormed {i : Import} (hsite : Site height .importHeader node)
    (h : readImport node = .ok i) : i.WellFormed := by
  obtain ⟨names, hnames, h⟩ := bind_eq_ok h
  obtain ⟨newName, hnewName, h⟩ := bind_eq_ok h
  obtain ⟨path, -, h⟩ := bind_eq_ok h
  cases h
  show [node.has .importAll, ! names.isEmpty, newName.isSome].count true ≤ 1
  cases hall : node.child? .importAll with
  | some all =>
    have hlist := hsite.absent_of_never (s := .importList) (by decide) (by decide) hall
    have halias := hsite.absent_of_never (s := .importAlias) (by decide) (by decide) hall
    rw [listUnder_eq_nil hlist] at hnames
    cases hnames
    rw [(atMostOne_eq_none hnewName).mpr halias]
    cases node.has .importAll <;> decide
  | none =>
    rw [ParseTree.has, hall]
    cases hlist : node.child? .importList with
    | some list =>
      have halias := hsite.absent_of_never (s := .importAlias) (by decide) (by decide) hlist
      rw [(atMostOne_eq_none hnewName).mpr halias]
      cases names.isEmpty <;> decide
    | none =>
      rw [listUnder_eq_nil hlist] at hnames
      cases hnames
      cases newName.isSome <;> decide

/-- A property has its value or its delegate from the same optional place. -/
theorem readProperty_wellFormed {p : Property} (hsite : Site height .property node)
    (h : readProperty parts node = .ok p) : p.value = none ∨ p.delegate = none := by
  obtain ⟨value, hvalue, h⟩ := bind_eq_ok h
  obtain ⟨delegate, hdelegate, h⟩ := bind_eq_ok h
  obtain ⟨getter, -, h⟩ := bind_eq_ok h
  obtain ⟨setter, -, h⟩ := bind_eq_ok h
  obtain ⟨name, -, h⟩ := bind_eq_ok h
  cases h
  cases hchild : node.child? .propertyValue with
  | none => exact .inl ((atMostOne_eq_none hvalue).mpr hchild)
  | some child =>
    have habsent := hsite.absent_of_never (s := .propertyDelegate) (by decide) (by decide) hchild
    exact .inr ((atMostOne_eq_none hdelegate).mpr habsent)

theorem readProperties_wellFormed {scope : Scope} {p : PropertyDeclaration}
    (hsite : Site height .propertyDeclaration node)
    (h : readProperties parts scope node = .ok p) : p.properties ≠ [] := by
  obtain ⟨modifiers, -, h⟩ := bind_eq_ok h
  obtain ⟨properties, hproperties, h⟩ := bind_eq_ok h
  obtain ⟨annotations, -, h⟩ := bind_eq_ok h
  obtain ⟨visibility, -, h⟩ := bind_eq_ok h
  obtain ⟨inheritance, -, h⟩ := bind_eq_ok h
  obtain ⟨type, -, h⟩ := bind_eq_ok h
  cases h
  exact each_of_always hsite (by decide) hproperties

theorem readFunctionBody_ne_absent {body : FunctionBody}
    (h : readFunctionBody parts node = .ok body) : body ≠ .absent := by
  obtain ⟨block, -, h⟩ := bind_eq_ok h
  obtain ⟨value, -, h⟩ := bind_eq_ok h
  rintro rfl
  split at h <;> cases h

/-- A function may leave out its return type or its body, but not both. -/
theorem readFunction_wellFormed {scope : Scope} {f : FunctionDeclaration}
    (hsite : Site height .functionDeclaration node)
    (h : readFunction parts scope node = .ok f) : f.returnType = none → f.body ≠ .absent := by
  obtain ⟨modifiers, -, h⟩ := bind_eq_ok h
  obtain ⟨returnType, hreturnType, h⟩ := bind_eq_ok h
  obtain ⟨throws, -, h⟩ := bind_eq_ok h
  obtain ⟨body, hbody, h⟩ := bind_eq_ok h
  obtain ⟨annotations, -, h⟩ := bind_eq_ok h
  obtain ⟨visibility, -, h⟩ := bind_eq_ok h
  obtain ⟨inheritance, -, h⟩ := bind_eq_ok h
  obtain ⟨typeParameters, -, h⟩ := bind_eq_ok h
  obtain ⟨name, -, h⟩ := bind_eq_ok h
  obtain ⟨parameters, -, h⟩ := bind_eq_ok h
  cases h
  intro hnone
  obtain ⟨child, hchild⟩ := hsite.child?_of_absent (s := .functionBody) (by decide)
    ((atMostOne_eq_none hreturnType).mp hnone)
  obtain ⟨value, hvalue, h⟩ := bind_eq_ok hbody
  cases h
  cases value with
  | none =>
    rw [(atMostOne_eq_none hvalue).mp rfl] at hchild
    cases hchild
  | some body =>
    obtain ⟨_, -, -, hread⟩ := of_atMostOne hvalue body rfl
    exact readFunctionBody_ne_absent hread

theorem readConditions_ne_nil {conditions : List Condition}
    (hsite : Site height .switchCondition node)
    (h : readConditions parts node = .ok conditions) : conditions ≠ [] := by
  obtain ⟨kind, -, h⟩ := bind_eq_ok h
  obtain ⟨values, hvalues, h⟩ := bind_eq_ok h
  obtain ⟨others, -, h⟩ := bind_eq_ok h
  cases h
  have hne := each_of_always hsite (by decide) hvalues
  simp [hne]

theorem readSwitchBranch_wellFormed {b : Branch} (hsite : Site height .switchBranch node)
    (h : readSwitchBranch parts node = .ok b) : b.conditions ≠ [] := by
  obtain ⟨conditions, hconditions, h⟩ := bind_eq_ok h
  obtain ⟨body, -, h⟩ := bind_eq_ok h
  cases h
  obtain ⟨child, hmem, hrule, hread⟩ := of_one hconditions
  have hchild := (hsite.mono (Nat.le_succ height)).child hmem
  rw [hrule] at hchild
  exact readConditions_ne_nil hchild hread

theorem readWhenBranch_wellFormed {b : Branch} (hsite : Site height .whenBranch node)
    (h : readWhenBranch parts node = .ok b) : b.conditions ≠ [] := by
  obtain ⟨values, hvalues, h⟩ := bind_eq_ok h
  obtain ⟨body, -, h⟩ := bind_eq_ok h
  cases h
  have hne := each_of_always hsite (by decide) hvalues
  simpa using hne

/-- A list is read as a dictionary only where an entry stands. -/
theorem readInitializer_wellFormed {entries : List DictionaryEntry}
    (h : readInitializer parts node = .ok (.entries entries)) : entries ≠ [] := by
  unfold readInitializer at h
  split at h
  · next hhas =>
    obtain ⟨list, hlist, heq⟩ := map_eq_ok h
    cases heq
    obtain ⟨child, hchild⟩ := Option.isSome_iff_exists.mp hhas
    exact each_ne_nil hchild hlist
  · obtain ⟨list, -, heq⟩ := map_eq_ok h
    cases heq

theorem readSingleton_wellFormed {supertypes : List Supertype} {members : Members}
    (h : readTypeKind parts node = .ok (.singleton supertypes members)) :
    members.instances = [] := by
  unfold readTypeKind at h
  split at h
  case h_2 =>
    obtain ⟨body, -, h⟩ := bind_eq_ok h
    obtain ⟨all, -, h⟩ := bind_eq_ok h
    obtain ⟨_, -, h⟩ := bind_eq_ok h
    cases h
    rfl
  all_goals
    repeat obtain ⟨_, -, h⟩ := bind_eq_ok h
    cases h

/-- What is read from a node that the grammar made is well-formed. -/
theorem wellFormed_of_isReading {part : Part} (hsite : Site height node.rule node)
    (h : IsReading parts node part) : part.WellFormed := by
  cases part with
  | property p =>
    obtain ⟨hrule, h⟩ := h
    exact readProperty_wellFormed (hrule ▸ hsite) h
  | properties p =>
    obtain ⟨hrule, scope, h⟩ := h
    exact readProperties_wellFormed (hrule ▸ hsite) h
  | function f =>
    obtain ⟨hrule, scope, h⟩ := h
    exact readFunction_wellFormed (hrule ▸ hsite) h
  | suffix operator =>
    cases operator with
    | indexing indices =>
      obtain ⟨hrule, h⟩ := h
      rw [hrule] at hsite
      exact each_of_always hsite (by decide) h
    | _ => trivial
  | branch b =>
    rcases h with ⟨hrule, h⟩ | ⟨hrule, h⟩
    · exact readSwitchBranch_wellFormed (hrule ▸ hsite) h
    · exact readWhenBranch_wellFormed (hrule ▸ hsite) h
  | expression e =>
    apply Expression.wellFormed_of_dictionary
    rintro list rfl
    exact readInitializer_wellFormed h.2
  | typeKind k =>
    cases k with
    | singleton supertypes members => exact readSingleton_wellFormed h
    | _ => trivial
  | _ => trivial

end

end QuovaKotlin.Reading

namespace QuovaKotlin.Source

open Ast Peg Peg.Grammar Reading

theorem site_of_within {text : String} {tree node : Node}
    (h : grammar.parse .quovaFile text = .ok tree) (hnode : ParseTree.Within node tree) :
    Site node.height node.rule node := by
  obtain ⟨c, d, heval⟩ := evaluates_of_within grammar_kind h hnode
  exact site_of_evaluates heval

/-- Every syntax tree that is read from a text is well-formed, in all its parts. -/
theorem parse_wellFormed {text : String} {file : SourceFile} (h : parse text = .ok file) :
    (∀ i ∈ file.imports, i.WellFormed) ∧ ∀ part, file.Contains part → part.WellFormed := by
  obtain ⟨tree, htree, hread⟩ := tree_of_parse h
  constructor
  · intro i hi
    obtain ⟨package, -, hread⟩ := bind_eq_ok hread
    obtain ⟨imports, himports, hread⟩ := bind_eq_ok hread
    obtain ⟨declarations, -, hread⟩ := bind_eq_ok hread
    cases hread
    rcases List.mem_append.mp hi with hi | hi
    · obtain ⟨child, hmem, hrule, hchild⟩ := of_each himports i hi
      have hsite := site_of_within htree (.child hmem (.self child))
      rw [hrule] at hsite
      exact readImport_wellFormed hsite hchild
    · have hadded : ∀ i ∈ [Import.standardLibrary, Import.integerAlias], i.WellFormed := by
        unfold Import.WellFormed
        decide
      exact hadded i hi
  · intro part hpart
    obtain ⟨height, node, hnode, hreading⟩ := origin_of_contains hread hpart
    exact wellFormed_of_isReading (site_of_within htree hnode) hreading

/-- The tree of `import p.{q}; var x = {a: b[c]};` -/
def indexedEntryTree : Node :=
  .node .quovaFile ⟨0, 32⟩ [
    .node .importHeader ⟨0, 13⟩ [.token .kwImport ⟨0, 6⟩ "import", .token .identifier ⟨7, 8⟩ "p",
      .node .importList ⟨8, 12⟩ [.token .simpleIdentifier ⟨10, 11⟩ "q"]],
    .node .declaration ⟨14, 32⟩ [.node .propertyDeclaration ⟨14, 32⟩ [
      .node .typeOrVar ⟨14, 17⟩ [.token .kwVar ⟨14, 17⟩ "var"],
      .node .property ⟨18, 31⟩ [.token .simpleIdentifier ⟨18, 19⟩ "x",
        .node .propertyValue ⟨20, 31⟩ [
          .node .expression ⟨22, 31⟩ [.node .operatorExpression ⟨22, 31⟩ [
            .node .literal ⟨22, 31⟩ [.node .initializerList ⟨22, 31⟩ [
              .node .dictionaryEntry ⟨23, 30⟩ [nameTree 23 "a",
                .node .expression ⟨26, 30⟩ [.node .operatorExpression ⟨26, 30⟩ [
                  .token .simpleIdentifier ⟨26, 27⟩ "b",
                  .node .postfixOperator ⟨27, 30⟩ [
                    .node .indexingSuffix ⟨27, 30⟩ [nameTree 28 "c"]]]]]]]]]]]]],
    .node .endOfInput ⟨32, 32⟩ []]

def indexedEntry : Expression :=
  .dictionary [⟨.identifier "a", .suffixed (.identifier "b") (.indexing [.identifier "c"])⟩]

def indexedEntryFile : SourceFile where
  shebang := none
  package := none
  imports := [⟨"p", false, ["q"], none⟩, .standardLibrary, .integerAlias]
  declarations := [.property ⟨[], .internalAccess, none, [], none,
    [⟨"x", some indexedEntry, none, none, none⟩]⟩]

theorem parse_indexedEntry :
    parse "import p.\x7bq\x7d; var x = \x7ba: b[c]\x7d;" = .ok indexedEntryFile :=
  parse_of_toOption indexedEntryTree (by decide +kernel) rfl

theorem indexedEntryFile_contains : indexedEntryFile.Contains (.expression indexedEntry) :=
  ⟨_, List.mem_cons_self, .child List.mem_cons_self
    (.child List.mem_cons_self (.child List.mem_cons_self (.self _)))⟩

theorem indexedEntryFile_wellFormed :
    parse "import p.\x7bq\x7d; var x = \x7ba: b[c]\x7d;" = .ok indexedEntryFile ∧
    indexedEntryFile.Contains (.expression indexedEntry) ∧
    (∀ i ∈ indexedEntryFile.imports, i.WellFormed) ∧
    ∀ part, indexedEntryFile.Contains part → part.WellFormed :=
  ⟨parse_indexedEntry, indexedEntryFile_contains, parse_wellFormed parse_indexedEntry⟩

end QuovaKotlin.Source
