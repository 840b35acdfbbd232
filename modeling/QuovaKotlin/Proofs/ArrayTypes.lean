import QuovaKotlin.Proofs.SourceRows
import QuovaKotlin.Proofs.TypeTexts

/-!
# Types of arrays

The depth of an array stands in a type in three ways: as the number of `[]` behind a declared type,
as nested constructors of a sized array, and as the type of the elements of an initializer. The
three agree: the types have one text, but for the mark on the elements of a sized array that are
null at first.
-/

set_option autoImplicit false

namespace QuovaKotlin.Ast

open Text

namespace TypeRef

theorem kotlin_arrayOf (element : TypeRef) :
    (arrayOf element).kotlin = "Array<" ++ element.kotlin ++ ">" :=
  (kotlin_array element false).trans String.append_empty

/-- The type of the array that elements of a type make: primitives have arrays of their own. -/
def ofElements : TypeRef → TypeRef
  | ⟨.primitive ⟨kind, false⟩, 0, false⟩ => .primitive kind true
  | element => .arrayOf element

end TypeRef

namespace ElementType

/-- The type that is declared with `n` times `[]` behind the element type. -/
def declared : ElementType → Nat → TypeRef
  | primitive kind, n => ⟨.primitive ⟨kind, 0 < n⟩, n - 1, false⟩
  | user type, n => ⟨.user type, n, false⟩

/-- The innermost type that is written out: an array of primitives, or a single element. -/
def coreText : ElementType → String
  | primitive kind => kind.kotlin ++ "Array"
  | user type => type.kotlin

/-- The mark on the elements of an array that is given by its size. -/
def emptyMark : ElementType → String
  | primitive _ => ""
  | user _ => "?"

/-- The number of `Array<...>` in the text of an array of depth `n`. -/
def shells : ElementType → Nat → Nat
  | primitive _, n => n - 1
  | user _, n => n

/-- The text of an array of depth `n`, with a mark on the innermost type. -/
def arrayText (element : ElementType) (n : Nat) (mark : String) : String :=
  copies (element.shells n) "Array<" ++ (element.coreText ++ mark) ++ copies (element.shells n) ">"

theorem shells_succ (element : ElementType) {n : Nat} (hn : 1 ≤ n) :
    element.shells (n + 1) = element.shells n + 1 := by
  cases element with
  | primitive kind => exact (Nat.sub_add_cancel hn).symm
  | user type => rfl

theorem arrayText_succ (element : ElementType) {n : Nat} (hn : 1 ≤ n) (mark : String) :
    element.arrayText (n + 1) mark = "Array<" ++ element.arrayText n mark ++ ">" := by
  unfold arrayText
  rw [element.shells_succ hn, copies_succ_right _ ">", copies]
  simp only [String.append_assoc]

theorem kotlin_declared (element : ElementType) {n : Nat} (hn : 1 ≤ n) :
    (element.declared n).kotlin = element.arrayText n "" := by
  unfold arrayText
  cases element with
  | primitive kind =>
    have harray : onlyIf (0 < n) "Array" = "Array" := if_pos (decide_eq_true hn)
    show copies (n - 1) "Array<" ++ (kind.kotlin ++ onlyIf (0 < n) "Array") ++
      copies (n - 1) ">" ++ "" = _
    rw [harray, String.append_empty, String.append_empty]
    rfl
  | user type =>
    show copies n "Array<" ++ type.kotlin ++ copies n ">" ++ "" = _
    rw [String.append_empty, String.append_empty]
    rfl

/-- The elements of an array of depth `n + 1` are arrays of depth `n`. -/
theorem ofDimensions_succ (element : ElementType) (n : Nat) :
    element.ofDimensions (n + 1) = element.declared n := by
  cases element with
  | primitive kind => cases n <;> rfl
  | user type => rfl

theorem kotlin_ofElements (element : ElementType) {n : Nat} (hn : 1 ≤ n) :
    (element.ofDimensions n).ofElements.kotlin = element.arrayText n "" := by
  obtain ⟨n, rfl⟩ := Nat.exists_eq_add_of_le' hn
  rw [ofDimensions_succ]
  cases n with
  | zero =>
    cases element with
    | primitive kind =>
      have hof : ((primitive kind).declared 0).ofElements = (primitive kind).declared 1 := rfl
      rw [hof, kotlin_declared _ hn]
    | user type =>
      have hof : ((user type).declared 0).ofElements = .arrayOf (.plain (.user type)) := rfl
      have htext : (TypeRef.plain (.user type)).kotlin = "" ++ type.kotlin ++ "" ++ "" := rfl
      rw [hof, TypeRef.kotlin_arrayOf, htext]
      simp [arrayText, shells, coreText, copies]
  | succ n =>
    have hof : (element.declared (n + 1)).ofElements = .arrayOf (element.declared (n + 1)) := by
      cases element <;> rfl
    rw [hof, TypeRef.kotlin_arrayOf, element.kotlin_declared (Nat.le_add_left 1 n),
      element.arrayText_succ (Nat.le_add_left 1 n)]

/-- What the innermost constructor of a sized array takes behind the size. -/
def filling : ElementType → List Argument
  | primitive _ => []
  | user _ => [.positional (.thunk (.literal .null))]

/-- Nested constructors of an array, with the type and the size of each from outside in. -/
inductive Nests (element : ElementType) : Expression → List (TypeRef × Expression) → Prop
  | innermost (type : TypeRef) (size : Expression) :
      Nests element (.construct type (.positional size :: element.filling)) [(type, size)]
  | outer {array : Expression} {levels : List (TypeRef × Expression)} (type : TypeRef)
      (size : Expression) : Nests element array levels →
      Nests element (.construct type [.positional size, .positional (.thunk array)])
        ((type, size) :: levels)

/-- The type of one level is the only type argument of the level around it. -/
def Encloses (outer inner : TypeRef × Expression) : Prop :=
  outer.1 = ⟨.user ⟨"Array", [.concrete none inner.1]⟩, 0, false⟩

theorem nests_innermost (element : ElementType) (size : Expression) :
    element.Nests (element.innermost size).2 [((element.innermost size).1, size)] := by
  cases element <;> exact .innermost _ size

theorem kotlin_innermost (element : ElementType) (size : Expression) :
    (element.innermost size).1.kotlin = element.arrayText 1 element.emptyMark := by
  cases element with
  | primitive kind =>
    have htype : ((primitive kind).innermost size).1 = (primitive kind).declared 1 := rfl
    rw [htype, kotlin_declared _ (Nat.le_refl 1), emptyMark]
  | user type =>
    have htext : (TypeRef.mk (.user type) 0 true).kotlin = "" ++ type.kotlin ++ "" ++ "?" := rfl
    show (TypeRef.arrayOf ⟨.user type, 0, true⟩).kotlin = _
    rw [TypeRef.kotlin_arrayOf, htext]
    simp [arrayText, shells, coreText, copies, emptyMark]

/-- A sized array has one constructor for each size, and its type is that of the outermost one. -/
theorem sized?_nests (element : ElementType) (size : Expression) (sizes : List Expression) :
    ∃ type array levels, element.sized? (size :: sizes) = some (type, array) ∧
      element.Nests array ((type, size) :: levels) ∧ levels.map Prod.snd = sizes ∧
      ((type, size) :: levels).IsChain Encloses ∧
      type.kotlin = element.arrayText (sizes.length + 1) element.emptyMark := by
  induction sizes generalizing size with
  | nil =>
    exact ⟨_, _, [], rfl, element.nests_innermost size, rfl, .singleton _,
      element.kotlin_innermost size⟩
  | cons next sizes ih =>
    obtain ⟨type, array, levels, hsized, hnests, hsizes, hchain, htext⟩ := ih next
    refine ⟨.arrayOf type, _, (type, next) :: levels, ?_, .outer _ size hnests, ?_, ?_, ?_⟩
    · rw [sized?, hsized]
      · rfl
      · rintro ⟨⟩
    · rw [List.map_cons, hsizes]
    · exact .cons_cons rfl hchain
    · rw [TypeRef.kotlin_arrayOf, htext, List.length_cons,
        element.arrayText_succ (Nat.le_add_left 1 _)]

end ElementType

end QuovaKotlin.Ast

namespace QuovaKotlin.Reading

open Ast
open Source
open Peg Peg.Grammar

/-- What stands in front of the `[]` of a type. -/
def readBase (node : Node) : Read ElementType :=
  readElementType ((node.child? .primitiveType).getD node)

/-- How often `[]` stands in a type: behind it, and inside a primitive type. -/
def arrayDepth (node : Node) : Nat :=
  (node.childrenOf .emptyDimension).length +
    (node.child? .primitiveType).elim 0 fun type => (type.childrenOf .emptyDimension).length

/-- No `[]` follows a primitive type that has none, since the type would have taken it. -/
theorem noDimension_of_primitiveType {c d : Cursor} {type : Node}
    (h : Evaluates grammar {} (.rule .primitiveType) c (some ([type], d)))
    (habsent : type.child? .emptyDimension = none) :
    Evaluates grammar {} (.rule .emptyDimension) (between {} d) none := by
  obtain ⟨_, _, e, hinner, -, hoptional⟩ := (evaluates_children h rfl).of_seq
  rcases hoptional.of_optional with hsome | ⟨hnone, -, rfl⟩
  · obtain ⟨_, rfl, -⟩ := hsome.of_rule grammar_kind
    rw [ParseTree.child?, hinner, List.find?_eq_none] at habsent
    have hrule := habsent _ (List.mem_append_right _ List.mem_cons_self)
    rw [treeOf_rule] at hrule
    exact absurd rfl hrule
  · have hskip : between {} (between {} e) = between {} e := e.skipLayout_skipLayout
    rwa [hskip]

theorem childrenOf_of_primitiveType {c d : Cursor} {node type : Node}
    (h : Evaluates grammar {} (.rule .typeUse) c (some ([node], d)))
    (hfirst : first node = .ok type) (hrule : type.rule = .primitiveType)
    (habsent : type.child? .emptyDimension = none) :
    node.childrenOf .emptyDimension = [] := by
  obtain ⟨rest, hchildren⟩ := first_eq_ok hfirst
  obtain ⟨us, _, e, hnode, hcore, hrest⟩ := (evaluates_children h rfl).of_seq
  obtain ⟨dims, marks, _, rfl, hdims, hmarks⟩ := hrest.of_seq
  have hus : us = [type] := by
    obtain ⟨p, hmem, hp⟩ := hcore.of_oneOf
    simp only [List.mem_cons, List.not_mem_nil, or_false] at hmem
    rcases hmem with rfl | rfl | rfl <;>
    · obtain ⟨_, rfl, -⟩ := hp.of_rule grammar_kind
      rw [hchildren] at hnode
      rw [(List.cons.inj hnode).1]
  subst hus
  have htype := evaluates_alternative grammar_kind hcore hrule (by decide)
  -- The repetition is tried where the primitive type has just found no `[]`.
  cases hdims.unique (.noStar (noDimension_of_primitiveType htype habsent))
  rw [ParseTree.childrenOf, hnode, List.filter_append, List.filter_append,
    List.filter_cons_of_neg (by simp [hrule])]
  rcases Evaluates.of_optional hmarks with hsome | ⟨-, rfl, -⟩
  · obtain ⟨_, rfl, -⟩ := hsome.of_rule grammar_kind
    rw [List.filter_cons_of_neg (by simp [treeOf_rule])]
    rfl
  · rfl

/-- The rules of what can stand in front of `[]`. -/
def isCore (rule : Rule) : Bool :=
  [Rule.functionType, .primitiveType, .userType].contains rule

theorem first_typeUse {height : Nat} {node core : Node} (h : Site height .typeUse node)
    (hmem : core ∈ node.children) (hcore : isCore core.rule) : first node = .ok core := by
  obtain ⟨child, rest, hchildren, hhead⟩ := h.first_child (by decide)
  have hchild : isCore child.rule := List.contains_iff_mem.mpr hhead
  have heq : child = core :=
    h.eq_of_never (a := isCore) (b := isCore) (by decide) (by simp [hchildren]) hmem hchild hcore
  rw [first, hchildren, heq]

theorem readPrimitiveType_eq {type : Node} {element : ElementType}
    (h : readElementType type = .ok element) (hkind : type.has .primitiveTypeNoArray) :
    ∃ kind, element = .primitive kind ∧
      readPrimitiveType type = .ok ⟨kind, type.has .emptyDimension⟩ := by
  obtain ⟨token, htoken⟩ := Option.isSome_iff_exists.mp hkind
  rw [readElementType, htoken] at h
  obtain ⟨kind, hread, rfl⟩ := map_eq_ok h
  refine ⟨kind, rfl, ?_⟩
  rw [readPrimitiveType, one, required, htoken]
  show (readPrimitiveKind token >>= _) = _
  rw [hread]
  rfl

theorem length_childrenOf_primitiveType {height : Nat} {type : Node}
    (h : Site height .primitiveType type) : (type.childrenOf .emptyDimension).length ≤ 1 := by
  have hall : ∀ rules ∈ (grammar.body .primitiveType).allWords,
      rules.count .emptyDimension ≤ 1 := by decide
  have hcount := hall _ ((h.word (by decide)).mem_allWords (by decide))
  rwa [List.count_eq_countP, List.countP_map, List.countP_eq_length_filter] at hcount

/-- The `[]` of a primitive type are one in the type, and the others behind it. -/
theorem declared_primitive {c d : Cursor} {node type : Node}
    (h : Evaluates grammar {} (.rule .typeUse) c (some ([node], d)))
    (hfirst : first node = .ok type) (hrule : type.rule = .primitiveType)
    (kind : PrimitiveKind) :
    (ElementType.primitive kind).declared ((node.childrenOf .emptyDimension).length +
        (type.childrenOf .emptyDimension).length) =
      ⟨.primitive ⟨kind, type.has .emptyDimension⟩, (node.childrenOf .emptyDimension).length,
        false⟩ := by
  have hmem := of_first hfirst
  have htype := ((site_of_evaluates h).mono (Nat.le_succ _)).child hmem
  rw [hrule] at htype
  cases hdimension : type.child? .emptyDimension with
  | none =>
    rw [childrenOf_of_primitiveType h hfirst hrule hdimension, childrenOf_eq_nil.mpr hdimension,
      ParseTree.has, hdimension]
    rfl
  | some dimension =>
    have hone : (type.childrenOf .emptyDimension).length = 1 := by
      have hne : type.childrenOf .emptyDimension ≠ [] := by
        simp [childrenOf_eq_nil, hdimension]
      have hpos := List.length_pos_iff.mpr hne
      have hle := length_childrenOf_primitiveType htype
      omega
    rw [hone, ParseTree.has, hdimension]
    rfl

/-- A type in a file that cannot be null is read as declared with all its `[]`. -/
theorem readType_of_base {c d : Cursor} {node : Node} {element : ElementType}
    (h : Evaluates grammar {} (.rule .typeUse) c (some ([node], d)))
    (hnullable : node.has .nullable = false) (hbase : readBase node = .ok element) :
    readType node = .ok (element.declared (arrayDepth node)) := by
  have hsite := site_of_evaluates h
  have hread {core : Node} (hfirst : first node = .ok core) : readType node =
      (readTypeCore readType core >>= fun core =>
        .ok ⟨core, (node.childrenOf .emptyDimension).length, false⟩) := by
    rw [readType_eq, readTypeWith, hnullable, hfirst]
    rfl
  unfold readBase at hbase
  unfold arrayDepth
  cases hprimitive : node.child? .primitiveType with
  | some type =>
    rw [hprimitive, Option.getD_some] at hbase
    obtain ⟨hmem, hrule⟩ := mem_of_child? hprimitive
    have hfirst := first_typeUse hsite hmem (by rw [hrule]; rfl)
    have htype := ((hsite.mono (Nat.le_succ _)).found hprimitive).child?_some
      (r := .primitiveTypeNoArray) (by decide)
    have htoken : type.has .primitiveTypeNoArray := Option.isSome_iff_exists.mpr htype
    obtain ⟨kind, rfl, htype⟩ := readPrimitiveType_eq hbase htoken
    rw [hread hfirst, readTypeCore, hrule, htype, Option.elim_some,
      declared_primitive h hfirst hrule]
    rfl
  | none =>
    rw [hprimitive, Option.getD_none] at hbase
    have hnone : node.child? .primitiveTypeNoArray = none := by
      refine List.find?_eq_none.mpr fun t ht htoken => ?_
      have hrule := (hsite.word (by decide)).mem_rules t.rule (List.mem_map_of_mem ht)
      rw [of_decide_eq_true htoken] at hrule
      exact absurd hrule (by decide)
    rw [readElementType, hnone] at hbase
    obtain ⟨type, htype, rfl⟩ := map_eq_ok hbase
    obtain ⟨core, hmem, hrule, hcore⟩ := of_one htype
    have hfirst := first_typeUse hsite hmem (by rw [hrule]; rfl)
    rw [hread hfirst, readTypeCore, hrule]
    show (TypeCore.user <$> readUserType core >>= _) = _
    rw [hcore]
    rfl

theorem readConstructorInvocation_sized {parts : Readers} {node : Node} {element : ElementType}
    {sizes : List Expression} {type : TypeRef} {array : Expression}
    (helement : readElementType node = .ok element)
    (hsizes : (each node .arraySize fun size => one size .expression parts.expression) = .ok sizes)
    (hsized : element.sized? sizes = some (type, array)) :
    readConstructorInvocation parts node = .ok array := by
  simp only [readConstructorInvocation, helement, hsizes, hsized, ok_bind]
  rfl

theorem readConstructorInvocation_elements {height : Nat} {parts : Readers} {node : Node}
    {element : ElementType} {elements : List Argument}
    (hsite : Site height .constructorInvocation node)
    (helement : readElementType node = .ok element)
    (hdimensions : node.childrenOf .emptyDimension ≠ [])
    (helements : one node .initializerList (readElements parts .arrayDictionary) = .ok elements) :
    readConstructorInvocation parts node = .ok
      (.arrayOf (element.ofDimensions (node.childrenOf .emptyDimension).length) elements) := by
  have hsizes : node.childrenOf .arraySize = [] := by
    obtain ⟨dimension, hdimension⟩ :=
      Option.ne_none_iff_exists'.mp (mt childrenOf_eq_nil.mpr hdimensions)
    exact childrenOf_eq_nil.mpr (hsite.absent_of_never (by decide) (by decide) hdimension)
  rw [readConstructorInvocation, helement, each, hsizes]
  show (if (node.childrenOf .emptyDimension).length = 0 then _ else _) = _
  rw [if_neg (mt List.length_eq_zero_iff.mp hdimensions), helements]
  rfl

/-- A node of the tree of a file. -/
def InFile (node : Node) : Prop :=
  ∃ text tree, grammar.parse .quovaFile text = .ok tree ∧ ParseTree.Within node tree

/-- The three ways to write an array of depth `n` agree. A type with `n` times `[]` and an
initializer with `n` times `[]` in front of it have one text. A constructor with `n` sizes is read
as `n` nested constructors, which have the sizes from outside in, and of which each makes the
elements of the one around it; the outermost type has the same text again, but for a mark on
elements that are null at first. -/
theorem array_types_agree (element : ElementType) {n : Nat} (hn : 1 ≤ n) :
    (∀ node, InFile node → node.rule = .typeUse → node.has .nullable = false →
      readBase node = .ok element → arrayDepth node = n →
      ∃ type, readType node = .ok type ∧ type.kotlin = element.arrayText n "") ∧
    (∀ parts node elements, InFile node → node.rule = .constructorInvocation →
      readElementType node = .ok element → (node.childrenOf .emptyDimension).length = n →
      one node .initializerList (readElements parts .arrayDictionary) = .ok elements →
      ∃ inner, readConstructorInvocation parts node = .ok (.arrayOf inner elements) ∧
        inner.ofElements.kotlin = element.arrayText n "") ∧
    ∀ (parts : Readers) (node : Node) (sizes : List Expression),
      readElementType node = .ok element →
      (each node .arraySize fun size => one size .expression parts.expression) = .ok sizes →
      sizes.length = n →
      ∃ array type size levels, readConstructorInvocation parts node = .ok array ∧
        element.Nests array ((type, size) :: levels) ∧ size :: levels.map Prod.snd = sizes ∧
        ((type, size) :: levels).IsChain ElementType.Encloses ∧
        type.kotlin = element.arrayText n element.emptyMark := by
  refine ⟨?_, ?_, ?_⟩
  · rintro node ⟨text, tree, htree, hnode⟩ hrule hnullable hbase rfl
    obtain ⟨c, d, heval⟩ := evaluates_of_within grammar_kind htree hnode
    rw [hrule] at heval
    exact ⟨_, readType_of_base heval hnullable hbase, element.kotlin_declared hn⟩
  · rintro parts node elements ⟨text, tree, htree, hnode⟩ hrule helement rfl helements
    obtain ⟨c, d, heval⟩ := evaluates_of_within grammar_kind htree hnode
    rw [hrule] at heval
    have hdimensions := List.length_pos_iff.mp hn
    exact ⟨_, readConstructorInvocation_elements (site_of_evaluates heval) helement hdimensions
      helements, element.kotlin_ofElements hn⟩
  · rintro parts node sizes helement hsizes rfl
    obtain ⟨size, sizes, rfl⟩ := List.exists_cons_of_length_pos hn
    obtain ⟨type, array, levels, hsized, hnests, hmap, hchain, htext⟩ :=
      element.sized?_nests size sizes
    exact ⟨array, type, size, levels, readConstructorInvocation_sized helement hsizes hsized,
      hnests, by rw [hmap], hchain, htext⟩

def sizeNode (start : Nat) (name : String) : Node :=
  .node .arraySize ⟨start, start + 3⟩ [.node .expression ⟨start + 1, start + 2⟩ [
    .node .operatorExpression ⟨start + 1, start + 2⟩ [
      .token .simpleIdentifier ⟨start + 1, start + 2⟩ name]]]

/-- The constructor `new T[b][c]`, where `core` is the node of `T`. -/
def sizedNode (core : Node) : Node :=
  .node .constructorInvocation ⟨12, 25⟩ [
    .token .kwNew ⟨12, 15⟩ "new", core, sizeNode 19 "b", sizeNode 22 "c"]

/-- The constructor `new T[][]{e}`. -/
def elementsNode (core : Node) : Node :=
  .node .constructorInvocation ⟨35, 49⟩ [
    .token .kwNew ⟨35, 38⟩ "new", core,
    .node .emptyDimension ⟨42, 44⟩ [], .node .emptyDimension ⟨44, 46⟩ [],
    .node .initializerList ⟨46, 49⟩ [.node .valueArgument ⟨47, 48⟩ [
      .node .expression ⟨47, 48⟩ [.node .operatorExpression ⟨47, 48⟩ [
        .token .simpleIdentifier ⟨47, 48⟩ "e"]]]]]

/-- The tree of `T[][] a = new T[b][c]; var d = new T[][]{e};`, with a `T` of three letters. -/
def arraysTree (declared sized elements : Node) : Node :=
  .node .quovaFile ⟨0, 50⟩ [
    .node .declaration ⟨0, 26⟩ [.node .propertyDeclaration ⟨0, 26⟩ [
      .node .typeOrVar ⟨0, 8⟩ [declared],
      .node .property ⟨8, 25⟩ [.token .simpleIdentifier ⟨8, 9⟩ "a",
        .node .propertyValue ⟨10, 25⟩ [.node .expression ⟨12, 25⟩ [
          .node .operatorExpression ⟨12, 25⟩ [sized]]]]]],
    .node .declaration ⟨27, 50⟩ [.node .propertyDeclaration ⟨27, 50⟩ [
      .node .typeOrVar ⟨27, 30⟩ [.token .kwVar ⟨27, 30⟩ "var"],
      .node .property ⟨31, 49⟩ [.token .simpleIdentifier ⟨31, 32⟩ "d",
        .node .propertyValue ⟨33, 49⟩ [.node .expression ⟨35, 49⟩ [
          .node .operatorExpression ⟨35, 49⟩ [elements]]]]]],
    .node .endOfInput ⟨50, 50⟩ []]

theorem inFile_arrays (text : String) (declared sized elements : Node)
    (h : (grammar.parse .quovaFile text).toOption = some (arraysTree declared sized elements)) :
    InFile declared ∧ InFile elements := by
  have hsecond : ∀ {x y : Node} {rest : List Node}, y ∈ x :: y :: rest :=
    List.mem_cons_of_mem _ List.mem_cons_self
  have hvalue : ParseTree.Within elements (.node .expression ⟨35, 49⟩ [
      .node .operatorExpression ⟨35, 49⟩ [elements]]) :=
    .child List.mem_cons_self (.child List.mem_cons_self (.self _))
  refine ⟨⟨text, _, ok_of_toOption h, ?_⟩, ⟨text, _, ok_of_toOption h, ?_⟩⟩
  · exact .child List.mem_cons_self (.child List.mem_cons_self (.child List.mem_cons_self
      (.child List.mem_cons_self (.self _))))
  · exact .child hsecond (.child List.mem_cons_self (.child hsecond (.child hsecond
      (.child List.mem_cons_self hvalue))))

/-- The type `int[][]`. Its first `[]` belongs to the primitive type. -/
def intsNode : Node :=
  .node .typeUse ⟨0, 8⟩ [
    .node .primitiveType ⟨0, 5⟩ [
      .token .primitiveTypeNoArray ⟨0, 3⟩ "int", .node .emptyDimension ⟨3, 5⟩ []],
    .node .emptyDimension ⟨5, 7⟩ []]

def intNode (start : Nat) : Node :=
  .token .primitiveTypeNoArray ⟨start, start + 3⟩ "int"

theorem inFile_ints : InFile intsNode ∧ InFile (elementsNode (intNode 39)) :=
  inFile_arrays "int[][] a = new int[b][c]; var d = new int[][]\x7be\x7d;" _
    (sizedNode (intNode 16)) _ (by decide +kernel)

def itemNode (start : Nat) : Node :=
  .node .userType ⟨start, start + 3⟩ [.token .identifier ⟨start, start + 3⟩ "Foo"]

/-- The type `Foo[][]`. -/
def itemsNode : Node :=
  .node .typeUse ⟨0, 8⟩ [
    itemNode 0, .node .emptyDimension ⟨3, 5⟩ [], .node .emptyDimension ⟨5, 7⟩ []]

theorem inFile_items : InFile itemsNode ∧ InFile (elementsNode (itemNode 39)) :=
  inFile_arrays "Foo[][] a = new Foo[b][c]; var d = new Foo[][]\x7be\x7d;" _
    (sizedNode (itemNode 16)) _ (by decide +kernel)

/-- What the three ways to write an array of depth two are read as. -/
structure ReadTwice (element : ElementType) (declared : Node) (core : Nat → Node)
    (text sizedText : String) : Prop where
  declared : ∃ type, readType declared = .ok type ∧ type.kotlin = text
  elements : ∃ inner, readConstructorInvocation (.ofHeight 4) (elementsNode (core 39)) =
      .ok (.arrayOf inner [.positional (.identifier "e")]) ∧
    inner.ofElements.kotlin = text
  sized : ∃ array type size levels,
    readConstructorInvocation (.ofHeight 4) (sizedNode (core 16)) = .ok array ∧
    element.Nests array ((type, size) :: levels) ∧
    size :: levels.map Prod.snd = [.identifier "b", .identifier "c"] ∧
    ((type, size) :: levels).IsChain ElementType.Encloses ∧
    type.kotlin = sizedText

theorem sampleArrays_agree :
    1 ≤ 2 ∧ InFile intsNode ∧ InFile (elementsNode (intNode 39)) ∧ InFile itemsNode ∧
      InFile (elementsNode (itemNode 39)) ∧
      ReadTwice (.primitive .int) intsNode intNode "Array<IntArray>" "Array<IntArray>" ∧
      ReadTwice (.user ⟨"Foo", []⟩) itemsNode itemNode "Array<Array<Foo>>" "Array<Array<Foo?>>" := by
  obtain ⟨hints, helements⟩ := inFile_ints
  obtain ⟨hitems, helements'⟩ := inFile_items
  obtain ⟨hd, he, hs⟩ := array_types_agree (.primitive .int) (n := 2) (by decide)
  obtain ⟨hd', he', hs'⟩ := array_types_agree (.user ⟨"Foo", []⟩) (n := 2) (by decide)
  exact ⟨by decide, hints, helements, hitems, helements',
    ⟨hd _ hints rfl rfl rfl rfl, he _ _ _ helements rfl rfl rfl rfl, hs _ _ _ rfl rfl rfl⟩,
    ⟨hd' _ hitems rfl rfl rfl rfl, he' _ _ _ helements' rfl rfl rfl rfl, hs' _ _ _ rfl rfl rfl⟩⟩

end QuovaKotlin.Reading
