import QuovaKotlin.Proofs.Parts
import QuovaKotlin.Proofs.Precedence
import QuovaKotlin.Proofs.Reading.Settling
import QuovaKotlin.Reading.File

/-!
# Where the parts of a syntax tree come from

Statements, declarations and members, at whatever depth they stand in a syntax tree, were read from
a node of their own in the parse tree. `Grounds` says this of a single reader, given the readers of
its parts; the readers of every height follow by induction.
-/

set_option autoImplicit false

namespace QuovaKotlin.Reading

open Ast Peg
open Peg.ParseTree (Within)
open Precedence (Grouping)
open Source (Rule)

/-- The part is what the readers read from the node. Most expressions and what belongs to them have
no node of their own, so nothing is said of those. -/
def IsReading (parts : Readers) (node : Node) : Part → Prop
  | .statement s =>
    node.rule = .statement ∧ readStatement parts node = .ok s ∨
      node.rule = .statementBody ∧ readBody parts node = .ok s ∨
      node.rule = .simpleStatement ∧ readSimpleStatement parts node = .ok s
  | .declaration d => node.rule = .declaration ∧ ∃ scope, readDeclaration parts scope node = .ok d
  | .typeKind k => readTypeKind parts node = .ok k
  | .function f =>
    node.rule = .functionDeclaration ∧ ∃ scope, readFunction parts scope node = .ok f
  | .properties p =>
    node.rule = .propertyDeclaration ∧ ∃ scope, readProperties parts scope node = .ok p
  | .property p => node.rule = .property ∧ readProperty parts node = .ok p
  | .enumEntry e => node.rule = .enumEntry ∧ readEnumEntry parts node = .ok e
  | .member (.constructor annotations visibility parameters delegations body) =>
    node.rule = .constructorDeclaration ∧ readConstructor parts node =
      .ok (.constructor annotations visibility parameters delegations body)
  | .branch b =>
    node.rule = .switchBranch ∧ readSwitchBranch parts node = .ok b ∨
      node.rule = .whenBranch ∧ readWhenBranch parts node = .ok b
  | .suffix (.indexing indices) =>
    node.rule = .indexingSuffix ∧ each node .expression parts.expression = .ok indices
  | .expression (.identifier name) => node.rule = .simpleIdentifier ∧ node.text = name
  | .expression (.literal (.integer text)) => node.rule = .integerLiteral ∧ node.text = text
  | .expression (.dictionary entries) =>
    node.rule = .initializerList ∧ readInitializer parts node = .ok (.entries entries)
  | .expression (.binary operator left right) =>
    readBinaryOperator node = .ok operator ∧ ∃ l r : Grouping Node,
      (Grouping.between l node r).Ordered nodeRole ∧
        readGrouping parts l = .ok left ∧ readGrouping parts r = .ok right
  | _ => True

/-- The part was read from a node of the tree. -/
def Origin (tree : Node) (part : Part) : Prop :=
  ∃ height node, Within node tree ∧ IsReading (Readers.ofHeight height) node part

/-- The part and all that stands in it was read from nodes of the tree. -/
def Ground (tree : Node) (part : Part) : Prop :=
  part.Every (Origin tree)

def GroundAll (tree : Node) (parts : List Part) : Prop :=
  ∀ part ∈ parts, Ground tree part

/-- What a reader makes of nodes of `rule` has its origin in the tree. -/
def Grounds {α : Type} (tree : Node) (rule : Rule) (read : Node → Read α) (part : α → Part) :
    Prop :=
  ∀ node, Within node tree → node.rule = rule → ∀ x, read node = .ok x → Ground tree (part x)

/-- The same of a reader of several parts. -/
def GroundsEach {α : Type} (tree : Node) (read : Node → Read (List α)) (part : α → Part) : Prop :=
  ∀ node, Within node tree → ∀ xs, read node = .ok xs → GroundAll tree (xs.map part)

structure Readers.Ground (tree : Node) (parts : Readers) : Prop where
  height : ∃ height, parts = .ofHeight height
  expression : Grounds tree .expression parts.expression .expression
  statement : Grounds tree .statement parts.statement .statement
  declaration : ∀ scope, Grounds tree .declaration (parts.declaration scope) .declaration
  conditions : GroundsEach tree parts.conditions .condition

section

variable {α : Type} {tree node : Node} {rule : Rule} {part : α → Part}

namespace GroundAll

theorem nil : GroundAll tree [] := by
  intro part hpart
  cases hpart

theorem cons {p : Part} {ps : List Part} (h : Reading.Ground tree p) (hs : GroundAll tree ps) :
    GroundAll tree (p :: ps) := by
  intro part hpart
  rcases List.mem_cons.mp hpart with rfl | hpart
  · exact h
  · exact hs part hpart

theorem single {p : Part} (h : Reading.Ground tree p) : GroundAll tree [p] :=
  cons h nil

theorem append {ps qs : List Part} (hp : GroundAll tree ps) (hq : GroundAll tree qs) :
    GroundAll tree (ps ++ qs) := by
  intro part hpart
  rcases List.mem_append.mp hpart with hpart | hpart
  · exact hp part hpart
  · exact hq part hpart

theorem of_forall {xs : List α} (h : ∀ x ∈ xs, Reading.Ground tree (part x)) :
    GroundAll tree (xs.map part) := by
  intro p hp
  obtain ⟨x, hx, rfl⟩ := List.mem_map.mp hp
  exact h x hx

theorem mem {xs : List α} (h : GroundAll tree (xs.map part)) {x : α} (hx : x ∈ xs) :
    Reading.Ground tree (part x) :=
  h _ (List.mem_map_of_mem hx)

/-- A body in two parts holds what the body holds. -/
theorem partition {all : List Member} (h : GroundAll tree (all.map .member)) :
    GroundAll tree (Members.partition all).parts := by
  refine .append (.of_forall fun m hm => ?_) (.of_forall fun m hm => ?_)
  · exact h.mem (List.mem_filter.mp hm).1
  · exact h.mem (List.mem_filter.mp hm).1

end GroundAll

namespace Grounds

variable {read : Node → Read α} (h : Grounds tree rule read part)

include h

theorem each {xs : List α} (hnode : Within node tree)
    (hread : Reading.each node rule read = .ok xs) : GroundAll tree (xs.map part) := by
  refine .of_forall fun x hx => ?_
  obtain ⟨child, hmem, hrule, hx⟩ := of_each hread x hx
  exact h child (.of_mem hmem hnode) hrule x hx

theorem one {x : α} (hnode : Within node tree) (hread : Reading.one node rule read = .ok x) :
    Ground tree (part x) := by
  obtain ⟨child, hmem, hrule, hx⟩ := of_one hread
  exact h child (.of_mem hmem hnode) hrule x hx

theorem atMostOne {value : Option α} (hnode : Within node tree)
    (hread : Reading.atMostOne node rule read = .ok value) :
    GroundAll tree (value.toList.map part) := by
  refine .of_forall fun x hx => ?_
  obtain ⟨child, hmem, hrule, hx⟩ := of_atMostOne hread x (Option.mem_toList.mp hx)
  exact h child (.of_mem hmem hnode) hrule x hx

end Grounds

namespace GroundsEach

variable {read : Node → Read (List α)} (h : GroundsEach tree read part)

include h

theorem listUnder {xs : List α} (hnode : Within node tree)
    (hread : Reading.listUnder node rule read = .ok xs) : GroundAll tree (xs.map part) := by
  rcases of_listUnder hread with rfl | ⟨child, hmem, -, hxs⟩
  · exact .nil
  · exact h child (.of_mem hmem hnode) xs hxs

theorem one {xs : List α} (hnode : Within node tree)
    (hread : Reading.one node rule read = .ok xs) : GroundAll tree (xs.map part) := by
  obtain ⟨child, hmem, -, hxs⟩ := of_one hread
  exact h child (.of_mem hmem hnode) xs hxs

theorem atMostOne {value : Option (List α)} (hnode : Within node tree)
    (hread : Reading.atMostOne node rule read = .ok value) :
    GroundAll tree ((value.getD []).map part) := by
  cases value with
  | none => exact .nil
  | some xs =>
    obtain ⟨child, hmem, -, hxs⟩ := of_atMostOne hread xs rfl
    exact h child (.of_mem hmem hnode) xs hxs

end GroundsEach

end

/-- What stands in an initializer. -/
def Initializer.parts : Initializer → List Part
  | .elements list => list.map .argument
  | .entries list => list.map .dictionaryEntry

variable {tree : Node} {parts : Readers} (hp : parts.Ground tree)

include hp

/-- A part that is read from a node of the tree is grounded as soon as its children are. -/
theorem Readers.Ground.intro {node : Node} {part : Part} (hnode : Within node tree)
    (hreading : IsReading parts node part) (hchildren : GroundAll tree part.children) :
    Reading.Ground tree part := by
  obtain ⟨height, rfl⟩ := hp.height
  exact .intro ⟨height, node, hnode, hreading⟩ hchildren

theorem grounds_argument : Grounds tree .valueArgument (readArgument parts) .argument := by
  intro node hnode _ a h
  obtain ⟨value, hvalue, h⟩ := bind_eq_ok h
  cases h
  exact hp.intro hnode trivial (.single (hp.expression.one hnode hvalue))

theorem grounds_arguments : GroundsEach tree (readArguments parts) .argument := by
  intro node hnode xs h
  exact (grounds_argument hp).each hnode h

theorem grounds_annotationArgument :
    Grounds tree .annotationArgument (readAnnotationArgument parts) .annotationArgument := by
  intro node hnode _ a h
  unfold readAnnotationArgument at h
  dsimp only at h
  split at h
  · next array harray =>
    obtain ⟨values, hvalues, rfl⟩ := map_eq_ok h
    exact hp.intro hnode trivial
      (hp.expression.each (.of_mem (mem_of_child? harray).1 hnode) hvalues)
  · obtain ⟨value, hvalue, rfl⟩ := map_eq_ok h
    exact hp.intro hnode trivial (.single (hp.expression.one hnode hvalue))

theorem grounds_annotationUse :
    Grounds tree .annotationUse (readAnnotationUse parts) .annotationUse := by
  intro node hnode _ use h
  obtain ⟨typeArguments, -, h⟩ := bind_eq_ok h
  obtain ⟨arguments, harguments, h⟩ := bind_eq_ok h
  obtain ⟨name, -, h⟩ := bind_eq_ok h
  cases h
  exact hp.intro hnode trivial ((grounds_annotationArgument hp).each hnode harguments)

theorem grounds_annotations : GroundsEach tree (readAnnotations parts) .annotationUse := by
  intro node hnode xs h
  exact (grounds_annotationUse hp).each hnode h

theorem grounds_parameter : Grounds tree .valueParameter (readParameter parts) .parameter := by
  intro node hnode _ p h
  obtain ⟨fallback, hfallback, h⟩ := bind_eq_ok h
  obtain ⟨annotations, hannotations, h⟩ := bind_eq_ok h
  obtain ⟨type, -, h⟩ := bind_eq_ok h
  obtain ⟨name, -, h⟩ := bind_eq_ok h
  cases h
  exact hp.intro hnode trivial (.append (grounds_annotations hp node hnode _ hannotations)
    (hp.expression.atMostOne hnode hfallback))

theorem grounds_parameters : GroundsEach tree (readParameters parts) .parameter := by
  intro node hnode xs h
  exact (grounds_parameter hp).each hnode h

theorem grounds_typeParameter (rule : Rule) (mark : Node → Read TypeParameterMark) :
    Grounds tree rule (readTypeParameter parts mark) .typeParameter := by
  intro node hnode _ p h
  obtain ⟨_, -, h⟩ := bind_eq_ok h
  obtain ⟨annotations, hannotations, h⟩ := bind_eq_ok h
  obtain ⟨name, -, h⟩ := bind_eq_ok h
  obtain ⟨constraints, -, h⟩ := bind_eq_ok h
  cases h
  exact hp.intro hnode trivial (grounds_annotations hp node hnode _ hannotations)

theorem grounds_typeParameters : GroundsEach tree (readTypeParameters parts) .typeParameter := by
  intro node hnode xs h
  have hlist : GroundsEach tree (fun list =>
      each list .typeParameter (readTypeParameter parts readReifiedMark)) .typeParameter :=
    fun list hlist ys hys => (grounds_typeParameter hp _ _).each hlist hys
  exact hlist.listUnder hnode h

theorem grounds_variantTypeParameters :
    GroundsEach tree (readVariantTypeParameters parts) .typeParameter := by
  intro node hnode xs h
  have hlist : GroundsEach tree (fun list =>
      each list .variantTypeParameter (readTypeParameter parts readVarianceMark))
      .typeParameter :=
    fun list hlist ys hys => (grounds_typeParameter hp _ _).each hlist hys
  exact hlist.listUnder hnode h

theorem grounds_block : GroundsEach tree (readBlock parts) .statement := by
  intro node hnode xs h
  exact hp.statement.each hnode h

theorem grounds_body : Grounds tree .statementBody (readBody parts) .statement := by
  intro node hnode hrule s h
  have hreading : IsReading parts node (.statement s) := .inr (.inl ⟨hrule, h⟩)
  obtain ⟨body, hbody, h⟩ := bind_eq_ok h
  have hwithin : Within body tree := .of_mem (of_first hbody) hnode
  split at h
  · obtain ⟨statements, hstatements, rfl⟩ := map_eq_ok h
    exact hp.intro hnode hreading (grounds_block hp body hwithin _ hstatements)
  · next hrule => exact hp.statement body hwithin hrule s h
  · cases h
    exact hp.intro hnode hreading .nil
  · cases h

theorem ground_loopHeader {node : Node} {item : LoopVariable} {source : Expression}
    (hnode : Within node tree) (h : readLoopHeader parts node = .ok (item, source)) :
    Ground tree (.expression source) := by
  obtain ⟨type, -, h⟩ := bind_eq_ok h
  obtain ⟨name, -, h⟩ := bind_eq_ok h
  obtain ⟨source', hsource, h⟩ := bind_eq_ok h
  cases h
  exact hp.expression.one hnode hsource

theorem grounds_lambdaParameter :
    Grounds tree .lambdaParameter (readLambdaParameter parts) .lambdaParameter := by
  intro node hnode _ p h
  obtain ⟨type, -, h⟩ := bind_eq_ok h
  obtain ⟨name, -, h⟩ := bind_eq_ok h
  obtain ⟨annotations, hannotations, h⟩ := bind_eq_ok h
  cases h
  exact hp.intro hnode trivial (grounds_annotations hp node hnode _ hannotations)

theorem grounds_lambdaBody : Grounds tree .lambdaBody (readLambdaBody parts) .lambdaBody := by
  intro node hnode _ body h
  obtain ⟨result, hresult, h⟩ := bind_eq_ok h
  obtain ⟨statements, hstatements, h⟩ := bind_eq_ok h
  cases h
  exact hp.intro hnode trivial (.append (grounds_block hp node hnode _ hstatements)
    (hp.expression.atMostOne hnode hresult))

theorem ground_lambda {node : Node} {e : Expression} (hnode : Within node tree)
    (h : readLambda parts node = .ok e) : Ground tree (.expression e) := by
  obtain ⟨parameters, hparameters, h⟩ := bind_eq_ok h
  have hall := (grounds_lambdaParameter hp).each hnode hparameters
  split at h
  · next body hbody =>
    obtain ⟨hmem, hrule⟩ := mem_of_child? hbody
    obtain ⟨lambda, hlambda, rfl⟩ := map_eq_ok h
    exact hp.intro hnode trivial
      (.append hall (.single (grounds_lambdaBody hp body (.of_mem hmem hnode) hrule _ hlambda)))
  · obtain ⟨value, hvalue, rfl⟩ := map_eq_ok h
    have hbody : Ground tree (.lambdaBody (.expression value)) :=
      hp.intro hnode trivial (.single (hp.expression.one hnode hvalue))
    exact hp.intro hnode trivial (.append hall (.single hbody))

theorem grounds_dictionaryEntry :
    Grounds tree .dictionaryEntry (readDictionaryEntry parts) .dictionaryEntry := by
  intro node hnode _ entry h
  unfold readDictionaryEntry at h
  split at h
  · next key value others hchildren =>
    have hmem : ∀ child ∈ key :: value :: others, Within child tree ∧ child.rule = .expression := by
      intro child hchild
      rw [← hchildren] at hchild
      obtain ⟨hmem, hrule⟩ := List.mem_filter.mp hchild
      exact ⟨.of_mem hmem hnode, of_decide_eq_true hrule⟩
    obtain ⟨hkey, hkeyRule⟩ := hmem key List.mem_cons_self
    obtain ⟨hvalue, hvalueRule⟩ := hmem value (List.mem_cons_of_mem key List.mem_cons_self)
    obtain ⟨k, hk, h⟩ := bind_eq_ok h
    obtain ⟨v, hv, h⟩ := bind_eq_ok h
    cases h
    exact hp.intro hnode trivial (.cons (hp.expression key hkey hkeyRule k hk)
      (.single (hp.expression value hvalue hvalueRule v hv)))
  · cases h

theorem ground_initializer {node : Node} {list : Initializer} (hnode : Within node tree)
    (h : readInitializer parts node = .ok list) : GroundAll tree list.parts := by
  unfold readInitializer at h
  split at h
  · obtain ⟨entries, hentries, rfl⟩ := map_eq_ok h
    exact (grounds_dictionaryEntry hp).each hnode hentries
  · obtain ⟨elements, helements, rfl⟩ := map_eq_ok h
    exact grounds_arguments hp node hnode _ helements

theorem grounds_elements (construct : Unsupported) :
    GroundsEach tree (readElements parts construct) .argument := by
  intro node hnode xs h
  obtain ⟨list, hlist, h⟩ := bind_eq_ok h
  have hall := ground_initializer hp hnode hlist
  split at h
  · cases h
    exact hall
  · cases h

theorem grounds_constructorArguments :
    GroundsEach tree (readConstructorArguments parts) .argument := by
  intro node hnode xs h
  unfold readConstructorArguments at h
  split at h
  · next list hlist =>
    exact grounds_arguments hp list (.of_mem (mem_of_child? hlist).1 hnode) xs h
  · next list _ hlist =>
    exact grounds_elements hp _ list (.of_mem (mem_of_child? hlist).1 hnode) xs h
  · cases h

/-- A positional argument that was made from a node and not read as one. -/
theorem ground_positional {node : Node} {e : Expression} (hnode : Within node tree)
    (h : Ground tree (.expression e)) : Ground tree (.argument (.positional e)) :=
  hp.intro hnode trivial (.single h)

theorem ground_thunk {node : Node} {e : Expression} (hnode : Within node tree)
    (h : Ground tree (.expression e)) : Ground tree (.expression (.thunk e)) :=
  hp.intro hnode trivial (.single (hp.intro hnode trivial (.single h)))

theorem ground_sized {node : Node} (hnode : Within node tree) (element : ElementType)
    {sizes : List Expression} (hsizes : GroundAll tree (sizes.map .expression))
    {type : TypeRef} {array : Expression} (h : element.sized? sizes = some (type, array)) :
    Ground tree (.expression array) := by
  induction sizes generalizing type array with
  | nil => cases h
  | cons size rest ih =>
    have hsize := ground_positional hp hnode (hsizes.mem List.mem_cons_self)
    cases rest with
    | nil =>
      cases element with
      | primitive kind =>
        cases h
        exact hp.intro hnode trivial (.single hsize)
      | user user =>
        cases h
        have hnull : Ground tree (.expression (.literal .null)) := hp.intro hnode trivial .nil
        exact hp.intro hnode trivial
          (.cons hsize (.single (ground_positional hp hnode (ground_thunk hp hnode hnull))))
    | cons next rest =>
      obtain ⟨⟨inner, array'⟩, hinner, h⟩ := Option.bind_eq_some_iff.mp h
      cases h
      have harray := ih (fun part hpart => hsizes part (List.mem_cons_of_mem _ hpart)) hinner
      exact hp.intro hnode trivial
        (.cons hsize (.single (ground_positional hp hnode (ground_thunk hp hnode harray))))

theorem ground_constructorInvocation {node : Node} {e : Expression} (hnode : Within node tree)
    (h : readConstructorInvocation parts node = .ok e) : Ground tree (.expression e) := by
  obtain ⟨element, -, h⟩ := bind_eq_ok h
  obtain ⟨sizes, hsizes, h⟩ := bind_eq_ok h
  have hsize : Grounds tree .arraySize (fun size => one size .expression parts.expression)
      .expression :=
    fun size hwithin _ value hvalue => hp.expression.one hwithin hvalue
  have hall := hsize.each hnode hsizes
  split at h
  · next harray =>
    cases h
    exact ground_sized hp hnode element hall harray
  · dsimp only at h
    split at h
    · obtain ⟨arguments, harguments, rfl⟩ := map_eq_ok h
      exact hp.intro hnode trivial (grounds_constructorArguments hp node hnode _ harguments)
    · obtain ⟨elements, helements, h⟩ := bind_eq_ok h
      cases h
      exact hp.intro hnode trivial ((grounds_elements hp _).one hnode helements)

theorem grounds_conditions : GroundsEach tree (readConditions parts) .condition := by
  intro node hnode xs h
  obtain ⟨kind, -, h⟩ := bind_eq_ok h
  obtain ⟨values, hvalues, h⟩ := bind_eq_ok h
  obtain ⟨others, hothers, h⟩ := bind_eq_ok h
  cases h
  have hall := hp.expression.each hnode hvalues
  rw [List.map_append, List.map_map]
  refine .append (.of_forall fun value hvalue => ?_) (hp.conditions.listUnder hnode hothers)
  exact hp.intro hnode trivial (.single (hall.mem hvalue))

theorem grounds_switchBranch : Grounds tree .switchBranch (readSwitchBranch parts) .branch := by
  intro node hnode hrule branch h
  have hreading : IsReading parts node (.branch branch) := .inl ⟨hrule, h⟩
  obtain ⟨conditions, hconditions, h⟩ := bind_eq_ok h
  obtain ⟨body, hbody, h⟩ := bind_eq_ok h
  cases h
  exact hp.intro hnode hreading (.append ((grounds_conditions hp).one hnode hconditions)
    (.single ((grounds_body hp).one hnode hbody)))

theorem grounds_whenBranch : Grounds tree .whenBranch (readWhenBranch parts) .branch := by
  intro node hnode hrule branch h
  have hreading : IsReading parts node (.branch branch) := .inr ⟨hrule, h⟩
  obtain ⟨values, hvalues, h⟩ := bind_eq_ok h
  obtain ⟨body, hbody, h⟩ := bind_eq_ok h
  cases h
  have hall := hp.expression.each hnode hvalues
  have hconditions : GroundAll tree
      ((values.map (Condition.mk .case)).map .condition) := by
    rw [List.map_map]
    exact .of_forall fun value hvalue =>
      hp.intro hnode trivial (.single (hall.mem hvalue))
  exact hp.intro hnode hreading (.append hconditions (.single ((grounds_body hp).one hnode hbody)))

theorem ground_fallback {node : Node} {fallback : Option Statement} (hnode : Within node tree)
    (h : readFallback parts node = .ok fallback) :
    GroundAll tree (fallback.toList.map .statement) := by
  have hbranch : Grounds tree .defaultBranch
      (fun branch => one branch .statementBody (readBody parts)) .statement :=
    fun branch hbranch _ body hbody => (grounds_body hp).one hbranch hbody
  exact hbranch.atMostOne hnode h

theorem ground_switch {node : Node} {e : Expression} (hnode : Within node tree)
    (h : readSwitch parts node = .ok e) : Ground tree (.expression e) := by
  obtain ⟨branches, hbranches, h⟩ := bind_eq_ok h
  obtain ⟨subject, hsubject, h⟩ := bind_eq_ok h
  obtain ⟨fallback, hfallback, h⟩ := bind_eq_ok h
  cases h
  exact hp.intro hnode trivial (.append
    (.append (.single (hp.expression.one hnode hsubject))
      ((grounds_switchBranch hp).each hnode hbranches))
    (ground_fallback hp hnode hfallback))

theorem ground_when {node : Node} {e : Expression} (hnode : Within node tree)
    (h : readWhen parts node = .ok e) : Ground tree (.expression e) := by
  obtain ⟨branches, hbranches, h⟩ := bind_eq_ok h
  obtain ⟨fallback, hfallback, h⟩ := bind_eq_ok h
  cases h
  exact hp.intro hnode trivial (.append
    (.append .nil ((grounds_whenBranch hp).each hnode hbranches))
    (ground_fallback hp hnode hfallback))

theorem ground_literal {node : Node} {e : Expression} (hnode : Within node tree)
    (h : readLiteral parts node = .ok e) : Ground tree (.expression e) := by
  unfold readLiteral at h
  split at h
  case h_6 hrule =>
    cases h
    exact hp.intro hnode ⟨hrule, rfl⟩ .nil
  case h_11 =>
    obtain ⟨type, -, rfl⟩ := map_eq_ok h
    exact hp.intro hnode trivial .nil
  case h_12 => exact ground_lambda hp hnode h
  case h_13 hrule =>
    obtain ⟨list, hlist, h⟩ := bind_eq_ok h
    have hall := ground_initializer hp hnode hlist
    split at h
    · cases h
      exact hp.intro hnode trivial hall
    · cases h
      exact hp.intro hnode ⟨hrule, hlist⟩ hall
  case h_14 => cases h
  all_goals
    cases h
    exact hp.intro hnode trivial .nil

theorem ground_operand {node : Node} {e : Expression} (hnode : Within node tree)
    (h : readOperand parts node = .ok e) : Ground tree (.expression e) := by
  unfold readOperand at h
  split at h
  · obtain ⟨literal, hliteral, h⟩ := bind_eq_ok h
    exact ground_literal hp (.of_mem (of_first hliteral) hnode) h
  · exact ground_constructorInvocation hp hnode h
  · exact ground_switch hp hnode h
  · exact ground_when hp hnode h
  · next hrule =>
    obtain ⟨inner, hinner, rfl⟩ := map_eq_ok h
    exact hp.intro hnode trivial (.single (hp.expression node hnode hrule inner hinner))
  · next hrule =>
    cases h
    exact hp.intro hnode ⟨hrule, rfl⟩ .nil
  · cases h

theorem ground_invocation {node : Node} {operator : PostfixOperator} (hnode : Within node tree)
    (h : readInvocation parts node = .ok operator) : Ground tree (.suffix operator) := by
  obtain ⟨typeArguments, -, h⟩ := bind_eq_ok h
  obtain ⟨arguments, harguments, h⟩ := bind_eq_ok h
  obtain ⟨trailing, htrailing, h⟩ := bind_eq_ok h
  cases h
  have hbodies := (grounds_lambdaBody hp).atMostOne hnode htrailing
  refine hp.intro hnode trivial ?_
  show GroundAll tree (List.map _ (arguments ++ _))
  rw [List.map_append, List.map_map]
  refine .append ((grounds_arguments hp).listUnder hnode harguments) (.of_forall ?_)
  intro body hbody
  exact ground_positional hp hnode
    (hp.intro hnode trivial (.single (hbodies.mem hbody)))

theorem ground_suffix {node : Node} {operator : PostfixOperator} (hnode : Within node tree)
    (h : readPostfixOperator parts node = .ok operator) : Ground tree (.suffix operator) := by
  obtain ⟨mark, hmark, h⟩ := bind_eq_ok h
  have hwithin : Within mark tree := .of_mem (of_first hmark) hnode
  split at h
  · unfold meaning at h
    split at h
    · next hsymbol =>
      cases h
      unfold PostfixOperator.ofSymbol? at hsymbol
      split at hsymbol <;> cases hsymbol <;> exact hp.intro hnode trivial .nil
    · cases h
  · exact ground_invocation hp hwithin h
  · next hrule =>
    obtain ⟨indices, hindices, rfl⟩ := map_eq_ok h
    exact hp.intro hwithin ⟨hrule, hindices⟩ (hp.expression.each hwithin hindices)
  · obtain ⟨kind, -, h⟩ := bind_eq_ok h
    obtain ⟨target, -, h⟩ := bind_eq_ok h
    cases h
    exact hp.intro hnode trivial .nil
  · cases h

theorem ground_grouping {grouping : Grouping Node} {e : Expression}
    (hitems : ∀ item ∈ grouping.items, Within item tree) (hordered : grouping.Ordered nodeRole)
    (h : readGrouping parts grouping = .ok e) : Ground tree (.expression e) := by
  induction grouping generalizing e with
  | leaf node => exact ground_operand hp (hitems node List.mem_cons_self) h
  | before node operand ih =>
    have hnode : Within node tree := hitems node List.mem_cons_self
    obtain ⟨inner, hinner, h⟩ := bind_eq_ok h
    have hoperand := ih (fun item hitem => hitems item (List.mem_cons_of_mem node hitem))
      hordered.2 hinner
    unfold readPrefixed at h
    split at h
    · cases h
      exact hp.intro hnode trivial (.single hoperand)
    · obtain ⟨_, -, h⟩ := bind_eq_ok h
      cases h
      exact hp.intro hnode trivial (.single hoperand)
  | behind operand node ih =>
    have hnode : Within node tree :=
      hitems node (List.mem_append_right _ List.mem_cons_self)
    obtain ⟨inner, hinner, h⟩ := bind_eq_ok h
    have hoperand := ih (fun item hitem => hitems item (List.mem_append_left _ hitem))
      hordered.2 hinner
    unfold readSuffixed at h
    split at h
    · obtain ⟨_, -, h⟩ := bind_eq_ok h
      cases h
      exact hp.intro hnode trivial (.single hoperand)
    · obtain ⟨operator, hoperator, h⟩ := bind_eq_ok h
      cases h
      exact hp.intro hnode trivial (.cons hoperand (.single (ground_suffix hp hnode hoperator)))
  | between left node right ihl ihr =>
    have hnode : Within node tree :=
      hitems node (List.mem_append_right _ List.mem_cons_self)
    obtain ⟨l, hl, h⟩ := bind_eq_ok h
    obtain ⟨r, hr, h⟩ := bind_eq_ok h
    have hleft := ihl (fun item hitem => hitems item (List.mem_append_left _ hitem))
      hordered.2.2.1 hl
    have hright := ihr (fun item hitem =>
      hitems item (List.mem_append_right _ (List.mem_cons_of_mem node hitem))) hordered.2.2.2 hr
    unfold readInfix at h
    split at h
    · obtain ⟨_, -, h⟩ := bind_eq_ok h
      cases h
      exact hp.intro hnode trivial (.cons hleft (.single hright))
    · obtain ⟨middle, hmiddle, h⟩ := bind_eq_ok h
      cases h
      exact hp.intro hnode trivial
        (.cons hleft (.cons (hp.expression.one hnode hmiddle) (.single hright)))
    · obtain ⟨operator, hoperator, h⟩ := bind_eq_ok h
      cases h
      exact hp.intro hnode ⟨hoperator, left, right, hordered, hl, hr⟩
        (.cons hleft (.single hright))

theorem ground_operatorExpression {node : Node} {e : Expression} (hnode : Within node tree)
    (h : readOperatorExpression parts node = .ok e) : Ground tree (.expression e) := by
  unfold readOperatorExpression at h
  split at h
  · next grouping hgroup =>
    obtain ⟨hitems, -, hordered⟩ := Precedence.group_sound hgroup
    refine ground_grouping hp (fun item hitem => ?_) hordered h
    rw [hitems] at hitem
    exact .of_mem hitem hnode
  · cases h

theorem grounds_operatorExpression :
    Grounds tree .operatorExpression (readOperatorExpression parts) .expression :=
  fun _ hnode _ _ h => ground_operatorExpression hp hnode h

theorem grounds_expression : Grounds tree .expression (readExpression parts) .expression := by
  intro node hnode _ e h
  obtain ⟨mapping, hmapping, h⟩ := bind_eq_ok h
  have hinner := (grounds_operatorExpression hp).one hnode hmapping
  split at h
  · cases h
    exact hinner
  · next suffix hsuffix =>
    have hwithin : Within suffix tree := .of_mem (mem_of_child? hsuffix).1 hnode
    obtain ⟨condition, hcondition, h⟩ := bind_eq_ok h
    obtain ⟨⟨item, source⟩, hheader, h⟩ := bind_eq_ok h
    cases h
    obtain ⟨header, hmem, -, hheader⟩ := of_one hheader
    exact hp.intro hnode trivial (.append
      (.cons hinner (.single (ground_loopHeader hp (.of_mem hmem hwithin) hheader)))
      (hp.expression.atMostOne hwithin hcondition))

end QuovaKotlin.Reading
