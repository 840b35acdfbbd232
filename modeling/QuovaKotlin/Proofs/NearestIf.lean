import QuovaKotlin.Proofs.Parts
import QuovaKotlin.Proofs.PrintedParts

/-!
# Reading by the nearest `if`

Statements without braces are printed side by side, with nothing to say where a branch ends, and a
conditional expression is printed with `if` and `else` as well. The text of a statement is cut at
every `if`, `else` and `do` that stands outside brackets. A reader of these pieces gives an `else`
to the nearest `if` that can take it.
-/

set_option autoImplicit false

namespace QuovaKotlin.Ast

open Text

/-- The text of the statement ends with that of a conditional without `else`, so an `else` behind it
would be taken as that one's. A loop that tests last ends with its condition. -/
def Statement.endsOpenly : Statement → Bool
  | .labeled _ statement => statement.endsOpenly
  | .conditional _ _ none => true
  | .conditional _ _ (some alternative) => alternative.endsOpenly
  | .forEach _ _ body | .forClassic _ _ _ body => body.endsOpenly
  | .loop testsLast _ body => ! testsLast && body.endsOpenly
  | _ => false

/-- No conditional in the statement has an `else` behind a branch that ends openly. -/
def Statement.Nested (statement : Statement) : Prop :=
  ∀ condition consequent alternative,
    Part.Within (.statement (.conditional condition consequent (some alternative)))
      (.statement statement) →
    consequent.endsOpenly = false

theorem Statement.Nested.part {inner outer : Statement} (h : outer.Nested)
    (hmem : .statement inner ∈ outer.parts) : inner.Nested := by
  intro condition consequent alternative hwithin
  exact h condition consequent alternative (.child hmem hwithin)

/-- A piece of the text of a statement. What stands between brackets is read apart, so only `slot`
and `head` have an `if` behind them that is not part of their text. -/
inductive Chunk
  /-- `if (c) ` -/
  | ifHead (text : String)
  /-- ` else ` -/
  | elseMark
  /-- `do ` -/
  | doMark
  /-- ` while (c)`, behind the body of a loop that tests last. -/
  | doTail (text : String)
  /-- What stands in front of another statement or of the expression that ends this one: a label,
  the head of a loop, the target of an assignment. -/
  | head (text : String)
  /-- What stands in front of an expression of a declaration, which may go on behind it. -/
  | slot (text : String)
  /-- A text without an `if` of its own. -/
  | closed (text : String)
  deriving DecidableEq

def Chunk.text : Chunk → String
  | ifHead text | doTail text | head text | slot text | closed text => text
  | elseMark => " else "
  | doMark => "do "

def Chunk.texts : List Chunk → String
  | [] => ""
  | chunk :: chunks => chunk.text ++ Chunk.texts chunks

/-- Which `else` belongs to which `if`. -/
inductive Association
  | closed (text : String)
  | headed (text : String) (inner : Association)
  | conditional (text : String) (consequent : Association) (alternative : Option Association)
  | looped (body : Association) (text : String)
  | filled (text : String) (value : Association) (rest : Option Association)

/-- The pieces of an operand, which takes parentheses or not. -/
def Chunk.under (e : Expression) (chunks : List Chunk) (enclosing : Int) : List Chunk :=
  if e.priority > enclosing then [.closed ("(" ++ e.kotlin ++ ")")] else chunks

def Association.under (e : Expression) (association : Association) (enclosing : Int) :
    Association :=
  if e.priority > enclosing then .closed ("(" ++ e.kotlin ++ ")") else association

/-- The pieces of an expression. Every operator but those two puts a conditional expression into
parentheses. -/
def Expression.chunks : Expression → List Chunk
  | .ternary condition consequent alternative =>
    .ifHead ("if (" ++ condition.kotlin ++ ") ") ::
      (Chunk.under consequent consequent.chunks Priority.ternary ++
        .elseMark :: Chunk.under alternative alternative.chunks Priority.ternary)
  | .spread operand => .head "*" :: Chunk.under operand operand.chunks Priority.spread
  | e => [.closed e.kotlin]

/-- The association that an expression has by its structure. -/
def Expression.association : Expression → Association
  | .ternary condition consequent alternative =>
    .conditional ("if (" ++ condition.kotlin ++ ") ")
      (.under consequent consequent.association Priority.ternary)
      (some (.under alternative alternative.association Priority.ternary))
  | .spread operand => .headed "*" (.under operand operand.association Priority.spread)
  | e => .closed e.kotlin

/-- The text of a declaration, cut at the expressions that stand in it outside brackets. -/
inductive Segment
  | text (text : String)
  | value (value : Expression)

namespace Segment

def kotlin : Segment → String
  | text t => t
  | value e => e.kotlin

def texts : List Segment → String
  | [] => ""
  | segment :: segments => segment.kotlin ++ texts segments

/-- The pieces of segments behind a text. -/
def chunks (front : String) : List Segment → List Chunk
  | [] => [.closed front]
  | .text next :: rest => chunks (front ++ next) rest
  | [.value e] => .slot front :: e.chunks
  | .value e :: rest => .slot front :: (e.chunks ++ chunks "" rest)

def association (front : String) : List Segment → Association
  | [] => .closed front
  | .text next :: rest => association (front ++ next) rest
  | [.value e] => .filled front e.association none
  | .value e :: rest => .filled front e.association (some (association "" rest))

def separated (separator : String) : List (List Segment) → List Segment
  | [] => []
  | [segments] => segments
  | segments :: rest => segments ++ .text separator :: separated separator rest

end Segment

def FunctionBody.segments : FunctionBody → List Segment
  | .absent => []
  | .block statements => [.text (" " ++ blockText (Statement.kotlinEach statements))]
  | .expression value => [.text " = ", .value value]

def Accessor.getSegments : Accessor → List Segment
  | ⟨annotations, _, .absent⟩ => [.text (endEach " " (AnnotationUse.kotlinEach annotations) ++ "get")]
  | ⟨annotations, _, body⟩ =>
    .text (endEach " " (AnnotationUse.kotlinEach annotations) ++ "get()") :: body.segments

def Accessor.setSegments : Accessor → List Segment
  | ⟨annotations, _, .absent⟩ => [.text (endEach " " (AnnotationUse.kotlinEach annotations) ++ "set")]
  | ⟨annotations, parameter, body⟩ =>
    .text (endEach " " (AnnotationUse.kotlinEach annotations) ++ "set(" ++
      parameter.getD "value" ++ ")") :: body.segments

def Property.segments (head : String) (type : Option TypeRef) (property : Property) :
    List Segment :=
  .text (head ++ property.name ++ typeMark type) ::
    ((property.value.elim [] fun value => [.text " = ", .value value]) ++
      (property.delegate.elim [] fun delegate => [.text " by ", .value delegate]) ++
      (property.getter.elim [] fun getter => .text "\n" :: getter.getSegments) ++
      property.setter.elim [] fun setter => .text "\n" :: setter.setSegments)

def Supertype.segments : Supertype → List Segment
  | .delegated type delegate => [.text (type.kotlin ++ " by "), .value delegate]
  | supertype => [.text supertype.kotlin]

/-- The supertypes that may be delegated to an expression. -/
def TypeKind.supertypes : TypeKind → List Supertype
  | .classType _ _ _ supertypes _ | .singleton supertypes _ | .enumClass _ _ supertypes _ _
  | .record _ _ supertypes _ | .inlineClass _ supertypes _ => supertypes
  | _ => []

/-- The text in front of them. -/
def TypeKind.front (name : String) : TypeKind → String
  | .classType modifiers typeParameters parameters _ _ =>
    let parameters :=
      match parameters with
      | none => ""
      | some parameters => "(" ++ commas (Parameter.kotlinEach .primary parameters) ++ ")"
    modifiers.kotlin ++ "class " ++ name ++ angleList (TypeParameter.kotlinEach typeParameters) ++
      parameters
  | .singleton _ _ => "object " ++ name
  | .enumClass typeParameters parameters _ _ _ =>
    let parameters :=
      match parameters with
      | none => ""
      | some parameters => "(" ++ commas (Parameter.kotlinEach .primary parameters) ++ ")"
    "enum class " ++ name ++ angleList (TypeParameter.kotlinEach typeParameters) ++ parameters
  | .record typeParameters parameters _ _ =>
    "data class " ++ name ++ angleList (TypeParameter.kotlinEach typeParameters) ++ "(" ++
      commas (Parameter.kotlinEach .component parameters) ++ ")"
  | .inlineClass parameter _ _ => "inline class " ++ name ++ "(" ++ parameter.kotlin .component ++ ")"
  | kind => kind.kotlin name

/-- The text behind them. -/
def TypeKind.back : TypeKind → String
  | .classType _ typeParameters _ _ members | .record typeParameters _ _ members =>
    whereClause (TypeParameter.bounds typeParameters) ++ members.body
  | .singleton _ members => members.flatBody
  | .enumClass typeParameters _ _ entries members =>
    whereClause (TypeParameter.bounds typeParameters) ++ " \x7b\n" ++
      joinWith ",\n" (EnumEntry.kotlinEach entries) ++ ";" ++ members.tail ++ "\n\x7d"
  | .inlineClass _ _ members => members.body
  | _ => ""

def TypeKind.supertypeSegments (kind : TypeKind) : List Segment :=
  match kind.supertypes with
  | [] => []
  | supertypes => .text " : " :: Segment.separated ", " (supertypes.map Supertype.segments)

def Declaration.segments : Declaration → List Segment
  | .type annotations visibility name kind =>
    .text (endEach "\n" (AnnotationUse.kotlinEach annotations) ++ visibility.kotlin ++
      kind.front name) :: (kind.supertypeSegments ++ if kind.back = "" then [] else [.text kind.back])
  | .function declaration =>
    .text { declaration with body := .absent }.kotlin :: declaration.body.segments
  | .property ⟨annotations, visibility, inheritance, modifiers, declared, properties⟩ =>
    let head :=
      propertyHead annotations (AnnotationUse.kotlinEach annotations) visibility inheritance
        modifiers
    Segment.separated "\n" (properties.map (Property.segments head declared))

/-- The pieces that a statement is printed as. -/
def Statement.chunks : Statement → List Chunk
  | .labeled label statement => .head (label ++ "@ ") :: statement.chunks
  | .assignment target operator value =>
    match operator.native? with
    | some symbol => .head (target.kotlin ++ " " ++ symbol ++ " ") :: value.chunks
    | none => [.closed (operator.asStatement target.kotlin ⟨value.priority, value.kotlin⟩)]
  | .conditional condition consequent none =>
    .ifHead ("if (" ++ condition.kotlin ++ ") ") :: consequent.chunks
  | .conditional condition consequent (some alternative) =>
    .ifHead ("if (" ++ condition.kotlin ++ ") ") ::
      (consequent.chunks ++ .elseMark :: alternative.chunks)
  | .forEach item source body =>
    .head ("for (" ++ item.kotlin ++ " in " ++ source.kotlin ++ ") ") :: body.chunks
  | .loop true condition body =>
    .doMark :: (body.chunks ++ [.doTail (" while (" ++ condition.kotlin ++ ")")])
  | .loop false condition body => .head ("while (" ++ condition.kotlin ++ ") ") :: body.chunks
  | .throw value => .head "throw " :: value.chunks
  | .return label (some value) => .head (jumpText "return" label ++ " ") :: value.chunks
  | .declaration inner => Segment.chunks "" inner.segments
  | .expression value => value.chunks
  | statement => [.closed statement.kotlin]

/-- The association that a statement has by its structure. -/
def Statement.association : Statement → Association
  | .labeled label statement => .headed (label ++ "@ ") statement.association
  | .assignment target operator value =>
    match operator.native? with
    | some symbol => .headed (target.kotlin ++ " " ++ symbol ++ " ") value.association
    | none => .closed (operator.asStatement target.kotlin ⟨value.priority, value.kotlin⟩)
  | .conditional condition consequent none =>
    .conditional ("if (" ++ condition.kotlin ++ ") ") consequent.association none
  | .conditional condition consequent (some alternative) =>
    .conditional ("if (" ++ condition.kotlin ++ ") ") consequent.association
      (some alternative.association)
  | .forEach item source body =>
    .headed ("for (" ++ item.kotlin ++ " in " ++ source.kotlin ++ ") ") body.association
  | .loop true condition body => .looped body.association (" while (" ++ condition.kotlin ++ ")")
  | .loop false condition body => .headed ("while (" ++ condition.kotlin ++ ") ") body.association
  | .throw value => .headed "throw " value.association
  | .return label (some value) => .headed (jumpText "return" label ++ " ") value.association
  | .declaration inner => Segment.association "" inner.segments
  | .expression value => value.association
  | statement => .closed statement.kotlin

/-- A piece that goes on with a declaration. -/
def Chunk.isSlot : Chunk → Bool
  | slot _ | closed _ => true
  | _ => false

/-- Reads one statement and gives back the pieces behind it. An `if` takes the `else` behind its
branch whenever there is one, and the branch is read first: the nearest `if` comes first. -/
def readChunks : Nat → List Chunk → Option (Association × List Chunk)
  | _ + 1, .closed text :: chunks => some (.closed text, chunks)
  | fuel + 1, .head text :: chunks => do
    let (inner, chunks) ← readChunks fuel chunks
    return (.headed text inner, chunks)
  | fuel + 1, .slot text :: chunks => do
    let (value, chunks) ← readChunks fuel chunks
    if chunks.head?.any Chunk.isSlot then
      let (rest, chunks) ← readChunks fuel chunks
      return (.filled text value (some rest), chunks)
    else return (.filled text value none, chunks)
  | fuel + 1, .doMark :: chunks => do
    let (body, chunks) ← readChunks fuel chunks
    match chunks with
    | .doTail text :: chunks => return (.looped body text, chunks)
    | _ => none
  | fuel + 1, .ifHead text :: chunks => do
    let (consequent, chunks) ← readChunks fuel chunks
    match chunks with
    | .elseMark :: chunks => do
      let (alternative, chunks) ← readChunks fuel chunks
      return (.conditional text consequent (some alternative), chunks)
    | chunks => return (.conditional text consequent none, chunks)
  | _, _ => none

/-- The association of a whole statement by the rule of the nearest `if`. -/
def nearestIf (chunks : List Chunk) : Option Association := do
  match ← readChunks chunks.length chunks with
  | (association, []) => return association
  | _ => none

theorem Chunk.texts_append (front back : List Chunk) :
    Chunk.texts (front ++ back) = Chunk.texts front ++ Chunk.texts back := by
  induction front with
  | nil => rw [List.nil_append, Chunk.texts, String.empty_append]
  | cons chunk front ih => rw [List.cons_append, Chunk.texts, Chunk.texts, ih, String.append_assoc]

theorem Chunk.texts_single (chunk : Chunk) : Chunk.texts [chunk] = chunk.text := by
  rw [Chunk.texts, Chunk.texts, String.append_empty]

theorem Chunk.texts_under {e : Expression} (h : Chunk.texts e.chunks = e.kotlin) (enclosing : Int) :
    Chunk.texts (Chunk.under e e.chunks enclosing) =
      Rendered.under ⟨e.priority, e.kotlin⟩ enclosing := by
  unfold Chunk.under Rendered.under
  split
  · exact Chunk.texts_single _
  · exact h

theorem Expression.texts_chunks : (e : Expression) → Chunk.texts e.chunks = e.kotlin
  | .ternary condition consequent alternative => by
    show "if (" ++ condition.kotlin ++ ") " ++
        Chunk.texts (Chunk.under consequent consequent.chunks Priority.ternary ++
          .elseMark :: Chunk.under alternative alternative.chunks Priority.ternary) =
      "if (" ++ condition.kotlin ++ ") " ++
        Rendered.under ⟨consequent.priority, consequent.kotlin⟩ Priority.ternary ++ " else " ++
        Rendered.under ⟨alternative.priority, alternative.kotlin⟩ Priority.ternary
    rw [Chunk.texts_append, Chunk.texts, Chunk.texts_under (texts_chunks consequent),
      Chunk.texts_under (texts_chunks alternative), Chunk.text, ← String.append_assoc,
      ← String.append_assoc]
  | .spread operand => by
    show "*" ++ Chunk.texts (Chunk.under operand operand.chunks Priority.spread) =
      "*" ++ Rendered.under ⟨operand.priority, operand.kotlin⟩ Priority.spread
    rw [Chunk.texts_under (texts_chunks operand)]
  | .literal _ | .identifier _ | .construct .. | .arrayOf .. | .initializer _ | .dictionary _ =>
    Chunk.texts_single (.closed _)
  | .lambda .. | .switch .. | .parenthesized _ | .suffixed .. | .prefixed .. | .cast .. =>
    Chunk.texts_single (.closed _)
  | .binary .. | .assign .. | .comprehension .. => Chunk.texts_single (.closed _)

namespace Segment

theorem texts_append (front back : List Segment) :
    texts (front ++ back) = texts front ++ texts back := by
  induction front with
  | nil => rw [List.nil_append, texts, String.empty_append]
  | cons segment front ih => rw [List.cons_append, texts, texts, ih, String.append_assoc]

theorem texts_separated (separator : String) (lists : List (List Segment)) :
    texts (separated separator lists) = joinWith separator (lists.map texts) := by
  fun_induction separated separator lists with
  | case1 => rfl
  | case2 segments => rfl
  | case3 segments rest hne ih =>
    obtain ⟨next, rest, rfl⟩ := List.exists_cons_of_ne_nil hne
    rw [texts_append, texts, ih, ← String.append_assoc]
    rfl

theorem texts_chunks (front : String) (segments : List Segment) :
    Chunk.texts (chunks front segments) = front ++ texts segments := by
  fun_induction chunks front segments with
  | case1 front => exact (Chunk.texts_single _).trans String.append_empty.symm
  | case2 front next rest ih => rw [ih, texts, kotlin, String.append_assoc]
  | case3 front e =>
    rw [Chunk.texts, e.texts_chunks, texts, texts, String.append_empty]
    rfl
  | case4 front e rest _ ih =>
    rw [Chunk.texts, Chunk.texts_append, e.texts_chunks, ih, String.empty_append, texts]
    rfl

end Segment

theorem FunctionBody.texts_segments (body : FunctionBody) :
    Segment.texts body.segments = body.kotlin := by
  cases body with
  | absent => rfl
  | block _ => exact String.append_empty
  | expression value =>
    show " = " ++ (value.kotlin ++ "") = " = " ++ value.kotlin
    rw [String.append_empty]

theorem Accessor.texts_getSegments (accessor : Accessor) :
    Segment.texts accessor.getSegments = accessor.kotlinGet := by
  obtain ⟨annotations, parameter, body⟩ := accessor
  cases body with
  | absent => exact String.append_empty
  | block _ | expression _ =>
    rw [getSegments, Segment.texts, FunctionBody.texts_segments]
    · rfl
    · nofun

theorem Accessor.texts_setSegments (accessor : Accessor) :
    Segment.texts accessor.setSegments = accessor.kotlinSet := by
  obtain ⟨annotations, parameter, body⟩ := accessor
  cases body with
  | absent => exact String.append_empty
  | block _ | expression _ =>
    rw [setSegments, Segment.texts, FunctionBody.texts_segments]
    · rfl
    · nofun

theorem Segment.texts_elim {α : Type} (segments : α → List Segment) (text : α → String)
    (h : ∀ a, Segment.texts (segments a) = text a) (o : Option α) :
    Segment.texts (o.elim [] segments) = whenPresent o text := by
  cases o with
  | none => rfl
  | some a => exact h a

theorem Property.texts_segments (head : String) (type : Option TypeRef) (property : Property) :
    Segment.texts (property.segments head type) = property.kotlin head type := by
  have hvalue (word : String) (value : Expression) :
      Segment.texts [.text word, .value value] = word ++ value.kotlin := by
    rw [Segment.texts, Segment.texts, Segment.texts, String.append_empty]
    rfl
  have hget (getter : Accessor) :
      Segment.texts (.text "\n" :: getter.getSegments) = "\n" ++ getter.kotlinGet := by
    rw [Segment.texts, getter.texts_getSegments]
    rfl
  have hset (setter : Accessor) :
      Segment.texts (.text "\n" :: setter.setSegments) = "\n" ++ setter.kotlinSet := by
    rw [Segment.texts, setter.texts_setSegments]
    rfl
  rw [segments, Segment.texts, Segment.texts_append, Segment.texts_append, Segment.texts_append,
    Segment.texts_elim _ _ (hvalue " = "), Segment.texts_elim _ _ (hvalue " by "),
    Segment.texts_elim _ _ hget, Segment.texts_elim _ _ hset, property.kotlin_eq, Segment.kotlin]
  simp only [String.append_assoc]

theorem Supertype.texts_segments (supertype : Supertype) :
    Segment.texts supertype.segments = supertype.kotlin := by
  cases supertype with
  | bare _ | initialized _ _ => exact String.append_empty
  | delegated type delegate =>
    show type.kotlin ++ " by " ++ (delegate.kotlin ++ "") = type.kotlin ++ " by " ++ delegate.kotlin
    rw [String.append_empty]

theorem TypeKind.texts_supertypeSegments (kind : TypeKind) :
    Segment.texts kind.supertypeSegments = supertypeList (Supertype.kotlinEach kind.supertypes) := by
  rw [supertypeSegments, Supertype.kotlinEach_eq_map]
  split
  · next hnil =>
    rw [hnil]
    rfl
  · next hsome =>
    rw [Segment.texts, Segment.texts_separated, List.map_map, supertypeList, List.isEmpty_map,
      List.isEmpty_eq_false_iff.mpr hsome]
    have htexts : Segment.texts ∘ Supertype.segments = (·.kotlin) :=
      funext Supertype.texts_segments
    rw [htexts]
    rfl

theorem TypeKind.kotlin_eq (name : String) (kind : TypeKind) :
    kind.kotlin name =
      kind.front name ++ supertypeList (Supertype.kotlinEach kind.supertypes) ++ kind.back := by
  cases kind with
  | interface _ _ _ | constants _ _ _ | annotationType _ _ =>
    exact (String.append_empty.trans String.append_empty).symm
  | classType modifiers typeParameters parameters supertypes members =>
    cases parameters <;> exact String.append_assoc ..
  | enumClass typeParameters parameters supertypes entries members =>
    have hregroup (f s w x j y t z : String) :
        f ++ s ++ w ++ x ++ j ++ y ++ t ++ z = f ++ s ++ (w ++ x ++ j ++ y ++ t ++ z) := by
      simp only [String.append_assoc]
    cases parameters <;> exact hregroup ..
  | record _ _ _ _ => exact String.append_assoc ..
  | singleton _ _ | inlineClass _ _ _ => rfl

theorem FunctionDeclaration.kotlin_eq (declaration : FunctionDeclaration) :
    declaration.kotlin = { declaration with body := .absent }.kotlin ++ declaration.body.kotlin := by
  obtain ⟨annotations, visibility, inheritance, modifiers, typeParameters, returnType, name,
    parameters, throws, body⟩ := declaration
  have hempty (f b : String) : f ++ b = f ++ "" ++ b := by rw [String.append_empty]
  exact hempty _ _

theorem Declaration.texts_segments (declaration : Declaration) :
    Segment.texts declaration.segments = declaration.kotlin := by
  cases declaration with
  | type annotations visibility name kind =>
    have hback : Segment.texts (if kind.back = "" then [] else [.text kind.back]) = kind.back := by
      split
      · next hnil => exact hnil.symm
      · exact String.append_empty
    show endEach "\n" (AnnotationUse.kotlinEach annotations) ++ visibility.kotlin ++ kind.front name ++
        Segment.texts (kind.supertypeSegments ++ if kind.back = "" then [] else [.text kind.back]) =
      endEach "\n" (AnnotationUse.kotlinEach annotations) ++ visibility.kotlin ++ kind.kotlin name
    rw [Segment.texts_append, hback, kind.texts_supertypeSegments, kind.kotlin_eq]
    simp only [String.append_assoc]
  | function declaration =>
    rw [segments, Segment.texts, FunctionBody.texts_segments]
    exact declaration.kotlin_eq.symm
  | property declaration =>
    obtain ⟨annotations, visibility, inheritance, modifiers, declared, properties⟩ := declaration
    rw [segments, Segment.texts_separated, List.map_map]
    show _ = joinWith "\n" (Property.kotlinEach _ declared properties)
    rw [Property.kotlinEach_eq_map]
    exact congrArg (joinWith "\n") (List.map_congr_left fun property _ => property.texts_segments _ _)

/-- The pieces are the text of the statement, with nothing left out. -/
theorem Statement.texts_chunks : (s : Statement) → Chunk.texts s.chunks = s.kotlin
  | .labeled label statement => by
    show label ++ "@ " ++ Chunk.texts statement.chunks = label ++ "@ " ++ statement.kotlin
    rw [texts_chunks statement]
  | .assignment target operator value => by
    show Chunk.texts (Statement.chunks (.assignment target operator value)) =
      operator.asStatement target.kotlin ⟨value.priority, value.kotlin⟩
    unfold Statement.chunks AssignmentOperator.asStatement
    cases operator.native? with
    | none => exact Chunk.texts_single (.closed _)
    | some symbol => exact congrArg (target.kotlin ++ " " ++ symbol ++ " " ++ ·) value.texts_chunks
  | .conditional condition consequent none => by
    show "if (" ++ condition.kotlin ++ ") " ++ Chunk.texts consequent.chunks =
      "if (" ++ condition.kotlin ++ ") " ++ consequent.kotlin ++ ""
    rw [texts_chunks consequent, String.append_empty]
  | .conditional condition consequent (some alternative) => by
    show "if (" ++ condition.kotlin ++ ") " ++
        Chunk.texts (consequent.chunks ++ .elseMark :: alternative.chunks) =
      "if (" ++ condition.kotlin ++ ") " ++ consequent.kotlin ++ (" else " ++ alternative.kotlin)
    rw [Chunk.texts_append, Chunk.texts, texts_chunks consequent, texts_chunks alternative,
      Chunk.text, ← String.append_assoc]
  | .forEach item source body => by
    show "for (" ++ item.kotlin ++ " in " ++ source.kotlin ++ ") " ++ Chunk.texts body.chunks =
      "for (" ++ item.kotlin ++ " in " ++ source.kotlin ++ ") " ++ body.kotlin
    rw [texts_chunks body]
  | .loop true condition body => by
    show "do " ++ Chunk.texts (body.chunks ++ [.doTail (" while (" ++ condition.kotlin ++ ")")]) =
      "do " ++ body.kotlin ++ " while (" ++ condition.kotlin ++ ")"
    rw [Chunk.texts_append, Chunk.texts_single, texts_chunks body, Chunk.text]
    simp only [String.append_assoc]
  | .loop false condition body => by
    show "while (" ++ condition.kotlin ++ ") " ++ Chunk.texts body.chunks =
      "while (" ++ condition.kotlin ++ ") " ++ body.kotlin
    rw [texts_chunks body]
  | .throw value => congrArg ("throw " ++ ·) value.texts_chunks
  | .return label (some value) => congrArg (jumpText "return" label ++ " " ++ ·) value.texts_chunks
  | .declaration inner => by
    show Chunk.texts (Segment.chunks "" inner.segments) = inner.kotlin
    rw [Segment.texts_chunks, inner.texts_segments, String.empty_append]
  | .expression value => value.texts_chunks
  | .forClassic .. | .break _ | .continue _ | .return _ none | .block _ | .empty =>
    Chunk.texts_single (.closed _)

variable {fuel : Nat} {chunks rest : List Chunk}

theorem exists_fuel {chunk : Chunk} (h : (chunk :: chunks).length ≤ fuel) : ∃ n, fuel = n + 1 :=
  Nat.exists_eq_add_one_of_ne_zero (Nat.ne_of_gt (Nat.lt_of_lt_of_le (Nat.succ_pos _) h))

theorem readChunks_head {inner : Association} (text : String)
    (h : readChunks fuel (chunks ++ rest) = some (inner, rest)) :
    readChunks (fuel + 1) (.head text :: chunks ++ rest) = some (.headed text inner, rest) := by
  show (readChunks fuel (chunks ++ rest)).bind _ = _
  rw [h]
  rfl

/-- An `if` whose first branch leaves the `else` behind it alone. -/
theorem readChunks_ifElse {chunks' : List Chunk} {consequent alternative : Association}
    (text : String)
    (h : readChunks fuel (chunks ++ .elseMark :: (chunks' ++ rest)) =
      some (consequent, .elseMark :: (chunks' ++ rest)))
    (h' : readChunks fuel (chunks' ++ rest) = some (alternative, rest)) :
    readChunks (fuel + 1) (.ifHead text :: (chunks ++ .elseMark :: chunks') ++ rest) =
      some (.conditional text consequent (some alternative), rest) := by
  show (readChunks fuel ((chunks ++ .elseMark :: chunks') ++ rest)).bind _ = _
  rw [List.append_assoc, List.cons_append, h]
  show (Option.bind (readChunks fuel (chunks' ++ rest)) _) = _
  rw [h']
  rfl

/-- A declaration that ends with an expression. -/
theorem readChunks_last {value : Association} (text : String)
    (h : readChunks fuel (chunks ++ rest) = some (value, rest))
    (hrest : rest.head?.any Chunk.isSlot = false) :
    readChunks (fuel + 1) (.slot text :: chunks ++ rest) =
      some (.filled text value none, rest) := by
  show (readChunks fuel (chunks ++ rest)).bind _ = _
  rw [h]
  exact if_neg (Bool.eq_false_iff.mp hrest)

/-- A declaration that goes on behind an expression. -/
theorem readChunks_next {chunks' : List Chunk} {value after : Association} (text : String)
    (h : readChunks fuel (chunks ++ (chunks' ++ rest)) = some (value, chunks' ++ rest))
    (hnext : (chunks' ++ rest).head?.any Chunk.isSlot)
    (h' : readChunks fuel (chunks' ++ rest) = some (after, rest)) :
    readChunks (fuel + 1) (.slot text :: (chunks ++ chunks') ++ rest) =
      some (.filled text value (some after), rest) := by
  show (readChunks fuel ((chunks ++ chunks') ++ rest)).bind _ = _
  rw [List.append_assoc, h]
  refine (if_pos hnext).trans ?_
  rw [h']
  rfl

theorem readChunks_under {e : Expression} {enclosing : Int}
    (h : e.chunks.length ≤ fuel → readChunks fuel (e.chunks ++ rest) = some (e.association, rest))
    (hfuel : (Chunk.under e e.chunks enclosing).length ≤ fuel) :
    readChunks fuel (Chunk.under e e.chunks enclosing ++ rest) =
      some (.under e e.association enclosing, rest) := by
  unfold Chunk.under Association.under at *
  split
  · next hlt =>
    rw [if_pos hlt] at hfuel
    obtain ⟨fuel, rfl⟩ := exists_fuel hfuel
    rfl
  · next hle =>
    rw [if_neg hle] at hfuel
    exact h hfuel

/-- Reading gives an expression back: every conditional expression has an `else` of its own. -/
theorem Expression.readChunks_chunks : (e : Expression) → (fuel : Nat) → e.chunks.length ≤ fuel →
    (rest : List Chunk) → readChunks fuel (e.chunks ++ rest) = some (e.association, rest)
  | .ternary _ consequent alternative, fuel + 1, hfuel, rest => by
    have hlength : (Chunk.under consequent consequent.chunks Priority.ternary).length +
        ((Chunk.under alternative alternative.chunks Priority.ternary).length + 1) ≤ fuel := by
      have hle := Nat.le_of_succ_le_succ hfuel
      rwa [List.length_append, List.length_cons] at hle
    exact readChunks_ifElse _
      (readChunks_under (fun hle => readChunks_chunks consequent fuel hle _) (by omega))
      (readChunks_under (fun hle => readChunks_chunks alternative fuel hle rest) (by omega))
  | .spread operand, fuel + 1, hfuel, rest =>
    readChunks_head _ (readChunks_under (fun hle => readChunks_chunks operand fuel hle rest)
      (Nat.le_of_succ_le_succ hfuel))
  | .literal _, fuel + 1, _, _ | .identifier _, fuel + 1, _, _ => rfl
  | .construct .., fuel + 1, _, _ | .arrayOf .., fuel + 1, _, _ => rfl
  | .initializer _, fuel + 1, _, _ | .dictionary _, fuel + 1, _, _ => rfl
  | .lambda .., fuel + 1, _, _ | .switch .., fuel + 1, _, _ => rfl
  | .parenthesized _, fuel + 1, _, _ | .suffixed .., fuel + 1, _, _ => rfl
  | .prefixed .., fuel + 1, _, _ | .cast .., fuel + 1, _, _ => rfl
  | .binary .., fuel + 1, _, _ | .assign .., fuel + 1, _, _ => rfl
  | .comprehension .., fuel + 1, _, _ => rfl

theorem Segment.head_chunks (front : String) (segments : List Segment) :
    ((Segment.chunks front segments ++ rest).head?).any Chunk.isSlot := by
  fun_induction Segment.chunks front segments with
  | case2 front next segments ih => exact ih
  | case1 | case3 | case4 => rfl

/-- A declaration ends where no piece of a declaration follows. -/
theorem Segment.readChunks_chunks (front : String) (segments : List Segment)
    (hfuel : (Segment.chunks front segments).length ≤ fuel)
    (hrest : rest.head?.any Chunk.isSlot = false) :
    readChunks fuel (Segment.chunks front segments ++ rest) =
      some (Segment.association front segments, rest) := by
  fun_induction Segment.chunks front segments generalizing fuel with
  | case1 front =>
    obtain ⟨fuel, rfl⟩ := exists_fuel hfuel
    rfl
  | case2 front next segments ih => exact ih hfuel
  | case3 front e =>
    obtain ⟨fuel, rfl⟩ := exists_fuel hfuel
    have hvalue := e.readChunks_chunks fuel (Nat.le_of_succ_le_succ hfuel) rest
    exact readChunks_last front hvalue hrest
  | case4 front e segments hne ih =>
    obtain ⟨fuel, rfl⟩ := exists_fuel hfuel
    have hle := Nat.le_of_succ_le_succ hfuel
    rw [List.length_append] at hle
    have hvalue := e.readChunks_chunks fuel (by omega) (Segment.chunks "" segments ++ rest)
    rw [Segment.association]
    · exact readChunks_next front hvalue (Segment.head_chunks "" segments) (ih (by omega))
    · exact hne

/-- Reading gives a statement back with the `else`s that are its own, unless it ends openly in front
of an `else`. -/
theorem Statement.readChunks_chunks : (s : Statement) → s.Nested → (fuel : Nat) →
    s.chunks.length ≤ fuel → (rest : List Chunk) → rest.head?.any Chunk.isSlot = false →
    (s.endsOpenly = true → rest.head? ≠ some .elseMark) →
    readChunks fuel (s.chunks ++ rest) = some (s.association, rest)
  | .labeled label statement, hnested, fuel + 1, hfuel, rest, hslot, hrest =>
    readChunks_head _ (readChunks_chunks statement (hnested.part List.mem_cons_self) fuel
      (Nat.le_of_succ_le_succ hfuel) rest hslot hrest)
  | .assignment target operator value, _, fuel, hfuel, rest, _, _ => by
    unfold Statement.chunks Statement.association at *
    cases hnative : operator.native? with
    | none =>
      rw [hnative] at hfuel
      obtain ⟨fuel, rfl⟩ := exists_fuel hfuel
      rfl
    | some symbol =>
      rw [hnative] at hfuel
      obtain ⟨fuel, rfl⟩ := exists_fuel hfuel
      exact readChunks_head _ (value.readChunks_chunks fuel (Nat.le_of_succ_le_succ hfuel) rest)
  | .conditional condition consequent none, hnested, fuel + 1, hfuel, rest, hslot, hrest => by
    have hnone : rest.head? ≠ some .elseMark := hrest rfl
    have hinner := readChunks_chunks consequent
      (hnested.part (List.mem_cons_of_mem _ List.mem_cons_self)) fuel
      (Nat.le_of_succ_le_succ hfuel) rest hslot fun _ => hnone
    show (readChunks fuel (consequent.chunks ++ rest)).bind _ = _
    rw [hinner]
    cases rest with
    | nil => rfl
    | cons chunk rest =>
      cases chunk with
      | elseMark => exact absurd rfl hnone
      | _ => rfl
  | .conditional _ consequent (some alternative), hnested, fuel + 1, hfuel, rest, hslot, hrest => by
    have hlength : consequent.chunks.length + (alternative.chunks.length + 1) ≤ fuel := by
      have hle := Nat.le_of_succ_le_succ hfuel
      rwa [List.length_append, List.length_cons] at hle
    -- The first branch is closed, so it leaves the `else` behind it alone.
    have hclosed : consequent.endsOpenly = false := hnested _ _ _ (.self _)
    have hconsequent := readChunks_chunks consequent
      (hnested.part (List.mem_cons_of_mem _ List.mem_cons_self)) fuel (by omega)
      (.elseMark :: (alternative.chunks ++ rest)) rfl
      fun hopen => by rw [hclosed] at hopen; cases hopen
    have halternative := readChunks_chunks alternative
      (hnested.part (List.mem_cons_of_mem _ (List.mem_cons_of_mem _ List.mem_cons_self))) fuel
      (by omega) rest hslot hrest
    exact readChunks_ifElse _ hconsequent halternative
  | .forEach item source body, hnested, fuel + 1, hfuel, rest, hslot, hrest =>
    readChunks_head _ (readChunks_chunks body
      (hnested.part (List.mem_cons_of_mem _ List.mem_cons_self)) fuel
      (Nat.le_of_succ_le_succ hfuel) rest hslot hrest)
  | .loop true condition body, hnested, fuel + 1, hfuel, rest, hslot, hrest => by
    have hlength : body.chunks.length + 1 ≤ fuel := by
      have hle := Nat.le_of_succ_le_succ hfuel
      rwa [List.length_append, List.length_singleton] at hle
    have hbody := readChunks_chunks body
      (hnested.part (List.mem_cons_of_mem _ List.mem_cons_self)) fuel (by omega)
      (.doTail (" while (" ++ condition.kotlin ++ ")") :: rest) rfl fun _ => nofun
    show (readChunks fuel ((body.chunks ++ [.doTail _]) ++ rest)).bind _ = _
    rw [List.append_assoc, List.singleton_append, hbody]
    rfl
  | .loop false condition body, hnested, fuel + 1, hfuel, rest, hslot, hrest =>
    readChunks_head _ (readChunks_chunks body
      (hnested.part (List.mem_cons_of_mem _ List.mem_cons_self)) fuel
      (Nat.le_of_succ_le_succ hfuel) rest hslot hrest)
  | .throw value, _, fuel + 1, hfuel, rest, _, _ =>
    readChunks_head _ (value.readChunks_chunks fuel (Nat.le_of_succ_le_succ hfuel) rest)
  | .return _ (some value), _, fuel + 1, hfuel, rest, _, _ =>
    readChunks_head _ (value.readChunks_chunks fuel (Nat.le_of_succ_le_succ hfuel) rest)
  | .declaration inner, _, _, hfuel, _, hslot, _ =>
    Segment.readChunks_chunks "" inner.segments hfuel hslot
  | .expression value, _, fuel, hfuel, rest, _, _ => value.readChunks_chunks fuel hfuel rest
  | .forClassic .., _, fuel + 1, _, _, _, _ | .block _, _, fuel + 1, _, _, _, _ => rfl
  | .break _, _, fuel + 1, _, _, _, _ | .continue _, _, fuel + 1, _, _, _, _ => rfl
  | .return _ none, _, fuel + 1, _, _, _, _ | .empty, _, fuel + 1, _, _, _, _ => rfl

theorem Statement.nearestIf_chunks (s : Statement) (h : s.Nested) :
    nearestIf s.chunks = some s.association := by
  have hread := s.readChunks_chunks h s.chunks.length (Nat.le_refl _) [] rfl fun _ => nofun
  rw [List.append_nil] at hread
  rw [nearestIf, hread]
  rfl

end QuovaKotlin.Ast
