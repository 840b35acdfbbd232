import QuovaKotlin.Proofs.Parts

/-!
# The words of a syntax tree

The texts that a file leaves to whoever writes it: names, labels, the texts of literals, its first
line and its package. Everything else that is printed for a file is fixed. `Part.words` are the
words that stand directly in a part; those of its types belong to it, as types are no parts.

All parts are finite, so what each part inherits from the parts directly in it holds of every part.
-/

set_option autoImplicit false

namespace QuovaKotlin.Ast

mutual

def TypeRef.words : TypeRef → List String
  | ⟨core, _, _⟩ => core.words

def TypeCore.words : TypeCore → List String
  | .primitive _ => []
  | .user type => type.words
  | .function _ result parameters => result.words ++ TypeRef.wordsEach parameters

def UserType.words : UserType → List String
  | ⟨name, arguments⟩ => name :: TypeArgument.wordsEach arguments

def TypeArgument.words : TypeArgument → List String
  | .wildcard => []
  | .concrete _ type => type.words

def TypeRef.wordsEach : List TypeRef → List String
  | [] => []
  | type :: types => type.words ++ TypeRef.wordsEach types

def TypeArgument.wordsEach : List TypeArgument → List String
  | [] => []
  | argument :: arguments => argument.words ++ TypeArgument.wordsEach arguments

end

def ReturnType.words : ReturnType → List String
  | type t => t.words
  | void => []

def Literal.words : Literal → List String
  | string text | multilineString text | integer text | long text | real text | char text => [text]
  | super (some type) => type.words
  | this | super none | boolean _ | null | void => []

def LoopVariable.words (item : LoopVariable) : List String :=
  item.name :: item.type.toList.flatMap (·.words)

def Expression.words : Expression → List String
  | .literal value => value.words
  | .identifier name => [name]
  | .construct type _ | .arrayOf type _ | .cast _ type _ => type.words
  | .comprehension _ item _ _ => item.words
  | _ => []

def PostfixOperator.words : PostfixOperator → List String
  | .invocation typeArguments _ => TypeArgument.wordsEach typeArguments
  | .call _ (.named name) => [name]
  | _ => []

def AnnotationArgument.words : AnnotationArgument → List String
  | .single name _ | .array name _ => name.toList

def Statement.words : Statement → List String
  | .labeled label _ => [label]
  | .forEach item _ _ => item.words
  | .break label | .continue label | .return label _ => label.toList
  | _ => []

def Declaration.words : Declaration → List String
  | .type _ _ name _ => [name]
  | _ => []

def TypeKind.words : TypeKind → List String
  | .interface _ supertypes _ => supertypes.flatMap (·.words)
  | _ => []

def Supertype.words : Supertype → List String
  | .bare type | .initialized type _ | .delegated type _ => type.words

/-- The words directly in a part. -/
def Part.words : Part → List String
  | expression e => e.words
  | suffix op => op.words
  | argument a => a.name.toList
  | lambdaParameter p => p.name.toList ++ p.type.toList.flatMap (·.words)
  | annotationUse a => a.name :: TypeArgument.wordsEach a.typeArguments
  | annotationArgument a => a.words
  | statement s => s.words
  | forVariable v => v.name :: v.type.toList.flatMap (·.words)
  | declaration d => d.words
  | typeKind k => k.words
  | constant c => [c.name]
  | enumEntry e => [e.name]
  | supertype s => s.words
  | function f =>
    f.name :: f.returnType.toList.flatMap (·.words) ++ f.throws.flatMap (·.words)
  | properties p => p.type.toList.flatMap (·.words)
  | property p => [p.name]
  | accessor a => a.parameter.toList
  | parameter p => p.name :: p.type.words
  | typeParameter p => p.name :: TypeRef.wordsEach p.constraints
  | dictionaryEntry _ | lambdaBody _ | branch _ | condition _ | member _ | delegation _
  | functionBody _ => []

def Import.words (i : Import) : List String :=
  i.path :: i.names ++ i.newName.toList

/-- The words of a file, at any depth. -/
inductive SourceFile.HasWord (file : SourceFile) : String → Prop
  | shebang {word : String} : file.shebang = some word → HasWord file word
  | package {word : String} : file.package = some word → HasWord file word
  | imported {i : Import} {word : String} : i ∈ file.imports → word ∈ i.words → HasWord file word
  | part {part : Part} {word : String} : file.Contains part → word ∈ part.words →
      HasWord file word

/-- The parts are smaller than `n`. -/
def Below (n : Nat) (parts : List Part) : Prop :=
  ∀ part ∈ parts, sizeOf part < n

@[simp]
theorem below_nil (n : Nat) : Below n [] := by
  intro part hpart
  cases hpart

@[simp]
theorem below_cons {n : Nat} {part : Part} {parts : List Part} :
    Below n (part :: parts) ↔ sizeOf part < n ∧ Below n parts := by
  simp [Below]

@[simp]
theorem below_append {n : Nat} {ps qs : List Part} :
    Below n (ps ++ qs) ↔ Below n ps ∧ Below n qs := by
  simp [Below, or_imp, forall_and]

section

variable {α : Type} [SizeOf α] {make : α → Part} {n : Nat}
  (hmake : ∀ x, sizeOf (make x) = 1 + sizeOf x)

include hmake

@[simp]
theorem below_map {xs : List α} (h : sizeOf xs < n) : Below n (xs.map make) := by
  intro part hpart
  obtain ⟨x, hx, rfl⟩ := List.mem_map.mp hpart
  have hlt := List.sizeOf_lt_of_mem hx
  rw [hmake]
  omega

@[simp]
theorem below_toList {value : Option α} (h : sizeOf value < n) :
    Below n (value.toList.map make) := by
  cases value with
  | none => exact below_nil n
  | some x =>
    refine below_cons.mpr ⟨?_, below_nil n⟩
    rw [hmake]
    exact h

@[simp]
theorem below_getD {value : Option (List α)} (h : sizeOf value < n) :
    Below n ((value.getD []).map make) := by
  cases value with
  | none => exact below_nil n
  | some xs =>
    have hsize : sizeOf (some xs) = 1 + sizeOf xs := rfl
    apply below_map hmake
    show sizeOf xs < n
    omega

end

@[simp]
theorem Members.below_parts {members : Members} {n : Nat} (h : sizeOf members < n) :
    Below n members.parts := by
  obtain ⟨instances, statics⟩ := members
  rw [Members.mk.sizeOf_spec] at h
  refine below_append.mpr ⟨below_map (fun _ => rfl) ?_, below_map (fun _ => rfl) ?_⟩
  · show sizeOf instances < n
    omega
  · show sizeOf statics < n
    omega

theorem Part.below_children (part : Part) : Below (sizeOf part) part.children := by
  cases part with
  | expression e => cases e <;> simp +arith [children, Expression.parts]
  | suffix op => cases op <;> simp +arith [children, PostfixOperator.parts]
  | lambdaBody b => cases b <;> simp +arith [children, LambdaBody.parts]
  | annotationArgument a => cases a <;> simp +arith [children, AnnotationArgument.parts]
  | statement s => cases s <;> simp +arith [children, Statement.parts]
  | declaration d => cases d <;> simp +arith [children, Declaration.parts]
  | typeKind k => cases k <;> simp +arith [children, TypeKind.parts]
  | constant c => cases c <;> simp +arith [children, constantParts]
  | supertype s => cases s <;> simp +arith [children, Supertype.parts]
  | member m => cases m <;> simp +arith [children, Member.parts]
  | functionBody b => cases b <;> simp +arith [children, FunctionBody.parts]
  | argument x | dictionaryEntry x | lambdaParameter x | branch x | condition x | annotationUse x
  | forVariable x | enumEntry x | delegation x | function x | properties x | property x | accessor x
  | parameter x | typeParameter x => cases x; simp +arith [children]

/-- What every part inherits from the parts directly in it holds of all parts. -/
theorem Part.induction {motive : Part → Prop}
    (step : ∀ part, (∀ child ∈ part.children, motive child) → motive part) (part : Part) :
    motive part := by
  generalize hsize : sizeOf part = size
  induction size using Nat.strongRecOn generalizing part with
  | ind size ih =>
    refine step part fun child hchild => ?_
    have hlt := part.below_children child hchild
    exact ih (sizeOf child) (by omega) child rfl

end QuovaKotlin.Ast
