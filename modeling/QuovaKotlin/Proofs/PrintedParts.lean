import QuovaKotlin.Kotlin.File

/-!
# The texts of lists and of optional parts

The texts of a list of syntax trees are the texts of its members, and a part that may be absent has
a text or none.
-/

set_option autoImplicit false

namespace QuovaKotlin.Ast

open Text

theorem Argument.kotlinEach_eq_map (arguments : List Argument) :
    Argument.kotlinEach arguments = arguments.map (·.kotlin) :=
  each_eq_map rfl (fun _ _ => rfl) arguments

theorem DictionaryEntry.kotlinEach_eq_map (entries : List DictionaryEntry) :
    DictionaryEntry.kotlinEach entries = entries.map (·.kotlin) :=
  each_eq_map rfl (fun _ _ => rfl) entries

theorem Condition.kotlinEach_eq_map (conditions : List Condition) :
    Condition.kotlinEach conditions = conditions.map (·.kotlin) :=
  each_eq_map rfl (fun _ _ => rfl) conditions

theorem Supertype.kotlinEach_eq_map (supertypes : List Supertype) :
    Supertype.kotlinEach supertypes = supertypes.map (·.kotlin) :=
  each_eq_map rfl (fun _ _ => rfl) supertypes

theorem Member.kotlinEach_eq_map (members : List Member) :
    Member.kotlinEach members = members.map (·.kotlin) :=
  each_eq_map rfl (fun _ _ => rfl) members

theorem Property.kotlinEach_eq_map (head : String) (type : Option TypeRef)
    (properties : List Property) :
    Property.kotlinEach head type properties = properties.map (·.kotlin head type) :=
  each_eq_map rfl (fun _ _ => rfl) properties

theorem Property.kotlin_eq (p : Property) (head : String) (type : Option TypeRef) :
    p.kotlin head type = head ++ p.name ++ typeMark type ++
      whenPresent p.value (fun value => " = " ++ value.kotlin) ++
      whenPresent p.delegate (fun delegate => " by " ++ delegate.kotlin) ++
      whenPresent p.getter (fun getter => "\n" ++ getter.kotlinGet) ++
      whenPresent p.setter (fun setter => "\n" ++ setter.kotlinSet) := by
  obtain ⟨name, value, delegate, getter, setter⟩ := p
  cases value <;> cases delegate <;> cases getter <;> cases setter <;> rfl

end QuovaKotlin.Ast
