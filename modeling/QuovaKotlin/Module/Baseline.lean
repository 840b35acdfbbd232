import QuovaKotlin.Module.Basic

/-!
# Baselines

Every build needs the Kotlin plugin and one repository. Each is there exactly once afterwards,
whether it was declared never, once or several times.
-/

set_option autoImplicit false

namespace QuovaKotlin.Module

section

variable {α : Type} [DecidableEq α]

/-- `a` in front, and nowhere else. -/
def putFirst (a : α) (items : List α) : List α :=
  a :: items.filter (· ≠ a)

/-- `a` where it stands first, or at the end, and nowhere else. -/
def keepOnce (a : α) : List α → List α
  | [] => [a]
  | item :: items =>
    if item = a then a :: items.filter (· ≠ a) else item :: keepOnce a items

end

/-- The plugin that every build needs. -/
def kotlinPlugin (version : String) : Plugin :=
  .declared "org.jetbrains.kotlin.jvm" (some version)

/-- Puts the Kotlin plugin first, and makes sure of the repository. -/
def Description.withBaseline (kotlinVersion repository : String) (description : Description) :
    Description :=
  { description with
    plugins := putFirst (kotlinPlugin kotlinVersion) description.plugins
    repositories := keepOnce (.named repository) description.repositories }

end QuovaKotlin.Module
