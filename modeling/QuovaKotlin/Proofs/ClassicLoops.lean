import QuovaKotlin.Kotlin.Code
import QuovaKotlin.Proofs.Stores

/-!
# Running classic loops

`for (initial; conditions; updates) body` is printed as a `while` inside `run`, with the updates
behind the statements of the body. Both loops are given a meaning here: statements run over a store
of integer variables, and the printed loop is read back as the code that its text spells.

The two loops end in the same stores as long as no `continue` of the body can skip the updates and
no braces stand on a line of their own, where they are a function value that nobody calls. One
round of either loop is compared first; the whole runs follow by induction.
-/

set_option autoImplicit false

namespace QuovaKotlin.Execution

open Ast Text

/-- What expressions and compound assignments do, whatever the language: they may fail, and they
may change the store. -/
structure Meaning where
  value : Expression → Store → Option (Int × Store)
  test : Expression → Store → Option (Bool × Store)
  combine : AssignmentOperator → Int → Int → Option Int

namespace Meaning

variable (meaning : Meaning)

/-- A compound assignment reads its variable, evaluates the operand, combines the two and writes
back. -/
def assign : Expression → AssignmentOperator → Expression → Store → Option Store
  | .identifier name, .assign, value, store => do
    let (new, store) ← meaning.value value store
    return store.set name new
  | .identifier name, operator, value, store => do
    let old ← store.get? name
    let (operand, store) ← meaning.value value store
    let new ← meaning.combine operator old operand
    return store.set name new
  | _, _, _, _ => none

/-- A conjunction: the conditions from the left, up to the first that is false. -/
def testAll : List Expression → Store → Option (Bool × Store)
  | [], store => some (true, store)
  | condition :: rest, store => do
    let (holds, store) ← meaning.test condition store
    if holds then testAll rest store else return (false, store)

/-- The variables of a header, each in scope of the next. -/
def declareAll : List ForVariable → Store → Option Store
  | [], store => some store
  | first :: rest, store => do
    let (value, store) ← meaning.value first.value store
    declareAll rest ((first.name, value) :: store)

end Meaning

/-- How a statement ends: it goes on to the next, leaves the loop, or leaves the round. -/
inductive Exit
  | normal
  | left
  | continued
  deriving DecidableEq, Repr

/-- What a statement does to a store; nothing if it fails. -/
abbrev Effect := Store → Option (Exit × Store)

/-- `rest` runs where the first effect ended normally. -/
def followedBy (first : Option (Exit × Store)) (rest : Effect) : Option (Exit × Store) :=
  first.bind fun
    | (.normal, store) => rest store
    | (exit, store) => some (exit, store)

def Meaning.branch (meaning : Meaning) (condition : Expression) (consequent alternative : Effect) :
    Effect := fun store => do
  let (holds, store) ← meaning.test condition store
  if holds then consequent store else alternative store

def idle : Effect := fun store => some (.normal, store)

theorem followedBy_assoc (first : Option (Exit × Store)) (second third : Effect) :
    followedBy (followedBy first second) third =
      followedBy first fun store => followedBy (second store) third := by
  rcases first with _ | ⟨_ | _ | _, store⟩ <;> rfl

theorem followedBy_idle (first : Option (Exit × Store)) : followedBy first idle = first := by
  rcases first with _ | ⟨_ | _ | _, store⟩ <;> rfl

mutual

/-- A statement of a loop's body, where it has a meaning over integer variables. -/
def runStatement (meaning : Meaning) : Statement → Effect
  | .assignment target operator value => fun store =>
    (meaning.assign target operator value store).map (.normal, ·)
  | .expression value => fun store => (meaning.value value store).map fun r => (.normal, r.2)
  | .conditional condition consequent none =>
    meaning.branch condition (runStatement meaning consequent) idle
  | .conditional condition consequent (some alternative) =>
    meaning.branch condition (runStatement meaning consequent) (runStatement meaning alternative)
  | .block statements => runStatements meaning statements
  | .break none => fun store => some (.left, store)
  | .continue none => fun store => some (.continued, store)
  | .empty => idle
  | _ => fun _ => none

/-- One statement after the other, up to the first that does not end normally. -/
def runStatements (meaning : Meaning) : List Statement → Effect
  | [] => idle
  | first :: rest => fun store =>
    followedBy (runStatement meaning first store) (runStatements meaning rest)

end

/-- The updates of a header are assignments and expressions. -/
def IsSimple : Statement → Prop
  | .assignment .. | .expression .. => True
  | _ => False

structure ClassicLoop where
  initial : List ForVariable
  conditions : List Expression
  updates : List Statement
  body : Statement
  isSimple_updates : ∀ update ∈ updates, IsSimple update

namespace ClassicLoop

def statement (loop : ClassicLoop) : Statement :=
  .forClassic loop.initial loop.conditions loop.updates loop.body

/-- The rounds of a classic loop. The updates follow every round that does not leave the loop, also
one that `continue` ends. -/
inductive Rounds (meaning : Meaning) (loop : ClassicLoop) : Store → Store → Prop
  | stop {store last} : meaning.testAll loop.conditions store = some (false, last) →
      Rounds meaning loop store last
  | leave {store inside last} : meaning.testAll loop.conditions store = some (true, inside) →
      runStatement meaning loop.body inside = some (.left, last) →
      Rounds meaning loop store last
  | next {store inside behind updated last exit} :
      meaning.testAll loop.conditions store = some (true, inside) →
      runStatement meaning loop.body inside = some (exit, behind) → exit ≠ .left →
      runStatements meaning loop.updates behind = some (.normal, updated) →
      Rounds meaning loop updated last → Rounds meaning loop store last

/-- The loop runs from `store` to its end in `last`, where its own variables are gone. -/
def Ends (meaning : Meaning) (loop : ClassicLoop) (store last : Store) : Prop :=
  ∃ declared inner, meaning.declareAll loop.initial store = some declared ∧
    loop.Rounds meaning declared inner ∧ last = inner.drop loop.initial.length

end ClassicLoop

/-- Kotlin code as its reader groups it. Braces mean different things by their place. -/
inductive Code
  | assign (target : Expression) (operator : AssignmentOperator) (value : Expression)
  | evaluate (value : Expression)
  | branch (condition : Expression) (consequent : Code) (alternative : Option Code)
  | braces (codes : List Code)
  | leave
  | proceed
  /-- Text of other statements, which is not run here. -/
  | other (text : String)

/-- Where code stands: on a line of its own, or as the body behind a condition. -/
inductive Place
  | line
  | body
  deriving DecidableEq, Repr

mutual

def Code.text : Code → String
  | .assign target operator value =>
    operator.asStatement target.kotlin ⟨value.priority, value.kotlin⟩
  | .evaluate value => value.kotlin
  | .branch condition consequent none => "if (" ++ condition.kotlin ++ ") " ++ consequent.text
  | .branch condition consequent (some alternative) =>
    "if (" ++ condition.kotlin ++ ") " ++ consequent.text ++ " else " ++ alternative.text
  | .braces codes => blockText (Code.texts codes)
  | .leave => "break"
  | .proceed => "continue"
  | .other text => text

def Code.texts : List Code → List String
  | [] => []
  | first :: rest => first.text :: Code.texts rest

end

mutual

/-- Braces behind a condition are a block; on a line of their own they are a function value, and
evaluating that runs nothing of what stands in it. -/
def Code.run (meaning : Meaning) : Place → Code → Effect
  | _, .assign target operator value => fun store =>
    (meaning.assign target operator value store).map (.normal, ·)
  | _, .evaluate value => fun store => (meaning.value value store).map fun r => (.normal, r.2)
  | _, .branch condition consequent none =>
    meaning.branch condition (Code.run meaning .body consequent) idle
  | _, .branch condition consequent (some alternative) =>
    meaning.branch condition (Code.run meaning .body consequent)
      (Code.run meaning .body alternative)
  | .body, .braces codes => Code.runLines meaning codes
  | .line, .braces _ => idle
  | _, .leave => fun store => some (.left, store)
  | _, .proceed => fun store => some (.continued, store)
  | _, .other _ => fun _ => none

def Code.runLines (meaning : Meaning) : List Code → Effect
  | [] => idle
  | first :: rest => fun store =>
    followedBy (Code.run meaning .line first store) (Code.runLines meaning rest)

end

/-- `run { var … while (c && …) { lines } }` -/
structure ScopedWhile where
  initial : List ForVariable
  conditions : List Expression
  lines : List Code

namespace ScopedWhile

def text (loop : ScopedWhile) : String :=
  let test :=
    if loop.conditions.isEmpty then "true"
    else joinWith " && " (Expression.conjuncts loop.conditions)
  "run \x7b\n" ++ endEach "\n" (ForVariable.kotlinEach loop.initial) ++ "while (" ++ test ++
    ") \x7b\n" ++ endEach "\n" (Code.texts loop.lines) ++ "\x7d\n\x7d"

/-- The rounds of a `while`: `continue` goes straight to the next test. -/
inductive Rounds (meaning : Meaning) (loop : ScopedWhile) : Store → Store → Prop
  | stop {store last} : meaning.testAll loop.conditions store = some (false, last) →
      Rounds meaning loop store last
  | leave {store inside last} : meaning.testAll loop.conditions store = some (true, inside) →
      Code.runLines meaning loop.lines inside = some (.left, last) →
      Rounds meaning loop store last
  | next {store inside behind last exit} :
      meaning.testAll loop.conditions store = some (true, inside) →
      Code.runLines meaning loop.lines inside = some (exit, behind) → exit ≠ .left →
      Rounds meaning loop behind last → Rounds meaning loop store last

/-- The variables live as long as the function value of `run`. -/
def Ends (meaning : Meaning) (loop : ScopedWhile) (store last : Store) : Prop :=
  ∃ declared inner, meaning.declareAll loop.initial store = some declared ∧
    loop.Rounds meaning declared inner ∧ last = inner.drop loop.initial.length

end ScopedWhile

mutual

def codeOf : Statement → Code
  | .assignment target operator value => .assign target operator value
  | .expression value => .evaluate value
  | .conditional condition consequent none => .branch condition (codeOf consequent) none
  | .conditional condition consequent (some alternative) =>
    .branch condition (codeOf consequent) (some (codeOf alternative))
  | .block statements => .braces (codesOf statements)
  | .break none => .leave
  | .continue none => .proceed
  | .empty => .braces []
  | statement => .other statement.kotlin

def codesOf : List Statement → List Code
  | [] => []
  | first :: rest => codeOf first :: codesOf rest

end

/-- The lines of a loop's body; a block lends its statements to the loop's own braces. -/
def bodyLines : Statement → List Code
  | .block statements => codesOf statements
  | .empty => []
  | statement => [codeOf statement]

/-- The loop as it is printed. -/
def ClassicLoop.printed (loop : ClassicLoop) : ScopedWhile :=
  ⟨loop.initial, loop.conditions, bodyLines loop.body ++ codesOf loop.updates⟩

mutual

theorem text_codeOf : (statement : Statement) → (codeOf statement).text = statement.kotlin
  | .assignment .. => rfl
  | .expression _ => rfl
  | .conditional condition consequent none => by
    have htext : (Statement.conditional condition consequent none).kotlin =
        "if (" ++ condition.kotlin ++ ") " ++ consequent.kotlin ++ "" := rfl
    rw [htext, codeOf, Code.text, text_codeOf consequent, String.append_empty]
  | .conditional condition consequent (some alternative) => by
    have htext : (Statement.conditional condition consequent (some alternative)).kotlin =
        "if (" ++ condition.kotlin ++ ") " ++ consequent.kotlin ++
          (" else " ++ alternative.kotlin) := rfl
    rw [htext, codeOf, Code.text, text_codeOf consequent, text_codeOf alternative,
      String.append_assoc]
  | .block statements => by
    have htext : (Statement.block statements).kotlin =
        blockText (Statement.kotlinEach statements) := rfl
    rw [htext, codeOf, Code.text, texts_codesOf statements]
  | .break none | .break (some _) | .continue none | .continue (some _) => rfl
  | .empty | .labeled .. | .forEach .. | .forClassic .. | .loop .. => rfl
  | .throw _ | .return .. | .declaration _ => rfl

theorem texts_codesOf : (statements : List Statement) →
    Code.texts (codesOf statements) = Statement.kotlinEach statements
  | [] => rfl
  | first :: rest => by
    have htext : Statement.kotlinEach (first :: rest) =
        first.kotlin :: Statement.kotlinEach rest := rfl
    rw [htext, codesOf, Code.texts, text_codeOf first, texts_codesOf rest]

end

theorem texts_append (front back : List Code) :
    Code.texts (front ++ back) = Code.texts front ++ Code.texts back := by
  induction front with
  | nil => rfl
  | cons first rest ih => rw [List.cons_append, Code.texts, Code.texts, ih, List.cons_append]

/-- What is printed between the test of a loop and its updates. -/
theorem endEach_bodyLines (body : Statement) :
    endEach "\n" (Code.texts (bodyLines body)) =
      match body with
      | .block statements => endEach "\n" (Statement.kotlinEach statements)
      | .empty => ""
      | statement => statement.kotlin ++ "\n" := by
  have hline : ∀ statement : Statement,
      endEach "\n" (Code.texts [codeOf statement]) = statement.kotlin ++ "\n" := by
    intro statement
    rw [Code.texts, Code.texts, text_codeOf, endEach, endEach, String.append_empty]
  cases body with
  | block statements =>
    show endEach "\n" (Code.texts (codesOf statements)) = _
    rw [texts_codesOf]
  | empty => rfl
  | _ => exact hline _

namespace ClassicLoop

/-- The code that `printed` runs is the code that the loop is printed as. -/
theorem text_printed (loop : ClassicLoop) : loop.printed.text = loop.statement.kotlin := by
  have hlines : endEach "\n" (Code.texts loop.printed.lines) =
      (match loop.body with
        | .block statements => endEach "\n" (Statement.kotlinEach statements)
        | .empty => ""
        | statement => statement.kotlin ++ "\n") ++
      endEach "\n" (Statement.kotlinEach loop.updates) := by
    rw [printed, texts_append, endEach_append, endEach_bodyLines, texts_codesOf]
  rw [ScopedWhile.text, hlines, ← String.append_assoc]
  obtain ⟨initial, conditions, updates, body, hupdates⟩ := loop
  cases body <;> rfl

end ClassicLoop

mutual

/-- Braces stand only where they are a block: as the whole body of a loop or a branch. -/
def IsAttached : Place → Statement → Prop
  | place, .block statements => place = .body ∧ AreAttached statements
  | place, .empty => place = .body
  | _, .conditional _ consequent none => IsAttached .body consequent
  | _, .conditional _ consequent (some alternative) =>
    IsAttached .body consequent ∧ IsAttached .body alternative
  | _, _ => True

def AreAttached : List Statement → Prop
  | [] => True
  | first :: rest => IsAttached .line first ∧ AreAttached rest

end

mutual

theorem run_codeOf (meaning : Meaning) : (place : Place) → (statement : Statement) →
    IsAttached place statement →
    (codeOf statement).run meaning place = runStatement meaning statement
  | _, .assignment .., _ => rfl
  | _, .expression _, _ => rfl
  | _, .conditional condition consequent none, h => by
    rw [codeOf, Code.run, runStatement, run_codeOf meaning .body consequent h]
  | _, .conditional condition consequent (some alternative), h => by
    obtain ⟨hconsequent, halternative⟩ := h
    rw [codeOf, Code.run, runStatement, run_codeOf meaning .body consequent hconsequent,
      run_codeOf meaning .body alternative halternative]
  | _, .block statements, h => by
    obtain ⟨rfl, hstatements⟩ := h
    rw [codeOf, Code.run, runStatement, runLines_codesOf meaning statements hstatements]
  | _, .empty, h => by
    obtain rfl := h
    rfl
  | _, .break none, _ | _, .break (some _), _ => rfl
  | _, .continue none, _ | _, .continue (some _), _ => rfl
  | _, .labeled .., _ | _, .forEach .., _ | _, .forClassic .., _ | _, .loop .., _ => rfl
  | _, .throw _, _ | _, .return .., _ | _, .declaration _, _ => rfl

theorem runLines_codesOf (meaning : Meaning) : (statements : List Statement) →
    AreAttached statements →
    Code.runLines meaning (codesOf statements) = runStatements meaning statements
  | [], _ => rfl
  | first :: rest, h => by
    obtain ⟨hfirst, hrest⟩ := h
    rw [codesOf, Code.runLines, runStatements, run_codeOf meaning .line first hfirst,
      runLines_codesOf meaning rest hrest]

end

theorem runLines_append (meaning : Meaning) (front back : List Code) (store : Store) :
    Code.runLines meaning (front ++ back) store =
      followedBy (Code.runLines meaning front store) (Code.runLines meaning back) := by
  induction front generalizing store with
  | nil => rfl
  | cons first rest ih =>
    have hrest : Code.runLines meaning (rest ++ back) = fun store =>
        followedBy (Code.runLines meaning rest store) (Code.runLines meaning back) := funext ih
    rw [List.cons_append, Code.runLines, Code.runLines, followedBy_assoc, hrest]

theorem areAttached_of_isSimple {statements : List Statement}
    (h : ∀ statement ∈ statements, IsSimple statement) : AreAttached statements := by
  induction statements with
  | nil => exact trivial
  | cons first rest ih =>
    have hfirst : IsSimple first := h first List.mem_cons_self
    refine ⟨?_, ih fun statement hmem => h statement (List.mem_cons_of_mem first hmem)⟩
    cases first <;> trivial

theorem runLines_bodyLines (meaning : Meaning) {body : Statement} (h : IsAttached .body body) :
    Code.runLines meaning (bodyLines body) = runStatement meaning body := by
  have hline : ∀ statement : Statement, IsAttached .line statement →
      Code.runLines meaning [codeOf statement] = runStatement meaning statement := by
    intro statement hstatement
    funext store
    show followedBy ((codeOf statement).run meaning .line store) idle = _
    rw [followedBy_idle, run_codeOf meaning .line statement hstatement]
  cases body with
  | block statements => exact runLines_codesOf meaning statements h.2
  | empty => rfl
  | conditional condition consequent alternative =>
    -- a branch brings its own places along, so the outer one does not matter
    exact hline _ (by cases alternative <;> exact h)
  | _ => exact hline _ trivial

mutual

/-- Whether a `continue` stands in the statement. -/
def mayContinue : Statement → Bool
  | .continue _ => true
  | .conditional _ consequent none => mayContinue consequent
  | .conditional _ consequent (some alternative) =>
    mayContinue consequent || mayContinue alternative
  | .block statements => anyMayContinue statements
  | _ => false

def anyMayContinue : List Statement → Bool
  | [] => false
  | first :: rest => mayContinue first || anyMayContinue rest

end

/-- An effect that never leaves the round early. -/
def Completes (effect : Effect) : Prop :=
  ∀ store last, effect store ≠ some (.continued, last)

theorem completes_branch (meaning : Meaning) (condition : Expression)
    {consequent alternative : Effect} (hconsequent : Completes consequent)
    (halternative : Completes alternative) :
    Completes (meaning.branch condition consequent alternative) := by
  intro store last h
  obtain ⟨⟨holds, inside⟩, -, hrest⟩ := Option.bind_eq_some_iff.1 h
  cases holds with
  | true => exact hconsequent inside last hrest
  | false => exact halternative inside last hrest

theorem completes_followedBy {first rest : Effect} (hfirst : Completes first)
    (hrest : Completes rest) : Completes fun store => followedBy (first store) rest := by
  intro store last h
  obtain ⟨⟨exit, inside⟩, hinside, hlast⟩ := Option.bind_eq_some_iff.1 h
  cases exit with
  | normal => exact hrest inside last hlast
  | left => cases hlast
  | continued => exact hfirst store inside hinside

theorem completes_idle : Completes idle := by
  intro store last h
  cases h

mutual

theorem completes_runStatement (meaning : Meaning) : (statement : Statement) →
    mayContinue statement = false → Completes (runStatement meaning statement)
  | .assignment .., _ | .expression _, _ => by
    intro store last h
    obtain ⟨_, -, heq⟩ := Option.map_eq_some_iff.1 h
    cases heq
  | .conditional condition consequent none, h => by
    rw [runStatement]
    exact completes_branch meaning condition (completes_runStatement meaning consequent h)
      completes_idle
  | .conditional condition consequent (some alternative), h => by
    obtain ⟨hconsequent, halternative⟩ := Bool.or_eq_false_iff.1 h
    rw [runStatement]
    exact completes_branch meaning condition
      (completes_runStatement meaning consequent hconsequent)
      (completes_runStatement meaning alternative halternative)
  | .block statements, h => by
    rw [runStatement]
    exact completes_runStatements meaning statements h
  | .empty, _ => completes_idle
  | .break none, _ => fun _ _ h => by cases h
  | .break (some _), _ => fun _ _ h => by cases h
  | .continue _, h => by cases h
  | .labeled .., _ | .forEach .., _ | .forClassic .., _ | .loop .., _ => fun _ _ h => by cases h
  | .throw _, _ | .return .., _ | .declaration _, _ => fun _ _ h => by cases h

theorem completes_runStatements (meaning : Meaning) : (statements : List Statement) →
    anyMayContinue statements = false → Completes (runStatements meaning statements)
  | [], _ => completes_idle
  | first :: rest, h => by
    obtain ⟨hfirst, hrest⟩ := Bool.or_eq_false_iff.1 h
    rw [runStatements]
    exact completes_followedBy (completes_runStatement meaning first hfirst)
      (completes_runStatements meaning rest hrest)

end

/-- Simple statements always end normally. -/
theorem exit_of_isSimple (meaning : Meaning) {statements : List Statement}
    (h : ∀ statement ∈ statements, IsSimple statement) {store last : Store} {exit : Exit}
    (hrun : runStatements meaning statements store = some (exit, last)) : exit = .normal := by
  induction statements generalizing store with
  | nil => cases hrun; rfl
  | cons first rest ih =>
    have hfirst : ∀ result, runStatement meaning first store = some result →
        result.1 = .normal := by
      intro result hresult
      have hsimple : IsSimple first := h first List.mem_cons_self
      cases first with
      | assignment target operator value =>
        obtain ⟨_, -, rfl⟩ := Option.map_eq_some_iff.1 hresult
        rfl
      | expression value =>
        obtain ⟨_, -, rfl⟩ := Option.map_eq_some_iff.1 hresult
        rfl
      | _ => exact hsimple.elim
    obtain ⟨⟨exit', inside⟩, hinside, hlast⟩ := Option.bind_eq_some_iff.1 hrun
    obtain rfl : exit' = .normal := hfirst _ hinside
    exact ih (fun statement hmem => h statement (List.mem_cons_of_mem first hmem)) hlast

namespace ClassicLoop

/-- A `continue` skips nothing: there is none, or there is no update to skip. -/
def SkipsNothing (loop : ClassicLoop) : Prop :=
  mayContinue loop.body = false ∨ loop.updates = []

variable {meaning : Meaning} {loop : ClassicLoop}

theorem runLines_printed (h : IsAttached .body loop.body) (store : Store) :
    Code.runLines meaning loop.printed.lines store =
      followedBy (runStatement meaning loop.body store) (runStatements meaning loop.updates) := by
  have hupdates : Code.runLines meaning (codesOf loop.updates) =
      runStatements meaning loop.updates :=
    runLines_codesOf meaning loop.updates (areAttached_of_isSimple loop.isSimple_updates)
  rw [printed, runLines_append, runLines_bodyLines meaning h, hupdates]

/-- A printed round leaves the loop exactly where the body does. -/
theorem printed_left_iff (h : IsAttached .body loop.body) (store last : Store) :
    Code.runLines meaning loop.printed.lines store = some (.left, last) ↔
      runStatement meaning loop.body store = some (.left, last) := by
  rw [runLines_printed h]
  constructor
  · intro hround
    obtain ⟨⟨exit, behind⟩, hbody, hrest⟩ := Option.bind_eq_some_iff.1 hround
    cases exit with
    | normal => cases exit_of_isSimple meaning loop.isSimple_updates hrest
    | left => cases hrest; exact hbody
    | continued => cases hrest
  · intro hbody
    rw [hbody]
    rfl

/-- A printed round goes on to the next test exactly where the body does not leave the loop, and in
the store that the updates make. -/
theorem printed_next_iff (h : IsAttached .body loop.body) (hskip : loop.SkipsNothing)
    (store last : Store) :
    (∃ exit, Code.runLines meaning loop.printed.lines store = some (exit, last) ∧ exit ≠ .left) ↔
      ∃ exit behind, runStatement meaning loop.body store = some (exit, behind) ∧ exit ≠ .left ∧
        runStatements meaning loop.updates behind = some (.normal, last) := by
  constructor
  · rintro ⟨exit, hround, hexit⟩
    rw [runLines_printed h] at hround
    obtain ⟨⟨exit', behind⟩, hbody, hrest⟩ := Option.bind_eq_some_iff.1 hround
    cases exit' with
    | normal =>
      obtain rfl : exit = .normal := exit_of_isSimple meaning loop.isSimple_updates hrest
      exact ⟨.normal, behind, hbody, hexit, hrest⟩
    | left => cases hrest; exact (hexit rfl).elim
    | continued =>
      cases hrest
      rcases hskip with hnone | hnil
      · exact (completes_runStatement meaning loop.body hnone store last hbody).elim
      · exact ⟨.continued, last, hbody, hexit, by rw [hnil]; rfl⟩
  · rintro ⟨exit, behind, hbody, hexit, hupdates⟩
    rw [runLines_printed h, hbody]
    cases exit with
    | normal => exact ⟨.normal, hupdates, hexit⟩
    | left => exact (hexit rfl).elim
    | continued =>
      rcases hskip with hnone | hnil
      · exact (completes_runStatement meaning loop.body hnone store behind hbody).elim
      · rw [hnil] at hupdates
        cases hupdates
        exact ⟨.continued, rfl, hexit⟩

theorem rounds_of_printed (h : IsAttached .body loop.body) (hskip : loop.SkipsNothing)
    {store last : Store} (hrounds : loop.printed.Rounds meaning store last) :
    loop.Rounds meaning store last := by
  induction hrounds with
  | stop htest => exact .stop htest
  | leave htest hround => exact .leave htest ((printed_left_iff h _ _).1 hround)
  | next htest hround hexit _ ih =>
    obtain ⟨exit, behind, hbody, hexit', hupdates⟩ :=
      (printed_next_iff h hskip _ _).1 ⟨_, hround, hexit⟩
    exact .next htest hbody hexit' hupdates ih

theorem printed_of_rounds (h : IsAttached .body loop.body) (hskip : loop.SkipsNothing)
    {store last : Store} (hrounds : loop.Rounds meaning store last) :
    loop.printed.Rounds meaning store last := by
  induction hrounds with
  | stop htest => exact .stop htest
  | leave htest hbody => exact .leave htest ((printed_left_iff h _ _).2 hbody)
  | next htest hbody hexit hupdates _ ih =>
    obtain ⟨exit, hround, hexit'⟩ :=
      (printed_next_iff h hskip _ _).2 ⟨_, _, hbody, hexit, hupdates⟩
    exact .next htest hround hexit' ih

/-- The printed loop runs from a store to its end in another exactly if the classic loop does. -/
theorem printed_ends_iff (meaning : Meaning) (loop : ClassicLoop)
    (hattached : IsAttached .body loop.body) (hskip : loop.SkipsNothing) (store last : Store) :
    loop.printed.text = loop.statement.kotlin ∧
      (loop.printed.Ends meaning store last ↔ loop.Ends meaning store last) := by
  refine ⟨loop.text_printed, ?_⟩
  constructor
  · rintro ⟨declared, inner, hdeclared, hrounds, hlast⟩
    exact ⟨declared, inner, hdeclared, rounds_of_printed hattached hskip hrounds, hlast⟩
  · rintro ⟨declared, inner, hdeclared, hrounds, hlast⟩
    exact ⟨declared, inner, hdeclared, printed_of_rounds hattached hskip hrounds, hlast⟩

def integerValue : Expression → Store → Option (Int × Store)
  | .literal (.integer text), store => some (decimal text, store)
  | .identifier name, store => (store.get? name).map (·, store)
  | .suffixed (.identifier name) .increment, store =>
    (store.get? name).map fun value => (value, store.set name (value + 1))
  | _, _ => none

def integerTest : Expression → Store → Option (Bool × Store)
  | .binary (.comparison .less) left right, store => do
    let (a, store) ← integerValue left store
    let (b, store) ← integerValue right store
    return (decide (a < b), store)
  | .binary (.equality .equal) left right, store => do
    let (a, store) ← integerValue left store
    let (b, store) ← integerValue right store
    return (decide (a = b), store)
  | _, _ => none

def integers : Meaning where
  value := integerValue
  test := integerTest
  combine
    | .plus, old, operand => some (old + operand)
    | _, _, _ => none

/-- `for (var i = 0; i < limit; i++) body` -/
def upTo (limit : String) (body : Statement) : ClassicLoop where
  initial := [⟨none, "i", .integer "0"⟩]
  conditions := [.binary (.comparison .less) (.identifier "i") (.integer limit)]
  updates := [.expression (.suffixed (.identifier "i") .increment)]
  body := body
  isSimple_updates := by
    intro update hmem
    obtain rfl := List.mem_singleton.1 hmem
    trivial

/-- `if (i == 2) break; else { x += i; }` -/
def addUntilTwo : Statement :=
  .conditional (.binary (.equality .equal) (.identifier "i") (.integer "2")) (.break none)
    (some (.block [.assignment (.identifier "x") .plus (.identifier "i")]))

theorem upTo_addUntilTwo_ends :
    (upTo "9" addUntilTwo).Ends integers [("x", 0)] [("x", 1)] := by
  refine ⟨[("i", 0), ("x", 0)], [("i", 2), ("x", 1)], rfl, ?_, rfl⟩
  have hbreak : (upTo "9" addUntilTwo).Rounds integers [("i", 2), ("x", 1)] [("i", 2), ("x", 1)] :=
    .leave rfl rfl
  exact .next rfl rfl (by decide) rfl (.next rfl rfl (by decide) rfl hbreak)

theorem upTo_continue_ends : (upTo "1" (.continue none)).Ends integers [] [] := by
  refine ⟨[("i", 0)], [("i", 1)], rfl, ?_, rfl⟩
  exact .next rfl rfl (by decide) rfl (.stop rfl)

theorem not_printed_upTo_continue_ends (last : Store) :
    ¬ (upTo "1" (.continue none)).printed.Ends integers [] last := by
  rintro ⟨declared, inner, hdeclared, hrounds, -⟩
  cases hdeclared
  -- every round of the `while` gives its own store back
  have hstuck : ∀ store inner, (upTo "1" (.continue none)).printed.Rounds integers store inner →
      store ≠ [("i", 0)] := by
    intro store inner hrounds
    induction hrounds with
    | stop htest => rintro rfl; cases htest
    | leave htest hround => rintro rfl; cases htest; cases hround
    | next htest hround _ _ ih => rintro rfl; cases htest; cases hround; exact ih rfl
  exact hstuck _ _ hrounds rfl

/-- A loop with `break` keeps its end; a `continue` makes a loop that ends print as one that does
not. -/
theorem addUntilTwo_printed_continue_not_printed :
    ((upTo "9" addUntilTwo).printed.text = (upTo "9" addUntilTwo).statement.kotlin ∧
      ((upTo "9" addUntilTwo).printed.Ends integers [("x", 0)] [("x", 1)] ↔
        (upTo "9" addUntilTwo).Ends integers [("x", 0)] [("x", 1)])) ∧
    (upTo "9" addUntilTwo).Ends integers [("x", 0)] [("x", 1)] ∧
    (upTo "1" (.continue none)).Ends integers [] [] ∧
    ∀ last, ¬ (upTo "1" (.continue none)).printed.Ends integers [] last :=
  ⟨printed_ends_iff integers (upTo "9" addUntilTwo) ⟨trivial, rfl, trivial, trivial⟩ (.inl rfl) _ _,
    upTo_addUntilTwo_ends, upTo_continue_ends, not_printed_upTo_continue_ends⟩

end ClassicLoop

end QuovaKotlin.Execution
