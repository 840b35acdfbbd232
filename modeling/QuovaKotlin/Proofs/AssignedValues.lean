import QuovaKotlin.Kotlin.Code
import QuovaKotlin.Proofs.Stores

/-!
# Assignments that are used as values

An assignment inside an expression is printed as a value with an `also` behind it that writes the
variable. The printed text is cut into tokens here, with the text of the assigned expression as one
of them, and read as Kotlin reads it: `also` takes only what binds as tightly as itself, so a looser
operand must stand alone or in parentheses. The code that comes out runs over a store of integers.

It always leaves the store in the state in which the assignment statement leaves it. It also yields
the value that was stored, unless Kotlin has the compound operator itself: then the operand comes
out, and that is the stored value only where the operator gives its right operand back.
-/

set_option autoImplicit false

namespace QuovaKotlin.Execution

open Ast

/-- What expressions without side effects and the infix operators of Kotlin compute. -/
structure Arithmetic where
  value : Expression → Store → Option Int
  combine : String → Int → Int → Option Int

/-- The infix operator in a compound assignment operator. -/
def combiningOf : String → Option String
  | "+=" => some "+"
  | "-=" => some "-"
  | "*=" => some "*"
  | "/=" => some "/"
  | "%=" => some "%"
  | _ => none

/-- An expression of Kotlin around one that is not taken apart. -/
inductive AssigningCode
  | operand (value : Expression)
  | name (name : String)
  | combined (left : AssigningCode) (symbol : String) (right : AssigningCode)
  /-- `subject.also { bound -> target symbol value }` -/
  | also (subject : AssigningCode) (bound target symbol : String) (value : AssigningCode)

/-- `target symbol value` on a line of its own. -/
structure AssigningLine where
  target : String
  symbol : String
  value : AssigningCode

namespace Arithmetic

variable (arithmetic : Arithmetic)

/-- Writes a variable: the new value itself, or the old one combined with it. -/
def write (target symbol : String) (value : Store → Option (Int × Store)) (store : Store) :
    Option Store :=
  if symbol = "=" then do
    let (new, store) ← value store
    return store.set target new
  else do
    let combining ← combiningOf symbol
    let old ← store.get? target
    let (operand, store) ← value store
    let new ← arithmetic.combine combining old operand
    return store.set target new

/-- The value of code and the store behind it. Integers are never null, so `?:` gives its left
operand and leaves the right one alone. -/
def eval : AssigningCode → Store → Option (Int × Store)
  | .operand value, store => (arithmetic.value value store).map (·, store)
  | .name name, store => (store.get? name).map (·, store)
  | .combined left symbol right, store => do
    let (a, store) ← eval left store
    if symbol = "?:" then return (a, store)
    else do
      let (b, store) ← eval right store
      let c ← arithmetic.combine symbol a b
      return (c, store)
  | .also subject bound target symbol value, store => do
    let (yielded, store) ← eval subject store
    let inner ← arithmetic.write target symbol (eval value) ((bound, yielded) :: store)
    return (yielded, inner.tail)

def run (line : AssigningLine) : Store → Option Store :=
  arithmetic.write line.target line.symbol (arithmetic.eval line.value)

end Arithmetic

/-- A piece of the text of an assignment, with the blanks around it. The text of the assigned
expression is one piece. -/
inductive AssigningToken
  | name (text : String)
  | joint (symbol : String)
  | writes (symbol : String)
  | opening
  | closing
  | also
  | brace
  | arrow
  | unbrace
  | operand (value : Expression)

namespace AssigningToken

def text : AssigningToken → String
  | name text => text
  | joint symbol | writes symbol => " " ++ symbol ++ " "
  | opening => "("
  | closing => ")"
  | also => ".also"
  | brace => " \x7b "
  | arrow => " -> "
  | unbrace => " \x7d"
  | operand value => value.kotlin

/-- The text of several tokens. -/
def spelling : List AssigningToken → String
  | [] => ""
  | token :: tokens => token.text ++ spelling tokens

theorem spelling_append (front back : List AssigningToken) :
    spelling (front ++ back) = spelling front ++ spelling back := by
  induction front with
  | nil => exact String.empty_append.symm
  | cons token front ih => rw [List.cons_append, spelling, ih, spelling, String.append_assoc]

/-- An expression that stands alone because it is looser than any operand. -/
def loose? : List AssigningToken → Option (AssigningCode × List AssigningToken)
  | operand value :: rest =>
    if value.priority ≤ Priority.suffixed then none else some (.operand value, rest)
  | _ => none

mutual

/-- A whole expression: a loose one alone, or tight ones with an infix operator between them. -/
def readWhole : Nat → List AssigningToken → Option (AssigningCode × List AssigningToken)
  | 0, _ => none
  | fuel + 1, tokens =>
    match loose? tokens with
    | some result => some result
    | none => do
      match ← readTight fuel tokens with
      | (left, joint symbol :: rest) =>
        let (right, rest) ← readTight fuel rest
        return (.combined left symbol right, rest)
      | result => return result

/-- A name, a tight expression or something in parentheses, with all that is called on it. -/
def readTight : Nat → List AssigningToken → Option (AssigningCode × List AssigningToken)
  | fuel + 1, opening :: rest => do
    match ← readWhole fuel rest with
    | (code, closing :: rest) => readCalls fuel code rest
    | _ => none
  | fuel + 1, name text :: rest => readCalls fuel (.name text) rest
  | fuel + 1, operand value :: rest =>
    if value.priority ≤ Priority.suffixed then readCalls fuel (.operand value) rest else none
  | _, _ => none

/-- The calls of `also` behind a tight expression. -/
def readCalls : Nat → AssigningCode → List AssigningToken →
    Option (AssigningCode × List AssigningToken)
  | 0, _, _ => none
  | fuel + 1, subject,
      also :: brace :: name bound :: arrow :: name target :: writes symbol :: rest => do
    match ← readWhole fuel rest with
    | (value, unbrace :: rest) => readCalls fuel (.also subject bound target symbol value) rest
    | _ => none
  | _ + 1, code, rest => some (code, rest)

end

/-- The code of the text of an expression. No token needs more than one of each reader. -/
def readCode (tokens : List AssigningToken) : Option AssigningCode :=
  match readWhole (3 * tokens.length) tokens with
  | some (code, []) => some code
  | _ => none

/-- The code of a line. -/
def readLine : List AssigningToken → Option AssigningLine
  | name target :: writes symbol :: rest => do
    match ← readWhole (3 * rest.length) rest with
    | (value, []) => return ⟨target, symbol, value⟩
    | _ => none
  | _ => none

end AssigningToken

end QuovaKotlin.Execution

namespace QuovaKotlin.Ast.AssignmentOperator

open Execution AssigningToken

/-- An operand of something that binds as tightly as a call. -/
def operandTokens (value : Expression) : List AssigningToken :=
  if value.priority ≤ Priority.suffixed then [.operand value]
  else [opening, .operand value, closing]

/-- The call that writes the value in front of it. -/
def alsoTokens (target symbol : String) : List AssigningToken :=
  [also, brace, name assignedValue, arrow, name target, writes symbol, name assignedValue, unbrace]

/-- The tokens of an assignment that is used as a value. -/
def valueTokens (operator : AssignmentOperator) (target : String) (value : Expression) :
    List AssigningToken :=
  match operator.native? with
  | some symbol => operandTokens value ++ alsoTokens target symbol
  | none =>
    opening :: name target :: joint operator.combining ::
      (operandTokens value ++ closing :: alsoTokens target "=")

/-- The tokens of an assignment statement. -/
def lineTokens (operator : AssignmentOperator) (target : String) (value : Expression) :
    List AssigningToken :=
  match operator.native? with
  | some symbol => [name target, writes symbol, .operand value]
  | none => name target :: writes "=" :: name target :: joint operator.combining ::
      operandTokens value

variable (operator : AssignmentOperator) (target : String) (value : Expression)

theorem spelling_operandTokens :
    spelling (operandTokens value) =
      Rendered.under ⟨value.priority, value.kotlin⟩ Priority.suffixed := by
  unfold operandTokens Rendered.under
  by_cases h : value.priority ≤ Priority.suffixed
  · rw [if_pos h, if_neg (Int.not_lt.mpr h)]
    exact String.append_empty
  · rw [if_neg h, if_pos (Int.not_le.mp h)]
    simp only [spelling, text, String.append_empty, String.append_assoc]

theorem spelling_alsoTokens (symbol : String) :
    spelling (alsoTokens target symbol) =
      ".also \x7b " ++ assignedValue ++ " -> " ++ target ++ " " ++ symbol ++ " " ++ assignedValue ++
        " \x7d" := by
  have hcall : ".also \x7b " = ".also" ++ " \x7b " := rfl
  rw [hcall]
  simp only [alsoTokens, spelling, text, String.append_empty, String.append_assoc]

theorem spelling_valueTokens :
    spelling (operator.valueTokens target value) =
      (Expression.assign (.identifier target) operator value).kotlin := by
  have htext : (Expression.assign (.identifier target) operator value).kotlin =
      operator.asValue target ⟨value.priority, value.kotlin⟩ := rfl
  rw [htext, asValue, valueTokens]
  cases operator.native? with
  | some symbol =>
    simp only [spelling_append, spelling_operandTokens, spelling_alsoTokens, String.append_assoc]
  | none =>
    have hcall : ").also \x7b " = ")" ++ ".also \x7b " := rfl
    have hwrite : " = " = " " ++ ("=" ++ " ") := rfl
    rw [hcall, hwrite]
    simp only [spelling_append, spelling_operandTokens, spelling_alsoTokens, spelling, text,
      String.append_assoc]

theorem spelling_lineTokens :
    spelling (operator.lineTokens target value) =
      (Statement.assignment (.identifier target) operator value).kotlin := by
  have htext : (Statement.assignment (.identifier target) operator value).kotlin =
      operator.asStatement target ⟨value.priority, value.kotlin⟩ := rfl
  rw [htext, asStatement, lineTokens]
  cases operator.native? with
  | some symbol => simp only [spelling, text, String.append_empty, String.append_assoc]
  | none =>
    have hwrite : " = " = " " ++ ("=" ++ " ") := rfl
    rw [hwrite]
    simp only [spelling, spelling_operandTokens, text, String.append_assoc]

/-- The value that the printed assignment starts from. -/
def subject : AssigningCode :=
  match operator.native? with
  | some _ => .operand value
  | none => .combined (.name target) operator.combining (.operand value)

/-- The symbol that writes in both texts. -/
def writing : String :=
  operator.native?.getD "="

def valueCode : AssigningCode :=
  .also (operator.subject target value) assignedValue target operator.writing (.name assignedValue)

def lineCode : AssigningLine :=
  ⟨target, operator.writing, operator.subject target value⟩

/-- Printed as an operand, an expression is one to the reader. -/
theorem readTight_operandTokens (fuel : Nat) (rest : List AssigningToken) :
    readTight (fuel + 2) (operandTokens value ++ rest) =
      readCalls (fuel + 1) (.operand value) rest := by
  unfold operandTokens
  by_cases h : value.priority ≤ Priority.suffixed
  · rw [if_pos h, List.cons_append, List.nil_append, readTight, if_pos h]
  · rw [if_neg h]
    have hloose : loose? (.operand value :: closing :: rest) =
        some (.operand value, closing :: rest) := if_neg h
    show (readWhole (fuel + 1) (.operand value :: closing :: rest) >>= _) = _
    rw [readWhole, hloose]
    rfl

theorem readCalls_alsoTokens (fuel : Nat) (code : AssigningCode) (symbol : String) :
    readCalls (fuel + 4) code (alsoTokens target symbol) =
      some (.also code assignedValue target symbol (.name assignedValue), []) :=
  rfl

theorem loose?_operandTokens (rest : List AssigningToken) :
    loose? (operandTokens value ++ rest) = none := by
  unfold operandTokens
  by_cases h : value.priority ≤ Priority.suffixed
  · rw [if_pos h]
    exact if_pos h
  · rw [if_neg h]
    rfl

/-- The subject of a printed assignment that Kotlin has no operator for. -/
theorem readWhole_combined (symbol : String) (fuel : Nat) (rest : List AssigningToken)
    (hrest : ∀ fuel code, readCalls (fuel + 1) code rest = some (code, rest)) :
    readWhole (fuel + 3) (name target :: joint symbol :: (operandTokens value ++ rest)) =
      some (.combined (.name target) symbol (.operand value), rest) := by
  show (readTight (fuel + 2) (operandTokens value ++ rest) >>= _) = _
  rw [readTight_operandTokens, hrest]
  rfl

theorem readWhole_valueTokens (fuel : Nat) :
    readWhole (fuel + 6) (operator.valueTokens target value) =
      some (operator.valueCode target value, []) := by
  unfold valueTokens valueCode subject writing
  cases operator.native? with
  | some symbol =>
    dsimp only
    rw [readWhole, loose?_operandTokens]
    dsimp only
    rw [readTight_operandTokens, readCalls_alsoTokens]
    rfl
  | none =>
    have hwhole := readWhole_combined target value operator.combining (fuel + 1)
      (closing :: alsoTokens target "=") fun _ _ => rfl
    show (readTight (fuel + 5) _ >>= _) = _
    rw [readTight, hwhole]
    rfl

theorem readCode_valueTokens :
    readCode (operator.valueTokens target value) = some (operator.valueCode target value) := by
  have hlength : 2 ≤ (operator.valueTokens target value).length := by
    unfold valueTokens
    split
    · rw [List.length_append]
      exact Nat.le_add_left_of_le (Nat.le_add_left 2 6)
    · exact Nat.le_add_left 2 _
  obtain ⟨fuel, hfuel⟩ := Nat.exists_eq_add_of_le'
    (show 6 ≤ 3 * (operator.valueTokens target value).length by omega)
  rw [readCode, hfuel, readWhole_valueTokens]

theorem readWhole_operand : readWhole 3 [.operand value] = some (.operand value, []) := by
  by_cases h : value.priority ≤ Priority.suffixed
  · rw [readWhole, loose?, if_pos h]
    dsimp only
    rw [readTight, if_pos h]
    rfl
  · rw [readWhole, loose?, if_neg h]

theorem readLine_lineTokens :
    readLine (operator.lineTokens target value) = some (operator.lineCode target value) := by
  unfold lineTokens lineCode subject writing
  cases operator.native? with
  | some symbol =>
    show (readWhole 3 [.operand value] >>= _) = _
    rw [readWhole_operand]
    rfl
  | none =>
    have hwhole := readWhole_combined target value operator.combining
      (3 * (operandTokens value).length + 3) [] fun _ _ => rfl
    rw [List.append_nil] at hwhole
    show (readWhole (3 * ((operandTokens value).length + 2)) _ >>= _) = _
    rw [Nat.mul_add, hwhole]
    rfl

variable {operator target value} {arithmetic : Arithmetic}

/-- Either the text writes what it starts from, or it holds a compound operator of Kotlin. -/
theorem writing_cases (operator : AssignmentOperator) :
    operator ∉ [plus, minus, times, divide, modulo] ∧ operator.writing = "=" ∨
      operator ∈ [plus, minus, times, divide, modulo] ∧ operator.writing ≠ "=" ∧
        combiningOf operator.writing = some operator.combining := by
  cases operator <;> decide

/-- What an assignment starts from is evaluated without touching the store. -/
theorem eval_subject (operator : AssignmentOperator) (target : String) (value : Expression)
    (store : Store) :
    arithmetic.eval (operator.subject target value) store = none ∨
      ∃ result, arithmetic.eval (operator.subject target value) store = some (result, store) := by
  unfold subject
  cases operator.native? with
  | some symbol =>
    simp only [Arithmetic.eval]
    cases arithmetic.value value store with
    | none => exact .inl rfl
    | some result => exact .inr ⟨result, rfl⟩
  | none =>
    simp only [Arithmetic.eval]
    cases store.get? target with
    | none => exact .inl rfl
    | some old =>
      by_cases hsymbol : operator.combining = "?:"
      · exact .inr ⟨old, if_pos hsymbol⟩
      · simp only [Option.map_some, Option.bind_eq_bind, Option.bind_some, if_neg hsymbol]
        cases arithmetic.value value store with
        | none => exact .inl rfl
        | some operand =>
          simp only [Option.map_some, Option.bind_some]
          cases arithmetic.combine operator.combining old operand with
          | none => exact .inl rfl
          | some result => exact .inr ⟨result, rfl⟩

/-- Inside `also` the bound name stands for the subject, and it is gone behind it. -/
theorem write_bound {bound : String} (hbound : bound ≠ target) (symbol : String) (new : Int)
    (store : Store) :
    arithmetic.write target symbol (arithmetic.eval (.name bound)) ((bound, new) :: store) =
      (arithmetic.write target symbol (fun store => some (new, store)) store).map
        ((bound, new) :: ·) := by
  have heval : arithmetic.eval (.name bound) ((bound, new) :: store) =
      some (new, (bound, new) :: store) := by
    rw [Arithmetic.eval, Store.get?_cons_self]
    rfl
  unfold Arithmetic.write
  rw [heval, Store.get?_cons_of_ne hbound]
  by_cases hsymbol : symbol = "="
  · rw [if_pos hsymbol, if_pos hsymbol]
    exact congrArg some (Store.set_cons_of_ne hbound)
  · rw [if_neg hsymbol, if_neg hsymbol]
    cases combiningOf symbol with
    | none => rfl
    | some combining =>
      cases store.get? target with
      | none => rfl
      | some old =>
        simp only [Option.bind_eq_bind, Option.bind_some]
        cases arithmetic.combine combining old new with
        | none => rfl
        | some result => exact congrArg some (Store.set_cons_of_ne hbound)

/-- Writing asks for the value once, and in the store it is given. -/
theorem write_congr (symbol : String) {first second : Store → Option (Int × Store)} {store : Store}
    (h : first store = second store) :
    arithmetic.write target symbol first store = arithmetic.write target symbol second store := by
  unfold Arithmetic.write
  rw [h]

theorem write_none (symbol : String) {code : Store → Option (Int × Store)} {store : Store}
    (h : code store = none) : arithmetic.write target symbol code store = none := by
  unfold Arithmetic.write
  rw [h]
  split
  · rfl
  · cases combiningOf symbol with
    | none => rfl
    | some combining => cases store.get? target <;> rfl

/-- The value text runs its subject and then does what the line does. -/
theorem eval_valueCode (htarget : assignedValue ≠ target) {store : Store} {result : Int}
    (h : arithmetic.eval (operator.subject target value) store = some (result, store)) :
    arithmetic.eval (operator.valueCode target value) store =
      (arithmetic.run (operator.lineCode target value) store).map (result, ·) := by
  have hrun : arithmetic.run (operator.lineCode target value) store =
      arithmetic.write target operator.writing (fun store => some (result, store)) store :=
    write_congr operator.writing h
  rw [hrun, valueCode, Arithmetic.eval, h]
  simp only [Option.bind_eq_bind, Option.bind_some, write_bound htarget]
  cases arithmetic.write target operator.writing (fun store => some (result, store)) store with
  | none => rfl
  | some last => rfl

theorem eval_valueCode_store (htarget : assignedValue ≠ target) (store : Store) :
    (arithmetic.eval (operator.valueCode target value) store).map (·.2) =
      arithmetic.run (operator.lineCode target value) store := by
  rcases eval_subject operator target value store with h | ⟨result, h⟩
  · have hrun : arithmetic.run (operator.lineCode target value) store = none :=
      write_none operator.writing h
    rw [hrun, valueCode, Arithmetic.eval, h]
    rfl
  · rw [eval_valueCode htarget h, Option.map_map]
    exact congrFun Option.map_id _

/-- What the line leaves in its variable. -/
theorem get?_of_run {store last : Store} {old result : Int} (hold : store.get? target = some old)
    (h : arithmetic.eval (operator.subject target value) store = some (result, store))
    (hrun : arithmetic.run (operator.lineCode target value) store = some last) :
    operator ∉ [plus, minus, times, divide, modulo] ∧ last.get? target = some result ∨
      operator ∈ [plus, minus, times, divide, modulo] ∧
        last.get? target = arithmetic.combine operator.combining old result := by
  have hwrite : arithmetic.write target operator.writing
      (arithmetic.eval (operator.subject target value)) store = some last := hrun
  unfold Arithmetic.write at hwrite
  rw [h] at hwrite
  rcases writing_cases operator with ⟨hnot, hsymbol⟩ | ⟨hmem, hsymbol, hcombining⟩
  · rw [if_pos hsymbol] at hwrite
    obtain rfl := Option.some.inj hwrite
    exact .inl ⟨hnot, Store.get?_set_self hold⟩
  · rw [if_neg hsymbol, hcombining, hold] at hwrite
    have hcombine : (arithmetic.combine operator.combining old result).bind
        (fun new => some (store.set target new)) = some last := hwrite
    obtain ⟨new, hnew, hlast⟩ := Option.bind_eq_some_iff.mp hcombine
    obtain rfl := Option.some.inj hlast
    exact .inr ⟨hmem, (Store.get?_set_self hold).trans hnew.symm⟩

/-- The two texts of an assignment leave the same store, whatever the operator. The one that is used
as a value yields what the variable then holds exactly if the operator is not one of Kotlin's own
compound ones, or combining the old value with the operand gives the operand. -/
theorem value_text_yields_stored_iff (arithmetic : Arithmetic) (operator : AssignmentOperator)
    (target : String) (value : Expression) (htarget : assignedValue ≠ target) :
    spelling (operator.valueTokens target value) =
      (Expression.assign (.identifier target) operator value).kotlin ∧
    spelling (operator.lineTokens target value) =
      (Statement.assignment (.identifier target) operator value).kotlin ∧
    ∃ code line, readCode (operator.valueTokens target value) = some code ∧
      readLine (operator.lineTokens target value) = some line ∧
      ∀ store old, store.get? target = some old →
        (arithmetic.eval code store).map (·.2) = arithmetic.run line store ∧
        ∀ yielded last, arithmetic.eval code store = some (yielded, last) →
          (last.get? target = some yielded ↔
            (operator ∈ [plus, minus, times, divide, modulo] →
              arithmetic.combine operator.combining old yielded = some yielded)) := by
  refine ⟨operator.spelling_valueTokens target value, operator.spelling_lineTokens target value,
    _, _, operator.readCode_valueTokens target value, operator.readLine_lineTokens target value,
    fun store old hold => ⟨eval_valueCode_store htarget store, ?_⟩⟩
  intro yielded last heval
  rcases eval_subject operator target value store with h | ⟨result, h⟩
  · rw [valueCode, Arithmetic.eval, h] at heval
    cases heval
  · rw [eval_valueCode htarget h] at heval
    obtain ⟨last', hrun, heq⟩ := Option.map_eq_some_iff.mp heval
    obtain ⟨rfl, rfl⟩ := Prod.mk.inj heq
    rcases get?_of_run hold h hrun with ⟨hnot, hlast⟩ | ⟨hmem, hlast⟩
    · exact iff_of_true hlast fun hmem => absurd hmem hnot
    · rw [hlast]
      exact ⟨fun h _ => h, fun h => h hmem⟩

/-- Numbers, variables and their sums. -/
def sums : Arithmetic where
  value
    | .literal (.integer text), _ => some (decimal text)
    | .identifier x, store => store.get? x
    | _, _ => none
  combine
    | "+", a, b => some (a + b)
    | _, _, _ => none

/-- `x += 2` leaves 3 where `x` was 1, and yields 2; `x += y` yields what it stores if `x` was 0. -/
theorem addition_yields_operand :
    (Expression.assign (.identifier "x") .plus (.integer "2")).kotlin =
      "2.also \x7b `av-` -> x += `av-` \x7d" ∧
    (∃ code line, readCode (plus.valueTokens "x" (.integer "2")) = some code ∧
      readLine (plus.lineTokens "x" (.integer "2")) = some line ∧
      sums.run line [("x", 1)] = some [("x", 3)] ∧
      ∃ yielded last, sums.eval code [("x", 1)] = some (yielded, last) ∧
        last.get? "x" ≠ some yielded) ∧
    ∃ code, readCode (plus.valueTokens "x" (.identifier "y")) = some code ∧
      ∃ yielded last, sums.eval code [("x", 0), ("y", 5)] = some (yielded, last) ∧
        last.get? "x" = some yielded := by
  obtain ⟨-, -, code, line, hcode, hline, hrun⟩ :=
    value_text_yields_stored_iff sums plus "x" (.integer "2") (by decide)
  obtain ⟨-, -, code', line', hcode', -, hrun'⟩ :=
    value_text_yields_stored_iff sums plus "x" (.identifier "y") (by decide)
  obtain rfl := Option.some.inj (hcode.symm.trans (plus.readCode_valueTokens "x" (.integer "2")))
  obtain rfl := Option.some.inj (hline.symm.trans (plus.readLine_lineTokens "x" (.integer "2")))
  obtain rfl :=
    Option.some.inj (hcode'.symm.trans (plus.readCode_valueTokens "x" (.identifier "y")))
  refine ⟨rfl, ⟨_, _, hcode, hline, rfl, 2, [("x", 3)], rfl, fun hstored => ?_⟩,
    _, hcode', 5, [("x", 5), ("y", 5)], rfl, ?_⟩
  · have hcombine := ((hrun [("x", 1)] 1 rfl).2 2 [("x", 3)] rfl).mp hstored (by decide)
    exact absurd hcombine (by decide)
  · exact ((hrun' [("x", 0), ("y", 5)] 0 rfl).2 5 [("x", 5), ("y", 5)] rfl).mpr fun _ => rfl

end QuovaKotlin.Ast.AssignmentOperator
