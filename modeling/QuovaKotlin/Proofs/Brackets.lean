import QuovaKotlin.Text.Join

/-!
# Nested brackets

A text is nested when its round, curly and square brackets come in pairs, one inside the other or
one behind the other. `scan` reads a text with the brackets that are still open on a stack. A text
that leaves every stack as it finds it is `Balanced`; such texts can be put together piece by piece,
with literal pieces that open and close brackets around them.
-/

set_option autoImplicit false

namespace QuovaKotlin.Text

/-- The bracket that closes another one. -/
def closer? : Char → Option Char
  | '(' => some ')'
  | '\x7b' => some '\x7d'
  | '[' => some ']'
  | _ => none

def isBracket (c : Char) : Bool :=
  c ∈ ['(', ')', '\x7b', '\x7d', '[', ']']

/-- Brackets come in pairs, one inside the other or one behind the other. -/
inductive Nested : List Char → Prop
  | nil : Nested []
  | plain {c : Char} : isBracket c = false → Nested [c]
  | enclosed {c d : Char} {u : List Char} : closer? c = some d → Nested u →
      Nested (c :: (u ++ [d]))
  | append {u v : List Char} : Nested u → Nested v → Nested (u ++ v)

/-- No bracket stands in the text. -/
def BracketFree (text : String) : Prop :=
  ∀ c ∈ text.toList, isBracket c = false

instance (text : String) : Decidable (BracketFree text) :=
  List.decidableBAll (fun c => isBracket c = false) text.toList

/-- Reads a text with a stack of open brackets, and fails where a bracket closes no other one. -/
def scan : List Char → List Char → Option (List Char)
  | stack, [] => some stack
  | stack, c :: rest =>
    if (closer? c).isSome then scan (c :: stack) rest
    else if isBracket c then
      match stack with
      | [] => none
      | last :: stack => if closer? last = some c then scan stack rest else none
    else scan stack rest

theorem scan_append (stack u v : List Char) :
    scan stack (u ++ v) = (scan stack u).bind (scan · v) := by
  induction u generalizing stack with
  | nil => rfl
  | cons c u ih =>
    simp only [List.cons_append, scan]
    split
    · exact ih (c :: stack)
    · split
      · cases stack with
        | nil => rfl
        | cons last stack =>
          dsimp only
          split
          · exact ih stack
          · rfl
      · exact ih stack

/-- The text closes all brackets of a stack, one after the other, with nested texts between. -/
def Closes : List Char → List Char → Prop
  | [], text => Nested text
  | last :: stack, text => ∃ u d v, text = u ++ d :: v ∧ closer? last = some d ∧ Nested u ∧
      Closes stack v

theorem Closes.append {stack w text : List Char} (hw : Nested w) (h : Closes stack text) :
    Closes stack (w ++ text) := by
  cases stack with
  | nil => exact Nested.append hw h
  | cons last stack =>
    obtain ⟨u, d, v, rfl, hd, hu, hv⟩ := h
    exact ⟨w ++ u, d, v, (List.append_assoc w u _).symm, hd, .append hw hu, hv⟩

theorem closes_of_scan {stack text : List Char} (h : scan stack text = some []) :
    Closes stack text := by
  induction text generalizing stack with
  | nil =>
    cases h
    exact .nil
  | cons c rest ih =>
    unfold scan at h
    split at h
    · next hopen =>
      obtain ⟨d, hd⟩ := Option.isSome_iff_exists.mp hopen
      obtain ⟨u, d', v, rfl, hd', hu, hv⟩ := ih h
      cases hd.symm.trans hd'
      have hpair : c :: (u ++ d :: v) = c :: (u ++ [d]) ++ v := by simp
      rw [hpair]
      exact hv.append (.enclosed hd hu)
    · split at h
      · split at h
        · cases h
        · next last stack =>
          split at h
          · next hlast => exact ⟨[], c, rest, rfl, hlast, .nil, ih h⟩
          · cases h
      · next hplain =>
        exact (ih h).append (.plain (Bool.eq_false_iff.mpr hplain))

/-- Whatever is open in front of the text is open behind it, and nothing else. -/
abbrev Balanced (text : String) : Prop :=
  ∀ stack, scan stack text.toList = some stack

theorem Balanced.nested {text : String} (h : Balanced text) : Nested text.toList :=
  closes_of_scan (h [])

theorem scan_toList_append (stack : List Char) (s t : String) :
    scan stack (s ++ t).toList = (scan stack s.toList).bind (scan · t.toList) := by
  rw [String.toList_append, scan_append]

theorem BracketFree.balanced {text : String} (h : BracketFree text) : Balanced text := by
  intro stack
  unfold BracketFree at h
  generalize text.toList = chars at h
  induction chars with
  | nil => rfl
  | cons c rest ih =>
    have hc := h c List.mem_cons_self
    have hopen : (closer? c).isSome = false := by
      unfold closer?
      split <;> first | rfl | simp [isBracket] at hc
    simp only [scan, hopen, hc, Bool.false_eq_true, if_false]
    exact ih fun d hd => h d (List.mem_cons_of_mem c hd)

theorem Balanced.append {s t : String} (hs : Balanced s) (ht : Balanced t) :
    Balanced (s ++ t) := by
  intro stack
  rw [scan_toList_append, hs, Option.bind_some, ht]

theorem balanced_empty : Balanced "" :=
  fun _ => rfl

theorem scan_frame {stack stack' chars : List Char} (h : scan stack chars = some stack')
    (below : List Char) : scan (stack ++ below) chars = some (stack' ++ below) := by
  induction chars generalizing stack with
  | nil =>
    cases h
    rfl
  | cons c chars ih =>
    unfold scan at h ⊢
    split at h
    · next hopen =>
      rw [if_pos hopen]
      exact ih h
    · next hopen =>
      rw [if_neg hopen]
      split at h
      · next hclose =>
        rw [if_pos hclose]
        split at h
        · cases h
        · next last stack =>
          split at h
          · next hlast =>
            show (if closer? last = some c then scan (stack ++ below) chars else none) = _
            rw [if_pos hlast]
            exact ih h
          · cases h
      · next hclose =>
        rw [if_neg hclose]
        exact ih h

/-- The brackets that are open behind a text, whatever is open in front of it. A text that opens none
is balanced, by definition. -/
def Opens (stack : List Char) (text : String) : Prop :=
  ∀ below, scan below text.toList = some (stack ++ below)

namespace Opens

variable {stack stack' : List Char} {s t : String}

theorem start (s : String) (h : scan [] s.toList = some stack) : Opens stack s :=
  scan_frame h

theorem mark (hs : Opens stack s) (t : String) (ht : scan stack t.toList = some stack') :
    Opens stack' (s ++ t) := by
  intro below
  rw [scan_toList_append, hs below, Option.bind_some, scan_frame ht]

theorem text (hs : Opens stack s) (ht : Balanced t) : Opens stack (s ++ t) := by
  intro below
  rw [scan_toList_append, hs below, Option.bind_some, ht]

end Opens

theorem Balanced.mark {s : String} {stack : List Char} (hs : Balanced s) (t : String)
    (ht : scan [] t.toList = some stack) : Opens stack (s ++ t) :=
  have opened : Opens [] s := hs
  opened.mark t ht

theorem Balanced.parens {s : String} (hs : Balanced s) : Balanced ("(" ++ s ++ ")") :=
  Opens.start "(" rfl |>.text hs |>.mark ")" rfl

theorem Balanced.ite {s t : String} {condition : Prop} [Decidable condition] (hs : Balanced s)
    (ht : Balanced t) : Balanced (if condition then s else t) := by
  split
  · exact hs
  · exact ht

theorem Balanced.onlyIf {s : String} (condition : Bool) (hs : Balanced s) :
    Balanced (Text.onlyIf condition s) :=
  hs.ite balanced_empty

theorem Balanced.copies {s : String} (n : Nat) (hs : Balanced s) :
    Balanced (Text.copies n s) := by
  induction n with
  | zero => exact balanced_empty
  | succ n ih => exact hs.append ih

/-- No bracket stands in any of the texts. -/
abbrev AllFree (texts : List String) : Prop :=
  ∀ text ∈ texts, BracketFree text

def AllBalanced (texts : List String) : Prop :=
  ∀ text ∈ texts, Balanced text

namespace AllBalanced

variable {texts : List String}

theorem nil : AllBalanced [] := by
  intro text htext
  cases htext

theorem cons {s : String} (hs : Balanced s) (h : AllBalanced texts) : AllBalanced (s :: texts) := by
  intro text htext
  rcases List.mem_cons.mp htext with rfl | htext
  · exact hs
  · exact h text htext

theorem head {s : String} (h : AllBalanced (s :: texts)) : Balanced s :=
  h s List.mem_cons_self

theorem tail {s : String} (h : AllBalanced (s :: texts)) : AllBalanced texts :=
  fun text htext => h text (List.mem_cons_of_mem s htext)

theorem map {α : Type} {f : α → String} {xs : List α} (h : ∀ x ∈ xs, Balanced (f x)) :
    AllBalanced (xs.map f) := by
  intro text htext
  obtain ⟨x, hx, rfl⟩ := List.mem_map.mp htext
  exact h x hx

/-- The texts of a list, made by a recursion over the list. -/
theorem each {α : Type} {text : α → String} {texts : List α → List String} (hnil : texts [] = [])
    (hcons : ∀ x xs, texts (x :: xs) = text x :: texts xs) {xs : List α}
    (h : ∀ x ∈ xs, Balanced (text x)) : AllBalanced (texts xs) := by
  rw [Text.each_eq_map hnil hcons]
  exact map h

theorem joinWith {separator : String} (hseparator : Balanced separator) (h : AllBalanced texts) :
    Balanced (Text.joinWith separator texts) := by
  induction texts with
  | nil => exact balanced_empty
  | cons s texts ih =>
    cases texts with
    | nil => exact h.head
    | cons t texts => exact (h.head.append hseparator).append (ih h.tail)

theorem commas (h : AllBalanced texts) : Balanced (Text.commas texts) :=
  h.joinWith fun _ => rfl

theorem lines (h : AllBalanced texts) : Balanced (Text.lines texts) :=
  h.joinWith fun _ => rfl

theorem endEach {terminator : String} (hterminator : Balanced terminator) (h : AllBalanced texts) :
    Balanced (Text.endEach terminator texts) := by
  induction texts with
  | nil => exact balanced_empty
  | cons s texts ih => exact (h.head.append hterminator).append (ih h.tail)

end AllBalanced

end QuovaKotlin.Text
