import QuovaKotlin.Proofs.Placement
import QuovaKotlin.Proofs.Reading.Inversion
import QuovaKotlin.Reading.Types
import QuovaKotlin.Source.Grammar

/-!
# Reading settles

Reading a tree that the grammar makes can fail for one reason only: a constructor call with a
dictionary stands in it. `Settles` says this of a single reader, and `Covers` counts which children
a reader has visited, so that nothing below a node is left out.
-/

set_option autoImplicit false

namespace QuovaKotlin.Source

theorem grammar_kind (r : Rule) : grammar.kind r ≠ .compound := by
  cases r <;> exact nofun

end QuovaKotlin.Source

namespace QuovaKotlin.Reading

open Peg (Cursor ParseTree Pattern)
open Peg.Grammar (Evaluates treeOf_rule)
open Source (Rule)

variable {α β : Type} {node : Node}

/-- A constructor call with a dictionary between its braces. -/
def IsDictionaryCall (node : Node) : Prop :=
  node.rule = .constructorInvocation ∧
    ∃ list ∈ node.children, list.rule = .initializerList ∧ list.has .dictionaryEntry

/-- A constructor call with a dictionary stands in the tree, at any depth. -/
def Offends (node : Node) : Prop :=
  ∃ call, ParseTree.Within call node ∧ IsDictionaryCall call

/-- Some child made by `rule` offends. -/
def Under (node : Node) (rule : Rule) : Prop :=
  ∃ child ∈ node.children, child.rule = rule ∧ Offends child

/-- An offence stands at the node itself or under one of its children. -/
theorem offends_iff :
    Offends node ↔ IsDictionaryCall node ∨ ∃ child ∈ node.children, Offends child := by
  constructor
  · rintro ⟨call, hwithin, hcall⟩
    cases hwithin with
    | self => exact .inl hcall
    | child hmem hwithin => exact .inr ⟨_, hmem, call, hwithin, hcall⟩
  · rintro (hcall | ⟨child, hmem, call, hwithin, hcall⟩)
    · exact ⟨node, .self node, hcall⟩
    · exact ⟨call, .child hmem hwithin, hcall⟩

/-- A reader succeeds unless something in front of it `offends`, and then its error says so. -/
def Settles (offends : Prop) (r : Read α) : Prop :=
  (¬ offends → ∃ a, r = .ok a) ∧
    (offends → ∃ construct span, r = .error (.unsupported construct span))

namespace Settles

variable {p q : Prop} {r : Read α}

theorem ok (a : α) : Settles False (.ok a : Read α) :=
  ⟨fun _ => ⟨a, rfl⟩, False.elim⟩

theorem unsupported {node : Node} (hp : p) (construct : Unsupported) :
    Settles p (Reading.unsupported node construct : Read α) :=
  ⟨fun h => absurd hp h, fun _ => ⟨construct, node.span, rfl⟩⟩

theorem congr (h : Settles p r) (hpq : p ↔ q) : Settles q r :=
  propext hpq ▸ h

theorem map (f : α → β) (h : Settles p r) : Settles p (f <$> r) := by
  constructor
  · intro hp
    obtain ⟨a, rfl⟩ := h.1 hp
    exact ⟨f a, rfl⟩
  · intro hp
    obtain ⟨construct, span, rfl⟩ := h.2 hp
    exact ⟨construct, span, rfl⟩

/-- The first error ends a sequence of two readers. -/
theorem bind {f : α → Read β} (h : Settles p r) (hf : ∀ a, r = .ok a → Settles q (f a)) :
    Settles (p ∨ q) (r >>= f) := by
  by_cases hp : p
  · obtain ⟨construct, span, rfl⟩ := h.2 hp
    exact ⟨fun hnot => absurd (.inl hp) hnot, fun _ => ⟨construct, span, rfl⟩⟩
  · obtain ⟨a, rfl⟩ := h.1 hp
    refine (hf a rfl).congr ⟨.inr, ?_⟩
    rintro (hp' | hq)
    · exact absurd hp' hp
    · exact hq

theorem mapM {τ : Type} {bad : τ → Prop} {read : τ → Read α} {ts : List τ}
    (h : ∀ t ∈ ts, Settles (bad t) (read t)) : Settles (∃ t ∈ ts, bad t) (ts.mapM read) := by
  induction ts with
  | nil => exact (ok []).congr (by simp)
  | cons t ts ih =>
    rw [List.mapM_cons]
    have hrest := ih fun s hs => h s (by simp [hs])
    refine ((h t (by simp)).bind fun a _ => hrest.bind fun as _ => ok (a :: as)).congr ?_
    simp

end Settles

/-- A tree that the grammar makes from `rule`, of a bounded height. -/
structure Site (height : Nat) (rule : Rule) (node : Node) : Prop where
  made : Source.grammar.Makes node
  rule_eq : node.rule = rule
  height_le : node.height ≤ height

/-- A reader for all nodes of a rule up to a height. -/
def Handles (height : Nat) (rule : Rule) (read : Node → Read α) : Prop :=
  ∀ node, Site height rule node → Settles (Offends node) (read node)

/-- A reader visits the children made by each of `rules`, and no others. -/
def Covers (node : Node) (rules : List Rule) (r : Read α) : Prop :=
  Settles (∃ rule ∈ rules, Under node rule) r

variable {height : Nat} {rule : Rule}

theorem Site.child {child : Node} (h : Site (height + 1) rule node)
    (hmem : child ∈ node.children) : Site height child.rule child :=
  ⟨h.made.children child hmem, rfl, by
    have := ParseTree.height_child_lt hmem
    have := h.height_le
    omega⟩

theorem Site.mono {height' : Nat} (h : Site height rule node) (hle : height ≤ height') :
    Site height' rule node :=
  ⟨h.made, h.rule_eq, Nat.le_trans h.height_le hle⟩

theorem height_pos (node : Node) : 0 < node.height := by
  cases node <;> simp [ParseTree.height]

theorem not_site_zero : ¬ Site 0 rule node :=
  fun h => Nat.not_lt.mpr h.height_le (height_pos node)

theorem Handles.lower {read : Node → Read α} (h : Handles (height + 1) rule read) :
    Handles height rule read :=
  fun node hnode => h node (hnode.mono (Nat.le_succ height))

/-- Every node of `rule` has a child with the property `ok`. -/
def always (rule : Rule) (ok : Rule → Bool) : Bool :=
  Source.grammar.kind rule ≠ .atomic && (Source.grammar.body rule).provides ok

/-- No node of `rule` has a child with the property `a` and another one with the property `b`. -/
def never (rule : Rule) (a b : Rule → Bool) : Bool :=
  Source.grammar.kind rule ≠ .atomic && ! (Source.grammar.body rule).together a b

/-- At most one child of a node of `rule` is made by `r`. -/
def atMostOnce (rule r : Rule) : Bool :=
  never rule (· = r) (· = r)

/-- Exactly one child of a node of `rule` is made by `r`. -/
def exactlyOnce (rule r : Rule) : Bool :=
  always rule (· = r) && atMostOnce rule r

section Promises

variable (h : Site height rule node)

include h

theorem Site.word (hkind : Source.grammar.kind rule ≠ .atomic) :
    (Source.grammar.body rule).Word (node.children.map (·.rule)) := by
  have hword := h.made.word (h.rule_eq ▸ hkind)
  rwa [h.rule_eq] at hword

theorem Site.exists_child {ok : Rule → Bool} (hok : always rule ok) :
    ∃ child ∈ node.children, ok child.rule := by
  simp only [always, Bool.and_eq_true, decide_eq_true_eq] at hok
  obtain ⟨r, hr, hok⟩ := (h.word hok.1).provided hok.2
  obtain ⟨child, hmem, rfl⟩ := List.mem_map.mp hr
  exact ⟨child, hmem, hok⟩

/-- A node with a child of kind `a` has no other child of kind `b`. -/
theorem Site.eq_of_never {a b : Rule → Bool} (hnever : never rule a b) {s t : Node}
    (hs : s ∈ node.children) (ht : t ∈ node.children) (ha : a s.rule) (hb : b t.rule) : s = t := by
  simp only [never, Bool.and_eq_true, decide_eq_true_eq, Bool.not_eq_true'] at hnever
  have hpair := List.pairwise_map.mp ((h.word hnever.1).pairwise hnever.2)
  obtain ⟨i, hi, rfl⟩ := List.getElem_of_mem hs
  obtain ⟨j, hj, rfl⟩ := List.getElem_of_mem ht
  rw [List.pairwise_iff_getElem] at hpair
  rcases Nat.lt_trichotomy i j with hij | rfl | hij
  · exact absurd ⟨ha, hb⟩ (hpair i j hi hj hij).1
  · rfl
  · exact absurd ⟨hb, ha⟩ (hpair j i hj hi hij).2

theorem Site.child?_some {r : Rule} (hok : always rule (· = r)) :
    ∃ child, node.child? r = some child := by
  obtain ⟨child, hmem, hrule⟩ := h.exists_child hok
  exact exists_child? hmem (by simpa using hrule)

theorem Site.child?_of_always (rules : List Rule) (hok : always rule rules.contains) :
    ∃ r ∈ rules, ∃ child, node.child? r = some child := by
  obtain ⟨child, hmem, hrule⟩ := h.exists_child hok
  exact ⟨child.rule, List.contains_iff_mem.mp hrule, exists_child? hmem rfl⟩

/-- Of two kinds of children one is there, and it is not the first. -/
theorem Site.child?_of_absent {r s : Rule} (hok : always rule fun x => x = r || x = s)
    (habsent : node.child? r = none) : ∃ child, node.child? s = some child := by
  obtain ⟨child, hmem, hrule⟩ := h.exists_child hok
  simp only [Bool.or_eq_true, decide_eq_true_eq] at hrule
  rcases hrule with hrule | hrule
  · obtain ⟨other, hother⟩ := exists_child? hmem hrule
    rw [habsent] at hother
    cases hother
  · exact exists_child? hmem hrule

end Promises

theorem Site.found {r : Rule} {child : Node} (h : Site (height + 1) rule node)
    (hchild : node.child? r = some child) : Site height r child := by
  obtain ⟨hmem, rfl⟩ := mem_of_child? hchild
  exact h.child hmem

theorem not_under_of_child?_none {r : Rule} (h : node.child? r = none) : ¬ Under node r := by
  rintro ⟨child, hmem, hrule, -⟩
  have := List.find?_eq_none.mp h child hmem
  simp [hrule] at this

/-- A child of one rule excludes children of another. -/
theorem Site.absent_of_never {r s : Rule} {child : Node} (h : Site height rule node)
    (hnever : never rule (· = r) (· = s)) (hne : r ≠ s) (hchild : node.child? r = some child) :
    node.child? s = none := by
  obtain ⟨hmem, hrule⟩ := mem_of_child? hchild
  cases hother : node.child? s with
  | none => rfl
  | some other =>
    obtain ⟨hmem', hrule'⟩ := mem_of_child? hother
    have heq := h.eq_of_never hnever hmem hmem' (by simpa using hrule) (by simpa using hrule')
    rw [heq, hrule'] at hrule
    exact absurd hrule.symm hne

/-- A node with a child of kind `r` has one of kind `s` as well. -/
theorem Site.child?_of_present {r s : Rule} {child : Node} (h : Site height rule node)
    (hrequires : Source.grammar.kind rule ≠ .atomic ∧
      (Source.grammar.body rule).requires (· = r) (· = s))
    (hchild : node.child? r = some child) : ∃ other, node.child? s = some other := by
  obtain ⟨hmem, hrule⟩ := mem_of_child? hchild
  obtain ⟨x, hx, hs⟩ := (h.word hrequires.1).required hrequires.2
    ⟨r, List.mem_map.mpr ⟨child, hmem, hrule⟩, by simp⟩
  obtain ⟨other, hmem', rfl⟩ := List.mem_map.mp hx
  exact exists_child? hmem' (by simpa using hs)

/-- The only child of a rule offends exactly when something under that rule does. -/
theorem Site.under_iff {r : Rule} {child : Node} (h : Site height rule node)
    (honce : atMostOnce rule r) (hchild : node.child? r = some child) :
    Under node r ↔ Offends child := by
  obtain ⟨hmem, hrule⟩ := mem_of_child? hchild
  constructor
  · rintro ⟨other, hother, hother', hoff⟩
    rwa [← h.eq_of_never honce hother hmem (by simpa using hother') (by simpa using hrule)]
  · exact fun hoff => ⟨child, hmem, hrule, hoff⟩

theorem atMostOne_eq_none {r : Rule} {read : Node → Read α} {value : Option α}
    (h : atMostOne node r read = .ok value) : value = none ↔ node.child? r = none := by
  unfold atMostOne at h
  cases hchild : node.child? r with
  | none =>
    rw [hchild] at h
    cases h
    simp
  | some child =>
    rw [hchild] at h
    obtain ⟨a, -, rfl⟩ := map_eq_ok h
    simp

theorem listUnder_eq {r : Rule} {read : Node → Read (List α)} {child : Node}
    (h : node.child? r = some child) : listUnder node r read = read child := by
  simp only [listUnder, atMostOne, h]
  cases read child with
  | error e => rfl
  | ok values => rfl

theorem listUnder_eq_nil {r : Rule} {read : Node → Read (List α)} (h : node.child? r = none) :
    listUnder node r read = .ok [] := by
  simp only [listUnder, atMostOne, h]
  rfl

namespace Covers

variable {rules rules' : List Rule} {r : Read α}

theorem ok (a : α) : Covers node [] (.ok a : Read α) :=
  (Settles.ok a).congr (by simp)

theorem pure (a : α) : Covers node [] (Pure.pure a : Read α) :=
  ok a

theorem map (f : α → β) (h : Covers node rules r) : Covers node rules (f <$> r) :=
  Settles.map f h

theorem bind {f : α → Read β} (h : Covers node rules r)
    (hf : ∀ a, r = .ok a → Covers node rules' (f a)) :
    Covers node (rules ++ rules') (r >>= f) := by
  refine (Settles.bind h hf).congr ?_
  simp only [List.mem_append]
  constructor
  · rintro (⟨x, hx, hu⟩ | ⟨x, hx, hu⟩)
    · exact ⟨x, .inl hx, hu⟩
    · exact ⟨x, .inr hx, hu⟩
  · rintro ⟨x, hx | hx, hu⟩
    · exact .inl ⟨x, hx, hu⟩
    · exact .inr ⟨x, hx, hu⟩

/-- A rule under which nothing offends counts as visited. -/
theorem skip {x : Rule} (h : Covers node rules r) (hnone : ¬ Under node x) :
    Covers node (rules ++ [x]) r := by
  refine h.congr ?_
  simp only [List.mem_append, List.mem_singleton]
  constructor
  · rintro ⟨y, hy, hu⟩
    exact ⟨y, .inl hy, hu⟩
  · rintro ⟨y, hy | rfl, hu⟩
    · exact ⟨y, hy, hu⟩
    · exact absurd hu hnone

theorem of_settles {x : Rule} (h : Settles (Under node x) r) : Covers node [x] r :=
  h.congr (by simp)

variable {read : Node → Read α} {x : Rule}

theorem each (h : Site (height + 1) rule node) (hread : Handles height x read) :
    Covers node [x] (Reading.each node x read) := by
  have hmem {child : Node} : child ∈ node.childrenOf x ↔
      child ∈ node.children ∧ child.rule = x := by
    simp [ParseTree.childrenOf]
  have hsettles : ∀ child ∈ node.childrenOf x, Settles (Offends child) (read child) := by
    intro child hchild
    obtain ⟨hchild', rfl⟩ := hmem.mp hchild
    exact hread child (h.child hchild')
  refine of_settles ((Settles.mapM hsettles).congr ?_)
  simp only [hmem, and_assoc, Under]

/-- The only child of a rule, once it has been found. -/
theorem visit {child : Node} (h : Site (height + 1) rule node) (honce : atMostOnce rule x)
    (hchild : node.child? x = some child) (hread : Settles (Offends child) r) :
    Covers node [x] r :=
  of_settles (hread.congr (h.under_iff honce hchild).symm)

theorem atMostOne (h : Site (height + 1) rule node) (honce : atMostOnce rule x)
    (hread : Handles height x read) : Covers node [x] (Reading.atMostOne node x read) := by
  unfold Reading.atMostOne
  cases hchild : node.child? x with
  | none => exact of_settles ((Settles.ok none).congr (by simp [not_under_of_child?_none hchild]))
  | some child => exact visit h honce hchild ((hread child (h.found hchild)).map some)

/-- A child that is known to be there. -/
theorem present (h : Site (height + 1) rule node) (honce : atMostOnce rule x)
    (hsome : ∃ child, node.child? x = some child) (hread : Handles height x read) :
    Covers node [x] (Reading.one node x read) := by
  obtain ⟨child, hchild⟩ := hsome
  simp only [Reading.one, Reading.required, hchild]
  exact visit h honce hchild (hread child (h.found hchild))

/-- A child of one of two rules, never of both. -/
theorem either {s : Rule} {f : Node → Read α} {rest : List Rule} (h : Site height rule node)
    (hor : always rule fun y => y = x || y = s) (hnever : never rule (· = x) (· = s))
    (hne : x ≠ s)
    (hsome : ∀ child, node.child? x = some child → Covers node (x :: rest) (f child))
    (hnone : (∃ child, node.child? s = some child) → Covers node (s :: rest) r) :
    Covers node (x :: s :: rest) (match node.child? x with
      | some child => f child
      | none => r) := by
  cases hchild : node.child? x with
  | some child =>
    have hs : ¬ Under node s := not_under_of_child?_none (h.absent_of_never hnever hne hchild)
    refine (hsome child hchild).congr ?_
    simp [hs]
  | none =>
    have hx : ¬ Under node x := not_under_of_child?_none hchild
    refine (hnone (h.child?_of_absent hor hchild)).congr ?_
    simp [hx]

theorem one (h : Site (height + 1) rule node) (hone : exactlyOnce rule x)
    (hread : Handles height x read) : Covers node [x] (Reading.one node x read) := by
  simp only [exactlyOnce, Bool.and_eq_true] at hone
  exact present h hone.2 (h.child?_some hone.1) hread

theorem listUnder {read : Node → Read (List α)} (h : Site (height + 1) rule node)
    (honce : atMostOnce rule x) (hread : Handles height x read) :
    Covers node [x] (Reading.listUnder node x read) :=
  (atMostOne h honce hread).bind fun _ _ => .pure _

theorem textOf (h : Site (height + 1) rule node) (halways : always rule (· = x)) :
    Covers node [] (Reading.textOf node x) := by
  obtain ⟨child, hchild⟩ := h.child?_some halways
  simp only [Reading.textOf, Reading.required, hchild]
  exact (Covers.ok child).map _

theorem nameOf (h : Site (height + 1) rule node)
    (halways : always rule (· = .simpleIdentifier)) : Covers node [] (Reading.nameOf node) :=
  textOf h halways

end Covers

/-- Rules under which no expression can stand: words, types and headers. -/
def isInert (rule : Rule) : Bool :=
  Source.grammar.kind rule = .atomic || [
    .endOfInput, .packageHeader, .importHeader, .importAll, .importList, .importAlias,
    .enumAssign, .enumShift, .throwsClause, .ellipsis, .typeUse, .nullable, .emptyDimension,
    .primitiveType, .userType, .functionType, .functionTypeParameters, .typeArguments,
    .typeArgument, .wildcard, .typeOrVar, .typeOrVoid, .emptyStatement, .jumpLabel, .callSuffix,
    .castOperator, .safeCast, .conditionKind, .superLiteral].contains rule

theorem isInert_closed (rule : Rule) (h : isInert rule) :
    (Source.grammar.body rule).rules.all isInert := by
  cases rule <;> first | rfl | cases h

theorem not_offends_of_inert (hmade : Source.grammar.Makes node) (hinert : isInert node.rule) :
    ¬ Offends node := by
  rintro ⟨call, hwithin, hcall⟩
  induction hwithin with
  | self =>
    rw [hcall.1] at hinert
    cases hinert
  | @child t child hmem _ ih =>
    refine ih (hmade.children child hmem) ?_
    by_cases hkind : Source.grammar.kind t.rule = .atomic
    · obtain ⟨w, -, -, hnil⟩ := hmade.reads hkind
      rw [hnil] at hmem
      cases hmem
    · have hall := isInert_closed t.rule hinert
      have hrule := (hmade.word hkind).mem_rules child.rule (List.mem_map_of_mem hmem)
      exact List.all_eq_true.mp hall child.rule hrule

/-- Every child of a node of `rule` is made by one of `rules` or holds no expression. -/
def covered (rule : Rule) (rules : List Rule) : Bool :=
  Source.grammar.kind rule ≠ .atomic &&
    (Source.grammar.body rule).rules.all fun r => isInert r || rules.contains r

theorem Site.exists_under {rules : List Rule} (h : Site height rule node)
    (hcovered : covered rule rules) :
    (∃ child ∈ node.children, Offends child) ↔ ∃ x ∈ rules, Under node x := by
  simp only [covered, Bool.and_eq_true, decide_eq_true_eq] at hcovered
  obtain ⟨hkind, hall⟩ := hcovered
  constructor
  · rintro ⟨child, hmem, hoff⟩
    have hchild := (h.word hkind).mem_rules child.rule (List.mem_map_of_mem hmem)
    rcases Bool.or_eq_true_iff.mp (List.all_eq_true.mp hall child.rule hchild) with hin | hin
    · exact absurd hoff (not_offends_of_inert (h.made.children child hmem) hin)
    · exact ⟨child.rule, List.contains_iff_mem.mp hin, child, hmem, rfl, hoff⟩
  · rintro ⟨x, -, child, hmem, -, hoff⟩
    exact ⟨child, hmem, hoff⟩

/-- Apart from constructor calls a node offends only through its children. -/
theorem Site.offends_iff_child (h : Site height rule node) (hrule : rule ≠ .constructorInvocation) :
    Offends node ↔ ∃ child ∈ node.children, Offends child := by
  have hcall : ¬ IsDictionaryCall node := fun hcall => hrule (h.rule_eq ▸ hcall.1)
  rw [offends_iff]
  simp only [hcall, false_or]

/-- A reader that visits all children where an expression can stand settles its node. -/
theorem Covers.settles {rules : List Rule} {r : Read α} (hc : Covers node rules r)
    (h : Site height rule node)
    (hcovered : rule ≠ .constructorInvocation ∧ covered rule rules) : Settles (Offends node) r :=
  hc.congr ((h.exists_under hcovered.2).symm.trans (h.offends_iff_child hcovered.1).symm)

theorem Site.not_offends (h : Site height rule node) (hinert : isInert rule) : ¬ Offends node :=
  not_offends_of_inert h.made (h.rule_eq ▸ hinert)

theorem Site.not_under_inert {r : Rule} (h : Site height rule node) (hinert : isInert r) :
    ¬ Under node r := by
  rintro ⟨child, hmem, rfl, hoff⟩
  exact not_offends_of_inert (h.made.children child hmem) hinert hoff

/-- Of the words of one rule only the first is read, which is enough. -/
theorem Covers.word {r : Rule} {read : Node → Read α} (h : Site (height + 1) rule node)
    (hinert : isInert r) (hread : Handles height r read) :
    Covers node [] (Reading.atMostOne node r read) := by
  unfold Reading.atMostOne
  cases hchild : node.child? r with
  | none => exact Covers.ok none
  | some child =>
    have hnone := (h.found hchild).not_offends hinert
    exact ((hread child (h.found hchild)).map some).congr (by simpa using hnone)

/-- The first child, whose rule is one that a word can start with. -/
theorem Site.first_child (h : Site height rule node) (halways : always rule fun _ => true) :
    ∃ child rest, node.children = child :: rest ∧
      child.rule ∈ (Source.grammar.body rule).heads := by
  obtain ⟨child, hmem, -⟩ := h.exists_child halways
  simp only [always, Bool.and_eq_true, decide_eq_true_eq] at halways
  have hword := h.word halways.1
  cases hchildren : node.children with
  | nil =>
    rw [hchildren] at hmem
    cases hmem
  | cons child rest =>
    rw [hchildren] at hword
    exact ⟨child, rest, rfl, hword.head_mem child.rule (by simp)⟩

/-- Every node of `rule` has exactly one child. -/
def single (rule : Rule) : Bool :=
  rule ≠ .constructorInvocation && Source.grammar.kind rule ≠ .atomic &&
    (Source.grammar.body rule).isFinite &&
    (Source.grammar.body rule).allWords.all fun ws => ws.length = 1

theorem Site.only_child (h : Site height rule node) (hsingle : single rule) :
    ∃ child, node.children = [child] ∧ child.rule ∈ (Source.grammar.body rule).rules ∧
      (Offends node ↔ Offends child) := by
  simp only [single, Bool.and_eq_true, decide_eq_true_eq] at hsingle
  obtain ⟨⟨⟨hrule, hkind⟩, hfinite⟩, hlength⟩ := hsingle
  have hword := h.word hkind
  have hlen := List.all_eq_true.mp hlength _ (hword.mem_allWords hfinite)
  simp only [List.length_map, decide_eq_true_eq] at hlen
  obtain ⟨child, hchildren⟩ := List.length_eq_one_iff.mp hlen
  refine ⟨child, hchildren, hword.mem_rules _ (by simp [hchildren]), ?_⟩
  simp [h.offends_iff_child hrule, hchildren]

/-- A table knows every text of a rule for words or symbols. -/
def knows (rule : Rule) (table : String → Option α) : Bool :=
  Source.grammar.kind rule = .atomic && (Source.grammar.body rule).isListed &&
    (Source.grammar.body rule).texts.all fun w => (table (.ofList w)).isSome

theorem handles_meaning {table : String → Option α} (hknows : knows rule table) :
    Handles height rule (meaning table) := by
  intro node hnode
  simp only [knows, Bool.and_eq_true, decide_eq_true_eq] at hknows
  obtain ⟨⟨hkind, hlisted⟩, htable⟩ := hknows
  have hatomic : Source.grammar.kind node.rule = .atomic := by rw [hnode.rule_eq, hkind]
  obtain ⟨w, htext, hreads, -⟩ := hnode.made.reads hatomic
  rw [hnode.rule_eq] at hreads
  obtain ⟨a, ha⟩ := Option.isSome_iff_exists.mp
    (List.all_eq_true.mp htable w (hreads.spells.mem_texts hlisted))
  have hinert : isInert node.rule := by simp [isInert, hatomic]
  simp only [meaning, htext, ha]
  exact (Settles.ok a).congr (by simp [not_offends_of_inert hnode.made hinert])

theorem site_of_evaluates {c d : Cursor}
    (h : Evaluates Source.grammar {} (.rule rule) c (some ([node], d))) :
    Site node.height rule node := by
  obtain ⟨inner, hnode, -⟩ := h.of_rule Source.grammar_kind
  refine ⟨(h.makes rfl _ _ rfl).2 node List.mem_cons_self, ?_, Nat.le_refl _⟩
  rw [(List.cons.inj hnode).1, treeOf_rule]

/-- Where a match ends with `r`, the only child made by `r` is matched up to its end. -/
theorem evaluates_lastChild {r : Rule} {p : Pattern Rule} {c d : Cursor} {child : Node}
    (hsite : Site height rule node)
    (h : Evaluates Source.grammar {} p c (some (node.children, d))) (hlast : p.lastRule? = some r)
    (honce : atMostOnce rule r) (hmem : child ∈ node.children) (hrule : child.rule = r) :
    ∃ e, Evaluates Source.grammar {} (.rule r) e (some ([child], d)) := by
  obtain ⟨us, vs, e, hchildren, hend⟩ := h.of_lastRule hlast
  obtain ⟨inner, rfl, -⟩ := hend.of_rule Source.grammar_kind
  have hmem' : Source.grammar.treeOf r e d inner ∈ node.children := by
    rw [hchildren]
    exact List.mem_append_right us List.mem_cons_self
  have heq : child = Source.grammar.treeOf r e d inner :=
    hsite.eq_of_never honce hmem hmem' (decide_eq_true hrule)
      (decide_eq_true (treeOf_rule Source.grammar r e d inner))
  exact ⟨e, by rw [heq]; exact hend⟩

end QuovaKotlin.Reading
