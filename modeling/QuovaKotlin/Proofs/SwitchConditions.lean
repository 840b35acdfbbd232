import QuovaKotlin.Proofs.PrintedParts
import QuovaKotlin.Proofs.Reading.File
import QuovaKotlin.Proofs.Reading.FileOrigins
import QuovaKotlin.Proofs.Reading.FileAlike

/-!
# The conditions of a switch branch

The conditions of a branch stand in one row: a keyword says what kind the values behind it are, up
to the next keyword. In a parse tree each keyword opens a level of its own inside the level before
it. The conditions that are read are the values of the row, each of the kind of the nearest keyword
in front of it, and the head of the branch in Kotlin lists them in the same order.
-/

set_option autoImplicit false

namespace QuovaKotlin.Ast

/-- How a source file announces conditions of a kind. -/
def ConditionKind.keyword : ConditionKind → String
  | case => "case"
  | inside false => "in"
  | inside true => "!in"
  | ofType false => "instanceof"
  | ofType true => "!instanceof"

/-- What Kotlin writes in front of each value of a kind. -/
def ConditionKind.mark : ConditionKind → String
  | case => ""
  | inside false => "in "
  | inside true => "!in "
  | ofType false => "is "
  | ofType true => "!is "

theorem ConditionKind.keyword_injective : Function.Injective ConditionKind.keyword := by
  intro kind other h
  rcases kind with _ | ⟨_ | _⟩ | ⟨_ | _⟩ <;> rcases other with _ | ⟨_ | _⟩ | ⟨_ | _⟩ <;>
    first | rfl | exact absurd h (by decide)

theorem Condition.kotlin_eq (condition : Condition) :
    condition.kotlin = condition.kind.mark ++ condition.value.kotlin := by
  obtain ⟨kind, value⟩ := condition
  show kind.before value.kotlin = kind.mark ++ value.kotlin
  generalize value.kotlin = text
  rcases kind with _ | ⟨_ | _⟩ | ⟨_ | _⟩ <;>
    simp [ConditionKind.before, ConditionKind.mark, Text.onlyIf]

theorem Condition.kotlinEach_eq (conditions : List Condition) :
    Condition.kotlinEach conditions =
      conditions.map fun condition => condition.kind.mark ++ condition.value.kotlin := by
  rw [Condition.kotlinEach_eq_map]
  exact List.map_congr_left fun condition _ => condition.kotlin_eq

end QuovaKotlin.Ast

namespace QuovaKotlin.Reading

open Ast Peg Peg.Grammar Source

mutual

/-- The keywords and the values of a chain of conditions in one row: every level stands in the
place where it is nested. -/
def conditionRow : Node → List Node
  | .token .. => []
  | .node _ _ children => conditionRowAll children

def conditionRowAll : List Node → List Node
  | [] => []
  | child :: rest =>
    (if child.rule = .switchCondition then conditionRow child else [child]) ++ conditionRowAll rest

end

/-- The nearest keyword before what follows `front`. -/
def nearestKeyword (front : List Node) : Option Node :=
  front.reverse.find? (·.rule = .conditionKind)

/-- The values of a row that follows `front`, each behind the nearest keyword before it. -/
def labelled (front : List Node) : List Node → List (Option Node × Node)
  | [] => []
  | item :: row =>
    if item.rule = .expression then
      (nearestKeyword front, item) :: labelled (front ++ [item]) row
    else labelled (front ++ [item]) row

/-- A condition is what a value and the keyword before it say. -/
def Represents (item : Option Node × Node) (condition : Condition) : Prop :=
  (∃ keyword ∈ item.1, keyword.children.map (·.text) = [condition.kind.keyword]) ∧
    ∃ height, (Readers.ofHeight height).expression item.2 = .ok condition.value

theorem conditionRow_eq (node : Node) :
    conditionRow node = node.children.flatMap fun child =>
      if child.rule = .switchCondition then conditionRow child else [child] := by
  have hall : ∀ children : List Node, conditionRowAll children = children.flatMap fun child =>
      if child.rule = .switchCondition then conditionRow child else [child] := by
    intro children
    induction children with
    | nil => rfl
    | cons child rest ih => rw [conditionRowAll, ih, List.flatMap_cons]
  cases node with
  | token => rfl
  | node rule span children => exact hall children

/-- One level of a chain: its keyword, its values and the level nested behind them. -/
structure IsLevel (node keyword : Node) (values : List Node) (next : Option Node) : Prop where
  children_eq : node.children = keyword :: (values ++ next.toList)
  keyword_rule : keyword.rule = .conditionKind
  values_rule : ∀ value ∈ values, value.rule = .expression
  next_rule : ∀ level ∈ next, level.rule = .switchCondition

theorem Site.isLevel {height : Nat} {node : Node} (h : Site height .switchCondition node) :
    ∃ keyword values next, IsLevel node keyword values next := by
  obtain ⟨_, _, hrules, rfl, _, _, rfl, rfl, _, ws, rfl, ⟨rounds, rfl, hrounds⟩, hnext⟩ :=
    h.word (by decide)
  -- Each round of the repetition leaves one value; its lookahead leaves nothing.
  have hround : ∀ rule ∈ rounds.flatten, rule = .expression := by
    intro rule hrule
    obtain ⟨round, hmem, hrule⟩ := List.mem_flatten.mp hrule
    obtain ⟨_, _, rfl, rfl, _, _, rfl, rfl, rfl⟩ := hrounds round hmem
    exact List.mem_singleton.mp hrule
  simp only [List.singleton_append] at hrules
  obtain ⟨keyword, _, hchildren, hkeyword, hrest⟩ := List.map_eq_cons_iff.mp hrules
  obtain ⟨value, _, rfl, hvalue, hrest⟩ := List.map_eq_cons_iff.mp hrest
  obtain ⟨values, behind, rfl, hvalues, rfl⟩ := List.map_eq_append_iff.mp hrest
  have hexpression : ∀ v ∈ value :: values, v.rule = .expression := by
    intro v hv
    rcases List.mem_cons.mp hv with rfl | hv
    · exact hvalue
    · exact hround v.rule (hvalues ▸ List.mem_map_of_mem hv)
  rcases hnext with hnone | ⟨_, _, hsome, rfl, rfl⟩
  · obtain rfl := List.map_eq_nil_iff.mp hnone
    exact ⟨keyword, value :: values, none, hchildren, hkeyword, hexpression, nofun⟩
  · obtain ⟨level, rfl, hlevel⟩ := List.map_eq_singleton_iff.mp hsome
    refine ⟨keyword, value :: values, some level, hchildren, hkeyword, hexpression, ?_⟩
    rintro _ ⟨⟩
    exact hlevel

namespace IsLevel

variable {node keyword : Node} {values : List Node} {next : Option Node}
  (h : IsLevel node keyword values next)

include h

theorem child?_keyword : node.child? .conditionKind = some keyword := by
  rw [ParseTree.child?, h.children_eq, List.find?_cons_of_pos (by simpa using h.keyword_rule)]

theorem childrenOf_expression : node.childrenOf .expression = values := by
  have hvalues : values.filter (·.rule = .expression) = values :=
    List.filter_eq_self.mpr fun value hvalue => decide_eq_true (h.values_rule value hvalue)
  have hnext : next.toList.filter (·.rule = .expression) = [] := by
    refine List.filter_eq_nil_iff.mpr fun level hlevel => ?_
    rw [h.next_rule level (Option.mem_toList.mp hlevel)]
    decide
  rw [ParseTree.childrenOf, h.children_eq, List.filter_cons_of_neg (by simp [h.keyword_rule]),
    List.filter_append, hvalues, hnext, List.append_nil]

theorem child?_next : node.child? .switchCondition = next := by
  have hvalues : values.find? (·.rule = .switchCondition) = none := by
    refine List.find?_eq_none.mpr fun value hvalue => ?_
    rw [h.values_rule value hvalue]
    decide
  rw [ParseTree.child?, h.children_eq, List.find?_cons_of_neg (by simp [h.keyword_rule]),
    List.find?_append, hvalues, Option.none_or]
  cases hlevel : next with
  | none => rfl
  | some level => exact List.find?_cons_of_pos (by simpa using h.next_rule level hlevel)

theorem conditionRow_eq :
    conditionRow node = keyword :: (values ++ next.toList.flatMap conditionRow) := by
  have hvalues : values.flatMap (fun child =>
      if child.rule = .switchCondition then conditionRow child else [child]) = values := by
    refine (List.flatMap_congr fun value hvalue => ?_).trans (List.flatMap_singleton' values)
    rw [h.values_rule value hvalue, if_neg (by decide)]
  have hnext : next.toList.flatMap (fun child =>
      if child.rule = .switchCondition then conditionRow child else [child]) =
      next.toList.flatMap conditionRow := by
    refine List.flatMap_congr fun level hlevel => ?_
    rw [if_pos (h.next_rule level (Option.mem_toList.mp hlevel))]
  rw [Reading.conditionRow_eq, h.children_eq, List.flatMap_cons, if_neg (by simp [h.keyword_rule]),
    List.flatMap_append, hvalues, hnext, List.singleton_append]

end IsLevel

theorem nearestKeyword_append {front behind : List Node}
    (h : ∀ item ∈ behind, item.rule ≠ .conditionKind) :
    nearestKeyword (front ++ behind) = nearestKeyword front := by
  have hnone : behind.reverse.find? (·.rule = .conditionKind) = none :=
    List.find?_eq_none.mpr fun item hitem => by simpa using h item (List.mem_reverse.mp hitem)
  rw [nearestKeyword, List.reverse_append, List.find?_append, hnone, Option.none_or]
  rfl

theorem nearestKeyword_concat (front : List Node) {keyword : Node}
    (h : keyword.rule = .conditionKind) : nearestKeyword (front ++ [keyword]) = some keyword := by
  rw [nearestKeyword, List.reverse_concat, List.find?_cons_of_pos (by simpa using h)]

/-- Values in a row have the keyword before the first of them. -/
theorem labelled_values {front values row : List Node}
    (h : ∀ value ∈ values, value.rule = .expression) :
    labelled front (values ++ row) =
      values.map (nearestKeyword front, ·) ++ labelled (front ++ values) row := by
  induction values generalizing front with
  | nil => simp
  | cons value values ih =>
    have hvalue := h value List.mem_cons_self
    have hnearest : nearestKeyword (front ++ [value]) = nearestKeyword front :=
      nearestKeyword_append (by simp [hvalue])
    rw [List.cons_append, labelled, if_pos hvalue,
      ih fun v hv => h v (List.mem_cons_of_mem value hv), hnearest, List.map_cons,
      List.append_assoc, List.singleton_append, List.cons_append]

theorem labelled_congr {front front' row : List Node}
    (h : nearestKeyword front = nearestKeyword front') :
    labelled front row = labelled front' row := by
  induction row generalizing front front' with
  | nil => rfl
  | cons item row ih =>
    have hnext : nearestKeyword (front ++ [item]) = nearestKeyword (front' ++ [item]) := by
      by_cases hitem : item.rule = .conditionKind
      · rw [nearestKeyword_concat _ hitem, nearestKeyword_concat _ hitem]
      · rw [nearestKeyword_append (by simpa using hitem),
          nearestKeyword_append (by simpa using hitem), h]
    rw [labelled, labelled, ih hnext, h]

/-- What stands before a keyword says nothing about the values behind it. -/
theorem labelled_keyword {front row : List Node} {keyword : Node}
    (h : keyword.rule = .conditionKind) :
    labelled front (keyword :: row) = labelled [keyword] row := by
  have hnearest : nearestKeyword [keyword] = some keyword := nearestKeyword_concat [] h
  rw [labelled, if_neg (by simp [h])]
  exact labelled_congr ((nearestKeyword_concat front h).trans hnearest.symm)

theorem IsLevel.labelled_eq {node keyword : Node} {values : List Node} {next : Option Node}
    {height : Nat} (h : IsLevel node keyword values next)
    (hnext : ∀ level ∈ next, Site height .switchCondition level) (front : List Node) :
    labelled front (conditionRow node) =
      values.map (some keyword, ·) ++
        next.toList.flatMap fun level => labelled [] (conditionRow level) := by
  have hnearest : nearestKeyword [keyword] = some keyword :=
    nearestKeyword_concat [] h.keyword_rule
  rw [h.conditionRow_eq, labelled_keyword h.keyword_rule, labelled_values h.values_rule, hnearest,
    List.append_cancel_left_eq]
  cases next with
  | none => rfl
  | some level =>
    obtain ⟨keyword', values', next', hlevel⟩ := (hnext level rfl).isLevel
    simp only [Option.toList_some, List.flatMap_cons, List.flatMap_nil, List.append_nil]
    rw [hlevel.conditionRow_eq, labelled_keyword hlevel.keyword_rule,
      labelled_keyword hlevel.keyword_rule]

theorem expression_of_le {height height' : Nat} {node : Node} {value : Expression}
    (h : (Readers.ofHeight height).expression node = .ok value) (hle : height ≤ height') :
    (Readers.ofHeight height').expression node = .ok value :=
  (carries_ofHeight hle).expression rfl h

theorem exists_mapM_expression {nodes : List Node} {values : List Expression} :
    (∃ height, nodes.mapM (Readers.ofHeight height).expression = .ok values) ↔
      List.Forall₂ (fun node value =>
        ∃ height, (Readers.ofHeight height).expression node = .ok value) nodes values := by
  constructor
  · rintro ⟨height, h⟩
    exact (mapM_eq_ok_iff.mp h).imp fun _ _ hread => ⟨height, hread⟩
  · intro h
    simp only [mapM_eq_ok_iff]
    induction h with
    | nil => exact ⟨0, .nil⟩
    | cons hhead _ ih =>
      obtain ⟨height, hhead⟩ := hhead
      obtain ⟨height', htail⟩ := ih
      exact ⟨max height height', .cons (expression_of_le hhead (Nat.le_max_left ..))
        (htail.imp fun _ _ hread => expression_of_le hread (Nat.le_max_right ..))⟩

/-- The token of a keyword is that of one kind. -/
theorem readConditionKind_keyword {height : Nat} {node : Node}
    (h : Site height .conditionKind node) :
    ∃ kind, readConditionKind node = .ok kind ∧
      node.children.map (·.text) = [kind.keyword] := by
  obtain ⟨token, hchildren, hrule, -⟩ := (h.mono (Nat.le_succ height)).only_child (by decide)
  have hmade := h.made.children token (hchildren ▸ List.mem_cons_self)
  have htext : grammar.kind token.rule = .atomic → (grammar.body token.rule).isListed →
      token.text ∈ (grammar.body token.rule).texts.map String.ofList := by
    intro hkind hlisted
    obtain ⟨w, htext, hreads, -⟩ := hmade.reads hkind
    rw [htext]
    exact List.mem_map_of_mem (hreads.spells.mem_texts hlisted)
  change token.rule ∈ [.kwCase, .inOperator, .instanceOperator] at hrule
  simp only [List.mem_cons, List.not_mem_nil, or_false] at hrule
  simp only [readConditionKind, first, hchildren, ok_bind, List.map_cons, List.map_nil]
  rcases hrule with hrule | hrule | hrule <;> rw [hrule] at htext ⊢
  · have hmem : token.text ∈ ["case"] := htext rfl rfl
    exact ⟨.case, rfl, by rw [List.mem_singleton.mp hmem]; rfl⟩
  · have hmem : token.text ∈ ["in", "!in"] := htext rfl rfl
    simp only [List.mem_cons, List.not_mem_nil, or_false] at hmem
    rcases hmem with hin | hin <;> rw [hin]
    · exact ⟨.inside false, rfl, rfl⟩
    · exact ⟨.inside true, rfl, rfl⟩
  · have hmem : token.text ∈ ["instanceof", "!instanceof"] := htext rfl rfl
    simp only [List.mem_cons, List.not_mem_nil, or_false] at hmem
    rcases hmem with his | his <;> rw [his]
    · exact ⟨.ofType false, rfl, rfl⟩
    · exact ⟨.ofType true, rfl, rfl⟩

theorem exists_conditions {node : Node} {conditions : List Condition} :
    (∃ height, (Readers.ofHeight height).conditions node = .ok conditions) ↔
      ∃ height, readConditions (.ofHeight height) node = .ok conditions := by
  constructor
  · rintro ⟨_ | height, h⟩
    · cases h
    · exact ⟨height, h⟩
  · rintro ⟨height, h⟩
    exact ⟨height + 1, h⟩

/-- A level is read from its keyword, its values and the level behind them, each at a height of its
own. -/
theorem IsLevel.readConditions_iff {node keyword : Node} {values : List Node} {next : Option Node}
    (h : IsLevel node keyword values next) {conditions : List Condition} :
    (∃ height, readConditions (.ofHeight height) node = .ok conditions) ↔
      ∃ kind read others, readConditionKind keyword = .ok kind ∧
        (∃ height, values.mapM (Readers.ofHeight height).expression = .ok read) ∧
        (∃ height, listUnder node .switchCondition (Readers.ofHeight height).conditions =
          .ok others) ∧
        conditions = read.map (⟨kind, ·⟩) ++ others := by
  have hread : ∀ parts, readConditions parts node = do
      let kind ← readConditionKind keyword
      let read ← values.mapM parts.expression
      let others ← listUnder node .switchCondition parts.conditions
      return read.map (⟨kind, ·⟩) ++ others := by
    intro parts
    simp only [readConditions, one, required, each, h.child?_keyword, h.childrenOf_expression,
      ok_bind]
  simp only [hread]
  constructor
  · rintro ⟨height, hall⟩
    obtain ⟨kind, hkind, hall⟩ := bind_eq_ok hall
    obtain ⟨read, hvalues, hall⟩ := bind_eq_ok hall
    obtain ⟨others, hothers, hall⟩ := bind_eq_ok hall
    cases hall
    exact ⟨kind, read, others, hkind, ⟨height, hvalues⟩, ⟨height, hothers⟩, rfl⟩
  · rintro ⟨kind, read, others, hkind, ⟨height, hvalues⟩, ⟨height', hothers⟩, rfl⟩
    -- The values and the next level are read at different heights; the higher readers do for both.
    have hvalues' := (carries_ofHeight (Nat.le_max_left height height')).expression.mapM
      (List.forall₂_same.mpr fun _ _ => rfl) hvalues
    have hothers' : listUnder node .switchCondition
        (Readers.ofHeight (max height height')).conditions = .ok others :=
      (carries_ofHeight (Nat.le_max_right height height')).conditions.listUnder rfl hothers
    refine ⟨max height height', ?_⟩
    rw [hkind, ok_bind, hvalues', ok_bind, hothers', ok_bind]
    rfl

/-- The values of one keyword represent conditions of its kind. -/
theorem forall₂_represents_iff {keyword : Node} {kind : ConditionKind}
    (h : keyword.children.map (·.text) = [kind.keyword]) {values : List Node}
    {conditions : List Condition} :
    List.Forall₂ Represents (values.map (some keyword, ·)) conditions ↔
      ∃ read, (∃ height, values.mapM (Readers.ofHeight height).expression = .ok read) ∧
        conditions = read.map (⟨kind, ·⟩) := by
  simp only [exists_mapM_expression, List.forall₂_map_left_iff]
  constructor
  · intro hall
    induction hall with
    | nil => exact ⟨[], .nil, rfl⟩
    | @cons _ condition _ _ hrep _ ih =>
      obtain ⟨read, hread, rfl⟩ := ih
      obtain ⟨⟨_, ⟨⟩, htoken⟩, hvalue⟩ := hrep
      obtain ⟨kind', value⟩ := condition
      obtain rfl : kind' = kind :=
        ConditionKind.keyword_injective (List.cons.inj (htoken.symm.trans h)).1
      exact ⟨value :: read, .cons hvalue hread, rfl⟩
  · rintro ⟨read, hread, rfl⟩
    exact List.forall₂_map_right_iff.mpr
      (hread.imp fun _ _ hvalue => ⟨⟨keyword, rfl, h⟩, hvalue⟩)

/-- Induction along the levels of a chain. -/
@[elab_as_elim]
theorem Site.level_induction {motive : Node → Prop} {height : Nat} {node : Node}
    (h : Site height .switchCondition node)
    (step : ∀ {height node keyword values next}, IsLevel node keyword values next →
      Site height .conditionKind keyword → (∀ level ∈ next, Site height .switchCondition level) →
      (∀ level ∈ next, motive level) → motive node) : motive node := by
  induction height generalizing node with
  | zero => exact absurd h.height_le (Nat.not_le_of_gt (height_pos node))
  | succ height ih =>
    obtain ⟨keyword, values, next, hlevel⟩ := h.isLevel
    have hnext : ∀ level ∈ next, Site height .switchCondition level := fun level hmem =>
      h.found (hlevel.child?_next.trans hmem)
    exact step hlevel (h.found hlevel.child?_keyword) hnext fun level hmem => ih (hnext level hmem)

/-- The conditions of a chain are the values of its row, each of the kind of the nearest keyword. -/
theorem readConditions_iff {height : Nat} {node : Node} (h : Site height .switchCondition node)
    (conditions : List Condition) :
    (∃ height, readConditions (.ofHeight height) node = .ok conditions) ↔
      List.Forall₂ Represents (labelled [] (conditionRow node)) conditions := by
  revert conditions
  refine h.level_induction ?_
  intro height node keyword values next hlevel hkeyword hsite ih conditions
  have hothers : ∀ others,
      (∃ height, listUnder node .switchCondition (Readers.ofHeight height).conditions =
        .ok others) ↔
      List.Forall₂ Represents
        (next.toList.flatMap fun level => labelled [] (conditionRow level)) others := by
    intro others
    cases hnext : next with
    | none =>
      simp only [listUnder_eq_nil (hlevel.child?_next.trans hnext)]
      simp
    | some level =>
      simp only [listUnder_eq (hlevel.child?_next.trans hnext), exists_conditions, ih level hnext]
      simp
  obtain ⟨kind, hkind, htoken⟩ := readConditionKind_keyword hkeyword
  rw [hlevel.readConditions_iff, hlevel.labelled_eq hsite, forall₂_append_left_iff]
  simp only [hothers, forall₂_represents_iff htoken, hkind]
  constructor
  · rintro ⟨_, read, others, ⟨⟩, hread, hother, rfl⟩
    exact ⟨_, others, ⟨read, hread, rfl⟩, hother, rfl⟩
  · rintro ⟨_, others, ⟨read, hread, rfl⟩, hother, rfl⟩
    exact ⟨kind, read, others, rfl, hread, hother, rfl⟩

/-- Every value of a chain stands behind a keyword. -/
theorem keyword_of_mem_labelled {height : Nat} {node : Node}
    (h : Site height .switchCondition node) :
    ∀ item ∈ labelled [] (conditionRow node), ∃ keyword ∈ item.1, ∃ kind : ConditionKind,
      keyword.children.map (·.text) = [kind.keyword] := by
  refine h.level_induction ?_
  intro height node keyword values next hlevel hkeyword hsite ih item hitem
  obtain ⟨kind, -, htoken⟩ := readConditionKind_keyword hkeyword
  rw [hlevel.labelled_eq hsite] at hitem
  rcases List.mem_append.mp hitem with hitem | hitem
  · obtain ⟨value, -, rfl⟩ := List.mem_map.mp hitem
    exact ⟨keyword, rfl, kind, htoken⟩
  · obtain ⟨level, hlevel, hitem⟩ := List.mem_flatMap.mp hitem
    exact ih level (Option.mem_toList.mp hlevel) item hitem

end QuovaKotlin.Reading

namespace QuovaKotlin.Source

open Ast Peg Peg.Grammar Reading

theorem inOrder_conditionRow {height : Nat} {c d : Cursor} {node : Node}
    (h : Evaluates grammar {} (.rule .switchCondition) c (some ([node], d)))
    (hle : node.height ≤ height) :
    InOrder node.span.start node.span.stop (conditionRow node) := by
  induction height generalizing c d node with
  | zero => exact absurd hle (Nat.not_le_of_gt (height_pos node))
  | succ height ih =>
    have hchildren : InOrder node.span.start node.span.stop node.children := by
      obtain ⟨inner, hnode, -⟩ := h.of_rule grammar_kind
      rw [(List.cons.inj hnode).1, span_treeOf, ← (List.cons.inj hnode).1]
      exact (evaluates_children h rfl).inOrder _ _ rfl
    rw [conditionRow_eq]
    refine hchildren.flatMap fun child hchild => ?_
    split
    · next hrule =>
      obtain ⟨_, _, -, -, heval⟩ := h.placed grammar_kind rfl _ _ rfl node List.mem_cons_self child
        (.child hchild (.self child))
      have hlt := ParseTree.height_child_lt hchild
      exact ih (hrule ▸ heval) (by omega)
    · exact ⟨List.pairwise_singleton _ _, by simp⟩

/-- The branch in Kotlin starts with its conditions in their order. -/
theorem branch_kotlin (branch : Branch) :
    branch.kotlin = Text.commas (branch.conditions.map fun condition =>
      condition.kind.mark ++ condition.value.kotlin) ++ " -> " ++ branch.body.kotlin := by
  obtain ⟨conditions, body⟩ := branch
  show Text.commas (Condition.kotlinEach conditions) ++ " -> " ++ body.kotlin = _
  rw [Condition.kotlinEach_eq]

/-- The conditions of a switch branch are the values of its row in the order of the source, none
lost and none twice, each of the kind of the nearest keyword before it. They are read whenever their
values are, and the branch in Kotlin starts with them in that order. -/
theorem switch_conditions_follow_keywords {root : Rule} {text : String} {tree branch : Node}
    (htree : grammar.parse root text = .ok tree) (hbranch : ParseTree.Within branch tree)
    (hrule : branch.rule = .switchBranch) :
    ∃ head, branch.child? .switchCondition = some head ∧
      InOrder head.span.start head.span.stop (conditionRow head) ∧
      (∀ item ∈ labelled [] (conditionRow head), ∃ keyword ∈ item.1, ∃ kind : ConditionKind,
        keyword.children.map (·.text) = [kind.keyword]) ∧
      (∀ conditions, (∃ height, readConditions (.ofHeight height) head = .ok conditions) ↔
        List.Forall₂ Represents (labelled [] (conditionRow head)) conditions) ∧
      ∀ height read, readSwitchBranch (.ofHeight height) branch = .ok read →
        List.Forall₂ Represents (labelled [] (conditionRow head)) read.conditions ∧
        read.kotlin = Text.commas (read.conditions.map fun condition =>
          condition.kind.mark ++ condition.value.kotlin) ++ " -> " ++ read.body.kotlin := by
  obtain ⟨c, d, heval⟩ := evaluates_of_within grammar_kind htree hbranch
  rw [hrule] at heval
  obtain ⟨head, hhead⟩ := (site_of_evaluates heval).child?_some (r := .switchCondition) (by decide)
  obtain ⟨hmem, hheadRule⟩ := mem_of_child? hhead
  obtain ⟨_, _, hheadEval⟩ := evaluates_of_within grammar_kind htree (hbranch.of_mem hmem)
  rw [hheadRule] at hheadEval
  have hsite := site_of_evaluates hheadEval
  have hreads := readConditions_iff hsite
  refine ⟨head, hhead, inOrder_conditionRow hheadEval (Nat.le_refl _),
    keyword_of_mem_labelled hsite, hreads, fun height read hread => ⟨?_, branch_kotlin read⟩⟩
  obtain ⟨conditions, hconditions, hread⟩ := bind_eq_ok hread
  obtain ⟨body, -, hread⟩ := bind_eq_ok hread
  cases hread
  simp only [one, required, hhead, ok_bind] at hconditions
  exact (hreads conditions).mp ⟨height, hconditions⟩

/-- Five conditions behind three keywords. -/
def mixedHeadTree : Node :=
  .node .switchCondition ⟨0, 33⟩ [
    .node .conditionKind ⟨0, 4⟩ [.token .kwCase ⟨0, 4⟩ "case"], nameTree 5 "a", nameTree 8 "b",
    .node .switchCondition ⟨11, 33⟩ [
      .node .conditionKind ⟨11, 14⟩ [.token .inOperator ⟨11, 14⟩ "!in"], nameTree 15 "c",
      .node .switchCondition ⟨18, 33⟩ [
        .node .conditionKind ⟨18, 28⟩ [.token .instanceOperator ⟨18, 28⟩ "instanceof"],
        nameTree 29 "d", nameTree 32 "e"]]]

def mixedBranchTree : Node :=
  .node .switchBranch ⟨0, 36⟩ [mixedHeadTree, emptyBodyTree 35]

theorem parse_mixedBranch :
    grammar.parse .switchBranch "case a, b, !in c, instanceof d, e->;" = .ok mixedBranchTree :=
  ok_of_toOption (by decide +kernel)

def mixedConditions : List Condition :=
  [⟨.case, .identifier "a"⟩, ⟨.case, .identifier "b"⟩, ⟨.inside true, .identifier "c"⟩,
    ⟨.ofType false, .identifier "d"⟩, ⟨.ofType false, .identifier "e"⟩]

/-- In a branch whose kind changes twice, both changes reach the values behind them. -/
theorem mixedBranch_conditions :
    grammar.parse .switchBranch "case a, b, !in c, instanceof d, e->;" = .ok mixedBranchTree ∧
    readSwitchBranch (.ofHeight 3) mixedBranchTree = .ok ⟨mixedConditions, .empty⟩ ∧
    List.Forall₂ Represents (labelled [] (conditionRow mixedHeadTree)) mixedConditions ∧
    Branch.kotlin ⟨mixedConditions, .empty⟩ = "a, b, !in c, is d, is e -> {}" := by
  have hread : readSwitchBranch (.ofHeight 3) mixedBranchTree = .ok ⟨mixedConditions, .empty⟩ := rfl
  obtain ⟨head, hhead, -, -, -, hbranch⟩ :=
    switch_conditions_follow_keywords parse_mixedBranch (.self _) rfl
  obtain rfl : head = mixedHeadTree := (Option.some.inj hhead).symm
  exact ⟨parse_mixedBranch, hread, (hbranch 3 _ hread).1, rfl⟩

end QuovaKotlin.Source
