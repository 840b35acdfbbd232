import QuovaKotlin.Reading.Expressions

/-!
# Grouping is operator precedence

`group` works from left to right with a list of waiting operators. The specification below knows
nothing of that list: it says which operators may stand on the two spines of an operand. Every flat
run of operands and operators has exactly one grouping of that kind, and `group` finds it.
-/

set_option autoImplicit false

namespace QuovaKotlin.Precedence

variable {τ : Type}

/-- How tightly an operator takes what stands on its left. -/
def Role.power : Role → Nat
  | .operand => 0
  | .before power | .behind power | .leftToRight power | .rightToLeft power => power

/-- The right binding power: how tightly an operator holds on to what stands on its right. -/
def Role.binding : Role → Nat
  | .operand | .behind _ => 0
  | .leftToRight power => power
  | .before power | .rightToLeft power => power - 1

def Role.isBefore : Role → Bool
  | .before _ => true
  | _ => false

def Role.isBehind : Role → Bool
  | .behind _ => true
  | _ => false

def Role.isBetween : Role → Bool
  | .leftToRight _ | .rightToLeft _ => true
  | _ => false

namespace Grouping

/-- The prefix and infix operators on the way down the right edge. -/
def rightSpine : Grouping τ → List τ
  | leaf _ | behind _ _ => []
  | before operator operand => operator :: operand.rightSpine
  | between _ operator right => operator :: right.rightSpine

/-- The infix and postfix operators on the way down the left edge. -/
def leftSpine : Grouping τ → List τ
  | leaf _ | before _ _ => []
  | behind operand operator => operator :: operand.leftSpine
  | between left operator _ => operator :: left.leftSpine

/-- Every item stands where its role lets it stand. -/
def Fits (role : τ → Role) : Grouping τ → Prop
  | leaf item => role item = .operand
  | before operator operand => (role operator).isBefore ∧ operand.Fits role
  | behind operand operator => (role operator).isBehind ∧ operand.Fits role
  | between left operator right =>
    (role operator).isBetween ∧ left.Fits role ∧ right.Fits role

/-- Every operator on the right edge of a left operand holds its own operand against `power`. -/
def Yields (role : τ → Role) (power : Nat) (left : Grouping τ) : Prop :=
  ∀ operator ∈ left.rightSpine, power ≤ (role operator).binding

/-- Everything on the left edge of a right operand binds tighter than `binding`. -/
def Clings (role : τ → Role) (binding : Nat) (right : Grouping τ) : Prop :=
  ∀ operator ∈ right.leftSpine, binding < (role operator).power

/-- The spine conditions at every node. -/
def Ordered (role : τ → Role) : Grouping τ → Prop
  | leaf _ => True
  | before operator operand =>
    operand.Clings role (role operator).binding ∧ operand.Ordered role
  | behind operand operator =>
    operand.Yields role (role operator).power ∧ operand.Ordered role
  | between left operator right =>
    left.Yields role (role operator).power ∧ right.Clings role (role operator).binding ∧
      left.Ordered role ∧ right.Ordered role

end Grouping

/-- `prefix* primary postfix*` -/
def IsOperand (role : τ → Role) (items : List τ) : Prop :=
  ∃ front item back, items = front ++ item :: back ∧ (∀ x ∈ front, (role x).isBefore) ∧
    role item = .operand ∧ ∀ x ∈ back, (role x).isBehind

/-- `prefix* primary postfix* (infix prefix* primary postfix*)*` -/
inductive IsRun (role : τ → Role) : List τ → Prop
  | operand {items : List τ} : IsOperand role items → IsRun role items
  | joined {items rest : List τ} {operator : τ} :
      IsOperand role items → (role operator).isBetween → IsRun role rest →
      IsRun role (items ++ operator :: rest)

theorem IsOperand.of_map {σ : Type} {role : τ → Role} {f : σ → τ} {items : List σ}
    (h : IsOperand role (items.map f)) : IsOperand (fun x => role (f x)) items := by
  obtain ⟨front, item, back, hitems, hfront, hitem, hback⟩ := h
  obtain ⟨us, vs, rfl, rfl, hvs⟩ := List.map_eq_append_iff.mp hitems
  obtain ⟨x, ws, rfl, rfl, rfl⟩ := List.map_eq_cons_iff.mp hvs
  exact ⟨us, x, ws, rfl, fun y hy => hfront (f y) (List.mem_map_of_mem hy), hitem,
    fun y hy => hback (f y) (List.mem_map_of_mem hy)⟩

theorem IsRun.of_map {σ : Type} {role : τ → Role} {f : σ → τ} {items : List σ}
    (h : IsRun role (items.map f)) : IsRun (fun x => role (f x)) items := by
  generalize hmap : items.map f = images at h
  induction h generalizing items with
  | operand h =>
    subst hmap
    exact .operand h.of_map
  | joined h hbetween _ ih =>
    obtain ⟨us, vs, rfl, rfl, hvs⟩ := List.map_eq_append_iff.mp hmap
    obtain ⟨x, ws, rfl, rfl, rfl⟩ := List.map_eq_cons_iff.mp hvs
    exact .joined h.of_map hbetween (ih rfl)

theorem IsRun.append {role : τ → Role} {items rest : List τ} {operator : τ}
    (h : IsRun role items) (hbetween : (role operator).isBetween) (hrest : IsRun role rest) :
    IsRun role (items ++ operator :: rest) := by
  induction h with
  | operand h => exact .joined h hbetween hrest
  | joined h hfirst _ ih =>
    rw [List.append_assoc, List.cons_append]
    exact .joined h hfirst ih

namespace Waiting

def operator : Waiting τ → τ
  | before _ operator => operator
  | between _ _ operator => operator

/-- The items that are already taken, in order. -/
def items : Waiting τ → List τ
  | before _ operator => [operator]
  | between _ left operator => left.items ++ [operator]

/-- The left edge of the node that a waiting operator will become. -/
def leftSpine : Waiting τ → List τ
  | before _ _ => []
  | between _ left operator => operator :: left.leftSpine

/-- The left operand is finished, and the recorded binding is that of the operator. -/
def Sound (role : τ → Role) : Waiting τ → Prop
  | before binding operator => (role operator).isBefore ∧ binding = (role operator).binding
  | between binding left operator =>
    (role operator).isBetween ∧ binding = (role operator).binding ∧ left.Fits role ∧
      left.Ordered role ∧ left.Yields role (role operator).power

end Waiting

/-- The items taken by all waiting operators; the first of the list waits innermost. -/
def takenItems : List (Waiting τ) → List τ
  | [] => []
  | w :: waiting => takenItems waiting ++ w.items

/-- The innermost waiting operator leaves each of the given operators to what follows it. -/
def Admits (role : τ → Role) (waiting : List (Waiting τ)) (operators : List τ) : Prop :=
  ∀ w ∈ waiting.head?, ∀ operator ∈ operators, w.binding < (role operator).power

/-- Every waiting operator is sound and stands rightly under the one outside it. -/
def Ready (role : τ → Role) : List (Waiting τ) → Prop
  | [] => True
  | w :: waiting => w.Sound role ∧ Admits role waiting w.leftSpine ∧ Ready role waiting

/-- A finished grouping that the waiting operators can take as their right operand. -/
structure Finished (role : τ → Role) (waiting : List (Waiting τ)) (g : Grouping τ) : Prop where
  fits : g.Fits role
  ordered : g.Ordered role
  admitted : Admits role waiting g.leftSpine

section Soundness

variable {role : τ → Role} {waiting : List (Waiting τ)} {w : Waiting τ} {g : Grouping τ}

theorem complete_items (w : Waiting τ) (g : Grouping τ) :
    (w.complete g).items = w.items ++ g.items := by
  cases w <;> simp [Waiting.complete, Waiting.items, Grouping.items]

theorem complete_leftSpine (w : Waiting τ) (g : Grouping τ) :
    (w.complete g).leftSpine = w.leftSpine := by
  cases w <;> rfl

theorem complete_rightSpine (w : Waiting τ) (g : Grouping τ) :
    (w.complete g).rightSpine = w.operator :: g.rightSpine := by
  cases w <;> rfl

theorem Waiting.Sound.binding_eq (h : w.Sound role) : w.binding = (role w.operator).binding := by
  cases w with
  | before binding operator => exact h.2
  | between binding left operator => exact h.2.1

/-- Completing a waiting operator keeps all promises to the operators outside it. -/
theorem Finished.complete (hr : Ready role (w :: waiting))
    (hg : Finished role (w :: waiting) g) : Finished role waiting (w.complete g) := by
  obtain ⟨hw, hadmits, -⟩ := hr
  have hcling : g.Clings role (role w.operator).binding := by
    intro operator hmem
    rw [← hw.binding_eq]
    exact hg.admitted w rfl operator hmem
  refine ⟨?_, ?_, by rw [complete_leftSpine]; exact hadmits⟩
  · cases w with
    | before binding operator => exact ⟨hw.1, hg.fits⟩
    | between binding left operator => exact ⟨hw.1, hw.2.2.1, hg.fits⟩
  · cases w with
    | before binding operator => exact ⟨hcling, hg.ordered⟩
    | between binding left operator =>
      obtain ⟨-, -, -, hordered, hyields⟩ := hw
      exact ⟨hyields, hcling, hordered, hg.ordered⟩

/-- What `settle` leaves behind: everything it closed yields to `power`, what waits does not. -/
structure Settled (role : τ → Role) (power : Nat) (before : List τ)
    (result : List (Waiting τ) × Grouping τ) : Prop where
  ready : Ready role result.1
  finished : Finished role result.1 result.2
  yields : result.2.Yields role power
  looser : ∀ w ∈ result.1.head?, w.binding < power
  items : takenItems result.1 ++ result.2.items = before

theorem settle_settled (power : Nat) (hr : Ready role waiting) (hg : Finished role waiting g)
    (hy : g.Yields role power) :
    Settled role power (takenItems waiting ++ g.items) (settle power waiting g) := by
  induction waiting generalizing g with
  | nil => exact ⟨hr, hg, hy, by simp [settle], rfl⟩
  | cons w waiting ih =>
    by_cases hp : power ≤ w.binding
    · have hy' : (w.complete g).Yields role power := by
        intro operator hmem
        rw [complete_rightSpine, List.mem_cons] at hmem
        rcases hmem with rfl | hmem
        · rw [← hr.1.binding_eq]
          exact hp
        · exact hy operator hmem
      have h := ih hr.2.2 (hg.complete hr) hy'
      rw [complete_items, ← List.append_assoc] at h
      simpa only [settle, hp, ↓reduceIte, takenItems] using h
    · simp only [settle, hp, ↓reduceIte]
      refine ⟨hr, hg, hy, ?_, rfl⟩
      intro v hv
      obtain rfl : w = v := by simpa using hv
      omega

theorem settleAll_finished (hr : Ready role waiting) (hg : Finished role waiting g) :
    Finished role [] (settleAll waiting g) ∧
      (settleAll waiting g).items = takenItems waiting ++ g.items := by
  induction waiting generalizing g with
  | nil => exact ⟨hg, rfl⟩
  | cons w waiting ih =>
    obtain ⟨hfinished, hitems⟩ := ih hr.2.2 (hg.complete hr)
    refine ⟨hfinished, ?_⟩
    rw [settleAll, hitems, complete_items, takenItems, List.append_assoc]

theorem admits_leaf (item : τ) : Admits role waiting (Grouping.leaf item).leftSpine := by
  intro w _ operator hmem
  cases hmem

/-- A postfix operator behind a settled operand. -/
theorem Settled.behind {power : Nat} {before : List τ} {result : List (Waiting τ) × Grouping τ}
    (h : Settled role power before result) (item : τ) (hrole : role item = .behind power) :
    Finished role result.1 (.behind result.2 item) := by
  refine ⟨⟨by rw [hrole]; rfl, h.finished.fits⟩, ⟨?_, h.finished.ordered⟩, ?_⟩
  · rw [hrole]
    exact h.yields
  · intro w hw operator hmem
    rw [Grouping.leftSpine, List.mem_cons] at hmem
    rcases hmem with rfl | hmem
    · rw [hrole]
      exact h.looser w hw
    · exact h.finished.admitted w hw operator hmem

/-- An infix operator behind a settled operand waits for its right operand. -/
theorem Settled.between {power : Nat} {before : List τ} {result : List (Waiting τ) × Grouping τ}
    (h : Settled role power before result) (item : τ) (hpower : (role item).power = power)
    (hbetween : (role item).isBetween) :
    Ready role (.between (role item).binding result.2 item :: result.1) := by
  refine ⟨⟨hbetween, rfl, h.finished.fits, h.finished.ordered, ?_⟩, ?_, h.ready⟩
  · rw [hpower]
    exact h.yields
  · intro w hw operator hmem
    rw [Waiting.leftSpine, List.mem_cons] at hmem
    rcases hmem with rfl | hmem
    · rw [hpower]
      exact h.looser w hw
    · exact h.finished.admitted w hw operator hmem

theorem ready_before (item : τ) (hr : Ready role waiting) (hbefore : (role item).isBefore) :
    Ready role (.before (role item).binding item :: waiting) := by
  refine ⟨⟨hbefore, rfl⟩, ?_, hr⟩
  intro w _ operator hmem
  cases hmem

/-- The two phases of a run, from any state that keeps its promises. -/
theorem run_sound (items : List τ) :
    (∀ waiting g, Ready role waiting → atOperand role waiting items = some g →
      Finished role [] g ∧ g.items = takenItems waiting ++ items) ∧
    (∀ waiting left g, Ready role waiting → Finished role waiting left → left.rightSpine = [] →
      atOperator role waiting left items = some g →
      Finished role [] g ∧ g.items = takenItems waiting ++ left.items ++ items) := by
  induction items with
  | nil =>
    refine ⟨fun waiting g _ h => by simp [atOperand] at h, ?_⟩
    intro waiting left g hr hl _ h
    obtain rfl : settleAll waiting left = g := by simpa [atOperator] using h
    simpa using settleAll_finished hr hl
  | cons item items ih =>
    obtain ⟨ihOperand, ihOperator⟩ := ih
    constructor
    · intro waiting g hr h
      cases hrole : role item with
      | operand =>
        simp only [atOperand, hrole] at h
        have hleaf : Finished role waiting (.leaf item) := ⟨hrole, trivial, admits_leaf item⟩
        obtain ⟨hfinished, hitems⟩ := ihOperator _ _ _ hr hleaf rfl h
        exact ⟨hfinished, by simpa [Grouping.items] using hitems⟩
      | before power =>
        simp only [atOperand, hrole] at h
        have hready := ready_before item hr (by rw [hrole]; rfl)
        rw [hrole] at hready
        obtain ⟨hfinished, hitems⟩ := ihOperand _ _ hready h
        exact ⟨hfinished, by simpa [takenItems, Waiting.items] using hitems⟩
      | behind power => simp [atOperand, hrole] at h
      | leftToRight power => simp [atOperand, hrole] at h
      | rightToLeft power => simp [atOperand, hrole] at h
    · intro waiting left g hr hl hspine h
      have hsettled (power : Nat) := settle_settled (g := left) power hr hl
        (by intro operator hmem; rw [hspine] at hmem; cases hmem)
      cases hrole : role item with
      | operand => simp [atOperator, hrole] at h
      | before power => simp [atOperator, hrole] at h
      | behind power =>
        simp only [atOperator, hrole] at h
        have hs := hsettled power
        obtain ⟨hfinished, hitems⟩ := ihOperator _ _ _ hs.ready (hs.behind item hrole) rfl h
        refine ⟨hfinished, ?_⟩
        rw [hitems, ← hs.items]
        simp [Grouping.items]
      | leftToRight power =>
        simp only [atOperator, hrole] at h
        have hs := hsettled power
        have hready := hs.between item (by rw [hrole]; rfl) (by rw [hrole]; rfl)
        rw [hrole] at hready
        obtain ⟨hfinished, hitems⟩ := ihOperand _ _ hready h
        refine ⟨hfinished, ?_⟩
        rw [hitems, ← hs.items]
        simp [takenItems, Waiting.items]
      | rightToLeft power =>
        simp only [atOperator, hrole] at h
        have hs := hsettled power
        have hready := hs.between item (by rw [hrole]; rfl) (by rw [hrole]; rfl)
        rw [hrole] at hready
        obtain ⟨hfinished, hitems⟩ := ihOperand _ _ hready h
        refine ⟨hfinished, ?_⟩
        rw [hitems, ← hs.items]
        simp [takenItems, Waiting.items]

theorem group_sound {items : List τ} (h : group role items = some g) :
    g.items = items ∧ g.Fits role ∧ g.Ordered role := by
  obtain ⟨hfinished, hitems⟩ := (run_sound items).1 [] g trivial h
  exact ⟨hitems, hfinished.fits, hfinished.ordered⟩

end Soundness

section Totality

variable {role : τ → Role}

theorem atOperand_front {front rest : List τ} (hfront : ∀ x ∈ front, (role x).isBefore)
    (hrest : ∀ waiting, ∃ g, atOperand role waiting rest = some g) (waiting : List (Waiting τ)) :
    ∃ g, atOperand role waiting (front ++ rest) = some g := by
  induction front generalizing waiting with
  | nil => exact hrest waiting
  | cons x front ih =>
    have hx := hfront x (by simp)
    cases hrole : role x with
    | before power =>
      simp only [List.cons_append, atOperand, hrole]
      exact ih (fun y hy => hfront y (by simp [hy])) _
    | operand | behind _ | leftToRight _ | rightToLeft _ => simp [hrole, Role.isBefore] at hx

theorem atOperator_back {back rest : List τ} (hback : ∀ x ∈ back, (role x).isBehind)
    (hrest : ∀ waiting left, ∃ g, atOperator role waiting left rest = some g)
    (waiting : List (Waiting τ)) (left : Grouping τ) :
    ∃ g, atOperator role waiting left (back ++ rest) = some g := by
  induction back generalizing waiting left with
  | nil => exact hrest waiting left
  | cons x back ih =>
    have hx := hback x (by simp)
    cases hrole : role x with
    | behind power =>
      simp only [List.cons_append, atOperator, hrole]
      exact ih (fun y hy => hback y (by simp [hy])) _ _
    | operand | before _ | leftToRight _ | rightToLeft _ => simp [hrole, Role.isBehind] at hx

theorem IsOperand.continues {items rest : List τ} (h : IsOperand role items)
    (hrest : ∀ waiting left, ∃ g, atOperator role waiting left rest = some g)
    (waiting : List (Waiting τ)) : ∃ g, atOperand role waiting (items ++ rest) = some g := by
  obtain ⟨front, item, back, rfl, hfront, hitem, hback⟩ := h
  rw [List.append_assoc]
  refine atOperand_front hfront (fun waiting => ?_) waiting
  simp only [List.cons_append, atOperand, hitem]
  exact atOperator_back hback hrest waiting _

theorem IsRun.grouped {items : List τ} (h : IsRun role items) (waiting : List (Waiting τ)) :
    ∃ g, atOperand role waiting items = some g := by
  induction h generalizing waiting with
  | @operand items h =>
    have hend : ∃ g, atOperand role waiting (items ++ []) = some g :=
      h.continues (fun waiting left => ⟨_, rfl⟩) waiting
    rwa [List.append_nil] at hend
  | @joined items rest operator h hbetween _ ih =>
    refine h.continues (fun waiting left => ?_) waiting
    cases hrole : role operator with
    | leftToRight power =>
      simp only [atOperator, hrole]
      exact ih _
    | rightToLeft power =>
      simp only [atOperator, hrole]
      exact ih _
    | operand | before _ | behind _ => simp [hrole, Role.isBetween] at hbetween

end Totality

section Uniqueness

variable {role : τ → Role}

/-- The state in which a run stands behind the last item of `g`: the right edge of `g` still waits,
innermost first, and only the last operand is finished. -/
def Grouping.opened (role : τ → Role) : Grouping τ → List (Waiting τ) × Grouping τ
  | leaf item => ([], leaf item)
  | behind operand operator => ([], behind operand operator)
  | before operator operand =>
    ((operand.opened role).1 ++ [.before (role operator).binding operator],
      (operand.opened role).2)
  | between left operator right =>
    ((right.opened role).1 ++ [.between (role operator).binding left operator],
      (right.opened role).2)

theorem settleAll_opened (g : Grouping τ) (waiting : List (Waiting τ)) :
    settleAll ((g.opened role).1 ++ waiting) (g.opened role).2 = settleAll waiting g := by
  induction g generalizing waiting with
  | leaf | behind => rfl
  | before operator operand ih =>
    simp only [Grouping.opened, List.append_assoc, List.cons_append, List.nil_append]
    rw [ih]
    rfl
  | between left operator right _ ih =>
    simp only [Grouping.opened, List.append_assoc, List.cons_append, List.nil_append]
    rw [ih]
    rfl

/-- An operator to which the whole right edge yields closes that edge again. -/
theorem settle_opened {power : Nat} (g : Grouping τ) (hy : g.Yields role power)
    (waiting : List (Waiting τ)) :
    settle power ((g.opened role).1 ++ waiting) (g.opened role).2 = settle power waiting g := by
  induction g generalizing waiting with
  | leaf | behind => rfl
  | before operator operand ih =>
    have hp : power ≤ (role operator).binding := hy operator (by simp [Grouping.rightSpine])
    simp only [Grouping.opened, List.append_assoc, List.cons_append, List.nil_append]
    rw [ih (fun x hx => hy x (by simp [Grouping.rightSpine, hx]))]
    simp only [settle, Waiting.binding, hp, ↓reduceIte, Waiting.complete]
  | between left operator right _ ih =>
    have hp : power ≤ (role operator).binding := hy operator (by simp [Grouping.rightSpine])
    simp only [Grouping.opened, List.append_assoc, List.cons_append, List.nil_append]
    rw [ih (fun x hx => hy x (by simp [Grouping.rightSpine, hx]))]
    simp only [settle, Waiting.binding, hp, ↓reduceIte, Waiting.complete]

/-- An operator that the innermost waiting operator leaves alone settles nothing. -/
theorem settle_admitted {waiting : List (Waiting τ)} {operators : List τ}
    (h : Admits role waiting operators) (operator : τ) (hmem : operator ∈ operators)
    (g : Grouping τ) :
    settle (role operator).power waiting g = (waiting, g) := by
  cases waiting with
  | nil => rfl
  | cons w waiting =>
    have hw := h w rfl operator hmem
    simp only [settle]
    rw [if_neg (by omega)]

/-- Reading the items of an ordered grouping arrives at that grouping, opened along its right
edge. -/
theorem atOperand_items (g : Grouping τ) (hf : g.Fits role) (ho : g.Ordered role)
    (waiting : List (Waiting τ)) (ha : Admits role waiting g.leftSpine) (rest : List τ) :
    atOperand role waiting (g.items ++ rest) =
      atOperator role ((g.opened role).1 ++ waiting) (g.opened role).2 rest := by
  induction g generalizing waiting rest with
  | leaf item =>
    have hrole : role item = .operand := hf
    simp [Grouping.items, Grouping.opened, atOperand, hrole]
  | before operator operand ih =>
    obtain ⟨hbefore, hf⟩ := hf
    obtain ⟨hcling, ho⟩ := ho
    cases hrole : role operator with
    | before power =>
      have hopen : Admits role (.before (power - 1) operator :: waiting) operand.leftSpine := by
        intro w hw x hx
        obtain rfl : Waiting.before (power - 1) operator = w := by simpa using hw
        simpa [hrole, Role.binding, Waiting.binding] using hcling x hx
      simp only [Grouping.items, List.cons_append, atOperand, hrole]
      rw [ih hf ho _ hopen]
      simp [Grouping.opened, hrole, Role.binding]
    | operand | behind _ | leftToRight _ | rightToLeft _ =>
      simp [hrole, Role.isBefore] at hbefore
  | behind operand operator ih =>
    obtain ⟨hbehind, hf⟩ := hf
    obtain ⟨hyields, ho⟩ := ho
    cases hrole : role operator with
    | behind power =>
      have hstay := settle_admitted ha operator (by simp [Grouping.leftSpine]) operand
      rw [hrole] at hyields hstay
      simp only [Role.power] at hyields hstay
      have hopen : Admits role waiting operand.leftSpine :=
        fun w hw x hx => ha w hw x (by simp [Grouping.leftSpine, hx])
      simp only [Grouping.items, List.append_assoc, List.cons_append, List.nil_append]
      rw [ih hf ho _ hopen]
      simp only [atOperator, hrole]
      rw [settle_opened operand hyields waiting, hstay]
      rfl
    | operand | before _ | leftToRight _ | rightToLeft _ =>
      simp [hrole, Role.isBehind] at hbehind
  | between left operator right ihLeft ihRight =>
    obtain ⟨hbetween, hfLeft, hfRight⟩ := hf
    obtain ⟨hyields, hcling, hoLeft, hoRight⟩ := ho
    have hstay := settle_admitted ha operator (by simp [Grouping.leftSpine]) left
    have hopenLeft : Admits role waiting left.leftSpine :=
      fun w hw x hx => ha w hw x (by simp [Grouping.leftSpine, hx])
    have hopenRight :
        Admits role (.between (role operator).binding left operator :: waiting)
          right.leftSpine := by
      intro w hw x hx
      obtain rfl : Waiting.between (role operator).binding left operator = w := by simpa using hw
      exact hcling x hx
    simp only [Grouping.items, List.append_assoc, List.cons_append]
    rw [ihLeft hfLeft hoLeft _ hopenLeft]
    cases hrole : role operator with
    | leftToRight power | rightToLeft power =>
      rw [hrole] at hyields hstay hopenRight
      simp only [Role.power, Role.binding] at hyields hstay hopenRight
      simp only [atOperator, hrole]
      rw [settle_opened left hyields waiting, hstay]
      simp only []
      rw [ihRight hfRight hoRight _ hopenRight]
      simp [Grouping.opened, hrole, Role.binding]
    | operand | before _ | behind _ => simp [hrole, Role.isBetween] at hbetween

/-- `group` gives back every grouping that meets the spine conditions. -/
theorem group_items (g : Grouping τ) (hf : g.Fits role) (ho : g.Ordered role) :
    group role g.items = some g := by
  have h := atOperand_items g hf ho [] (by intro w hw; simp at hw) []
  rw [List.append_nil] at h
  rw [group, h]
  simp only [atOperator]
  rw [settleAll_opened]
  rfl

theorem group_unique {items : List τ} {g g' : Grouping τ} (h : group role items = some g)
    (hitems : g'.items = items) (hf : g'.Fits role) (ho : g'.Ordered role) : g' = g := by
  have h' := group_items g' hf ho
  rw [hitems, h] at h'
  exact (Option.some.inj h').symm

end Uniqueness

end QuovaKotlin.Precedence

namespace QuovaKotlin.Reading

/-- The role of a node in an operator expression. -/
def nodeRole (node : Node) : Precedence.Role :=
  roleOf node.rule

end QuovaKotlin.Reading
