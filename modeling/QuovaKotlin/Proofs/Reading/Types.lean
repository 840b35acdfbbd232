import QuovaKotlin.Proofs.Reading.Settling

/-!
# Reading types settles

No expression stands in a type, so every type that the grammar makes is read, and with the same
reader at every depth.
-/

set_option autoImplicit false

namespace QuovaKotlin.Reading

open Source (Rule)
open Ast
open Peg (ParseTree)

variable {height : Nat}

theorem handles_primitiveKind : Handles height .primitiveTypeNoArray readPrimitiveKind :=
  handles_meaning (by decide)

theorem handles_variance : Handles height .varianceModifier (meaning Variance.ofKeyword?) :=
  handles_meaning (by decide)

theorem handles_primitiveType : Handles (height + 1) .primitiveType readPrimitiveType := by
  intro node h
  have hc : Covers node _ (readPrimitiveType node) :=
    (Covers.one h (by decide) handles_primitiveKind).bind fun _ _ => .pure _
  exact hc.settles h (by decide)

section Inside

variable {inner : TypeReader} (hinner : Handles height .typeUse inner)

include hinner

theorem handles_typeArgument : Handles (height + 1) .typeArgument (readTypeArgument inner) := by
  intro node h
  unfold readTypeArgument
  split
  · exact (Covers.ok _).settles h (by decide)
  · next hwild =>
    have htype := h.child?_of_absent (r := .wildcard) (s := .typeUse) (by decide)
      (by simpa [Peg.ParseTree.has] using hwild)
    have hc : Covers node _ _ :=
      (Covers.atMostOne h (by decide) handles_variance).bind fun variance _ =>
        (Covers.present h (by decide) htype hinner).bind fun type _ =>
          .pure (TypeArgument.concrete variance type)
    exact hc.settles h (by decide)

theorem handles_typeArgumentsWith :
    Handles (height + 1) .typeArguments (readTypeArgumentsWith inner) := by
  intro node h
  have hc := Covers.each h (handles_typeArgument hinner).lower
  exact hc.settles h (by decide)

theorem handles_userTypeWith : Handles (height + 1) .userType (readUserTypeWith inner) := by
  intro node h
  have hc : Covers node _ (readUserTypeWith inner node) :=
    (Covers.listUnder h (by decide) (handles_typeArgumentsWith hinner).lower).bind fun _ _ =>
      (Covers.textOf h (by decide)).bind fun _ _ => .pure _
  exact hc.settles h (by decide)

theorem handles_functionTypeParameters :
    Handles (height + 1) .functionTypeParameters fun list => each list .typeUse inner := by
  intro node h
  exact (Covers.each h hinner).settles h (by decide)

theorem handles_functionType : Handles (height + 1) .functionType (readFunctionType inner) := by
  intro node h
  have hc : Covers node _ (readFunctionType inner node) :=
    (Covers.one h (by decide) (handles_functionTypeParameters hinner).lower).bind fun _ _ =>
      (Covers.one h (by decide) hinner).bind fun _ _ => .pure _
  exact hc.settles h (by decide)

theorem settles_typeCore {node : Node} {rule : Rule} (h : Site (height + 1) rule node)
    (hrule : rule ∈ (Source.grammar.body .typeUse).heads) :
    Settles False (readTypeCore inner node) := by
  change rule ∈ [.functionType, .primitiveType, .userType] at hrule
  simp only [List.mem_cons, List.not_mem_nil, or_false] at hrule
  unfold readTypeCore
  rw [h.rule_eq]
  rcases hrule with rfl | rfl | rfl
  · exact (handles_functionType hinner node h).congr (by simpa using h.not_offends (by decide))
  · exact ((handles_primitiveType node h).map _).congr (by simpa using h.not_offends (by decide))
  · exact ((handles_userTypeWith hinner node h).map _).congr
      (by simpa using h.not_offends (by decide))

theorem handles_typeWith : Handles (height + 1) .typeUse (readTypeWith inner) := by
  intro node h
  obtain ⟨child, rest, hchildren, hrule⟩ := h.first_child (by decide)
  have hchild := (h.child (hchildren ▸ List.mem_cons_self)).mono (Nat.le_succ _)
  have hcore := settles_typeCore hinner hchild hrule
  simp only [readTypeWith, first, hchildren]
  exact (hcore.bind fun core _ => Settles.ok _).congr (by simpa using h.not_offends (by decide))

end Inside

/-- A tree is high enough for the fuel with which its types are read. -/
theorem handles_typeIn (fuel : Nat) : Handles fuel .typeUse (readTypeIn fuel) := by
  induction fuel with
  | zero => exact fun _ h => absurd h not_site_zero
  | succ fuel ih => exact handles_typeWith ih

theorem handles_type : Handles height .typeUse readType :=
  fun node h => handles_typeIn node.height node ⟨h.made, h.rule_eq, Nat.le_refl _⟩

theorem handles_userType : Handles height .userType readUserType :=
  (handles_userTypeWith handles_type).lower

theorem handles_typeArguments : Handles height .typeArguments readTypeArguments :=
  (handles_typeArgumentsWith handles_type).lower

theorem handles_typeOrVar : Handles (height + 1) .typeOrVar readTypeOrVar := by
  intro node h
  exact (Covers.atMostOne h (by decide) handles_type).settles h (by decide)

theorem handles_typeOrVoid : Handles (height + 1) .typeOrVoid readTypeOrVoid := by
  intro node h
  have hc : Covers node _ (readTypeOrVoid node) :=
    (Covers.atMostOne h (by decide) handles_type).bind fun type _ => by
      cases type with
      | none => exact .pure _
      | some type => exact .pure _
  exact hc.settles h (by decide)

theorem covers_declaredType {node : Node} {rule : Rule} (h : Site (height + 1) rule node)
    (honce : atMostOnce rule .typeOrVar) : Covers node [.typeOrVar] (readDeclaredType node) :=
  (Covers.atMostOne h honce handles_typeOrVar.lower).bind fun _ _ => .pure _

section Congruence

variable {α : Type} {node : Node} {rule : Rule}

theorem one_congr {read read' : Node → Read α} (h : ∀ t ∈ node.children, read t = read' t) :
    one node rule read = one node rule read' := by
  unfold one
  cases hchild : required node rule with
  | error e => rfl
  | ok child => exact h child (of_required hchild).1

theorem each_congr {read read' : Node → Read α} (h : ∀ t ∈ node.children, read t = read' t) :
    each node rule read = each node rule read' := by
  unfold each ParseTree.childrenOf
  generalize node.children = ts at h
  induction ts with
  | nil => rfl
  | cons t ts ih =>
    obtain ⟨ht, hts⟩ := List.forall_mem_cons.mp h
    rw [List.filter_cons]
    split
    · rw [List.mapM_cons, List.mapM_cons, ht, ih hts]
    · exact ih hts

theorem listUnder_congr {read read' : Node → Read (List α)}
    (h : ∀ t ∈ node.children, read t = read' t) :
    listUnder node rule read = listUnder node rule read' := by
  unfold listUnder atMostOne
  cases hchild : node.child? rule with
  | none => rfl
  | some child =>
    show (some <$> read child >>= _) = _
    rw [h child (mem_of_child? hchild).1]

end Congruence

/-- Two readers agree below a height. -/
def AgreeBelow (height : Nat) (inner inner' : TypeReader) : Prop :=
  ∀ node : Node, node.height < height → inner node = inner' node

section Inside

variable {inner inner' : TypeReader} {node t : Node}

theorem AgreeBelow.child (h : AgreeBelow node.height inner inner') (hmem : t ∈ node.children) :
    AgreeBelow t.height inner inner' :=
  fun u hu => h u (Nat.lt_trans hu (ParseTree.height_child_lt hmem))

theorem AgreeBelow.apply (h : AgreeBelow node.height inner inner') (hmem : t ∈ node.children) :
    inner t = inner' t :=
  h t (ParseTree.height_child_lt hmem)

theorem readTypeArgument_congr (h : AgreeBelow node.height inner inner') :
    readTypeArgument inner node = readTypeArgument inner' node := by
  unfold readTypeArgument
  rw [one_congr fun t ht => h.apply ht]

theorem readUserTypeWith_congr (h : AgreeBelow node.height inner inner') :
    readUserTypeWith inner node = readUserTypeWith inner' node := by
  have harguments : listUnder node .typeArguments (readTypeArgumentsWith inner) =
      listUnder node .typeArguments (readTypeArgumentsWith inner') :=
    listUnder_congr fun list hlist => each_congr fun argument hargument =>
      readTypeArgument_congr ((h.child hlist).child hargument)
  unfold readUserTypeWith
  rw [harguments]

theorem readFunctionType_congr (h : AgreeBelow node.height inner inner') :
    readFunctionType inner node = readFunctionType inner' node := by
  have hparameters : (one node .functionTypeParameters fun list => each list .typeUse inner) =
      one node .functionTypeParameters fun list => each list .typeUse inner' :=
    one_congr fun list hlist => each_congr fun t ht => (h.child hlist).apply ht
  unfold readFunctionType
  rw [hparameters, one_congr fun t ht => h.apply ht]

theorem readTypeWith_congr (h : AgreeBelow node.height inner inner') :
    readTypeWith inner node = readTypeWith inner' node := by
  unfold readTypeWith
  cases hcore : first node with
  | error e => rfl
  | ok core =>
    have hinner := h.child (of_first hcore)
    have heq : readTypeCore inner core = readTypeCore inner' core := by
      unfold readTypeCore
      rw [readFunctionType_congr hinner, readUserTypeWith_congr hinner]
    show (readTypeCore inner core >>= _) = _
    rw [heq]
    rfl

end Inside

theorem readTypeIn_congr {fuel fuel' : Nat} {node : Node} (h : node.height ≤ fuel)
    (h' : node.height ≤ fuel') : readTypeIn fuel node = readTypeIn fuel' node := by
  have hpos := height_pos node
  induction fuel generalizing fuel' node with
  | zero => omega
  | succ fuel ih =>
    obtain ⟨fuel', rfl⟩ := Nat.exists_eq_succ_of_ne_zero (n := fuel') (by omega)
    refine readTypeWith_congr fun t ht => ?_
    exact ih (by omega) (by omega) (height_pos t)

/-- Types are read with the reader of types at every depth. -/
theorem readType_eq (node : Node) : readType node = readTypeWith readType node := by
  have hfuel : readType node = readTypeIn (node.height + 1) node :=
    readTypeIn_congr (Nat.le_refl _) (Nat.le_succ _)
  rw [hfuel]
  exact readTypeWith_congr fun t ht => readTypeIn_congr (Nat.le_of_lt ht) (Nat.le_refl _)

end QuovaKotlin.Reading
