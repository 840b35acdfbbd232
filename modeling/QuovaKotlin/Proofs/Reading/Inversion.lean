import Mathlib.Data.List.Forall2
import QuovaKotlin.Reading.Basic

/-!
# What a reader has read

A reader that succeeds has found the children that it asks for. These lemmas take a result apart,
for trees of any grammar.
-/

set_option autoImplicit false

namespace QuovaKotlin.Reading

open Peg (ParseTree)

section

variable {α β : Type}

theorem ok_of_toOption {ε : Type} {r : Except ε α} {a : α} (h : r.toOption = some a) :
    r = .ok a := by
  cases r with
  | error e => cases h
  | ok b =>
    cases h
    rfl

theorem ok_bind (a : α) (f : α → Read β) : (Except.ok a >>= f : Read β) = f a :=
  rfl

theorem map_eq_ok {f : α → β} {r : Read α} {b : β} (h : f <$> r = .ok b) :
    ∃ a, r = .ok a ∧ f a = b := by
  cases r with
  | error e => cases h
  | ok a =>
    cases h
    exact ⟨a, rfl, rfl⟩

theorem bind_eq_ok {f : α → Read β} {r : Read α} {b : β} (h : r >>= f = .ok b) :
    ∃ a, r = .ok a ∧ f a = .ok b := by
  cases r with
  | error e => cases h
  | ok a => exact ⟨a, rfl, h⟩

theorem forall₂_of_mapM {τ : Type} {read : τ → Read α} {R : τ → α → Prop} {ts : List τ}
    {xs : List α} (h : ts.mapM read = .ok xs) (hR : ∀ t ∈ ts, ∀ x, read t = .ok x → R t x) :
    List.Forall₂ R ts xs := by
  induction ts generalizing xs with
  | nil =>
    cases h
    exact .nil
  | cons t ts ih =>
    rw [List.mapM_cons] at h
    obtain ⟨y, hy, h⟩ := bind_eq_ok h
    obtain ⟨ys, hys, h⟩ := bind_eq_ok h
    cases h
    exact .cons (hR t List.mem_cons_self y hy)
      (ih hys fun t' ht' => hR t' (List.mem_cons_of_mem t ht'))

theorem mapM_eq_ok_iff {τ : Type} {read : τ → Read α} {ts : List τ} {xs : List α} :
    ts.mapM read = .ok xs ↔ List.Forall₂ (fun t x => read t = .ok x) ts xs := by
  constructor
  · exact fun h => forall₂_of_mapM h fun _ _ _ hread => hread
  · intro h
    induction h with
    | nil => rfl
    | cons hread _ ih =>
      rw [List.mapM_cons, hread, ok_bind, ih]
      rfl

theorem exists_of_forall₂ {R : α → β → Prop} {xs : List α} {ys : List β}
    (h : List.Forall₂ R xs ys) {y : β} (hy : y ∈ ys) : ∃ x ∈ xs, R x y := by
  induction h with
  | nil => cases hy
  | @cons x y' xs ys hxy _ ih =>
    rcases List.mem_cons.mp hy with rfl | hy
    · exact ⟨x, List.mem_cons_self, hxy⟩
    · obtain ⟨x', hx', hR⟩ := ih hy
      exact ⟨x', List.mem_cons_of_mem x hx', hR⟩

theorem forall₂_append_left_iff {R : α → β → Prop} {xs xs' : List α} {zs : List β} :
    List.Forall₂ R (xs ++ xs') zs ↔
      ∃ ys ys', List.Forall₂ R xs ys ∧ List.Forall₂ R xs' ys' ∧ zs = ys ++ ys' := by
  constructor
  · intro h
    induction xs generalizing zs with
    | nil => exact ⟨[], zs, .nil, h, rfl⟩
    | cons x xs ih =>
      obtain ⟨z, rest, hz, hrest, rfl⟩ := List.forall₂_cons_left_iff.mp h
      obtain ⟨ys, ys', hys, hys', rfl⟩ := ih hrest
      exact ⟨z :: ys, ys', .cons hz hys, hys', rfl⟩
  · rintro ⟨ys, ys', hys, hys', rfl⟩
    exact List.rel_append hys hys'

theorem of_mapM {τ : Type} {read : τ → Read α} {ts : List τ} {xs : List α}
    (h : ts.mapM read = .ok xs) : ∀ x ∈ xs, ∃ t ∈ ts, read t = .ok x :=
  fun _ hx => exists_of_forall₂ (mapM_eq_ok_iff.mp h) hx

end

section

variable {ρ : Type} [DecidableEq ρ] {node child : ParseTree ρ} {rule : ρ}

theorem exists_child? (hmem : child ∈ node.children) (hrule : child.rule = rule) :
    ∃ child, node.child? rule = some child := by
  have hsome : (node.child? rule).isSome := by
    rw [ParseTree.child?, List.find?_isSome]
    exact ⟨child, hmem, by simpa using hrule⟩
  exact Option.isSome_iff_exists.mp hsome

theorem childrenOf_eq_nil : node.childrenOf rule = [] ↔ node.child? rule = none := by
  simp [ParseTree.child?, ParseTree.childrenOf, List.find?_eq_none, List.filter_eq_nil_iff]

theorem mem_of_child? (h : node.child? rule = some child) :
    child ∈ node.children ∧ child.rule = rule :=
  ⟨List.mem_of_find?_eq_some h, by simpa using List.find?_some h⟩

variable {α : Type} {read : ParseTree ρ → Read α}

theorem of_each {xs : List α} (h : each node rule read = .ok xs) :
    ∀ x ∈ xs, ∃ child ∈ node.children, child.rule = rule ∧ read child = .ok x := by
  intro x hx
  obtain ⟨child, hmem, hread⟩ := of_mapM h x hx
  obtain ⟨hmem, hrule⟩ := List.mem_filter.mp hmem
  exact ⟨child, hmem, of_decide_eq_true hrule, hread⟩

theorem of_atMostOne {value : Option α} (h : atMostOne node rule read = .ok value) :
    ∀ x ∈ value, ∃ child ∈ node.children, child.rule = rule ∧ read child = .ok x := by
  intro x hx
  obtain rfl : value = some x := hx
  unfold atMostOne at h
  split at h
  · next child hfound =>
    obtain ⟨y, hread, heq⟩ := map_eq_ok h
    cases heq
    exact ⟨child, (mem_of_child? hfound).1, (mem_of_child? hfound).2, hread⟩
  · cases h

theorem of_listUnder {read : ParseTree ρ → Read (List α)} {xs : List α}
    (h : listUnder node rule read = .ok xs) :
    xs = [] ∨ ∃ child ∈ node.children, child.rule = rule ∧ read child = .ok xs := by
  obtain ⟨value, hvalue, h⟩ := bind_eq_ok h
  cases h
  cases value with
  | none => exact .inl rfl
  | some ys => exact .inr (of_atMostOne hvalue ys rfl)

variable [Labeled ρ]

theorem child?_of_required (h : required node rule = .ok child) :
    node.child? rule = some child := by
  unfold required at h
  split at h
  · next hfound =>
    cases h
    exact hfound
  · cases h

theorem of_required (h : required node rule = .ok child) :
    child ∈ node.children ∧ child.rule = rule :=
  mem_of_child? (child?_of_required h)

theorem one_eq_ok_iff {x : α} :
    one node rule read = .ok x ↔ ∃ child, node.child? rule = some child ∧ read child = .ok x := by
  constructor
  · intro h
    obtain ⟨child, hchild, hread⟩ := bind_eq_ok h
    exact ⟨child, child?_of_required hchild, hread⟩
  · rintro ⟨child, hchild, hread⟩
    rw [one, required, hchild]
    exact hread

theorem of_one {x : α} (h : one node rule read = .ok x) :
    ∃ child ∈ node.children, child.rule = rule ∧ read child = .ok x := by
  obtain ⟨child, hchild, hread⟩ := one_eq_ok_iff.mp h
  exact ⟨child, (mem_of_child? hchild).1, (mem_of_child? hchild).2, hread⟩

omit [DecidableEq ρ] in
theorem first_eq_ok (h : first node = .ok child) : ∃ rest, node.children = child :: rest := by
  unfold first at h
  split at h
  · next child' rest hchildren =>
    cases h
    exact ⟨rest, hchildren⟩
  · cases h

omit [DecidableEq ρ] in
theorem of_first (h : first node = .ok child) : child ∈ node.children := by
  obtain ⟨rest, hchildren⟩ := first_eq_ok h
  rw [hchildren]
  exact List.mem_cons_self

omit [DecidableEq ρ] in
theorem meaning_eq_ok_iff {table : String → Option α} {a : α} :
    meaning table node = .ok a ↔ table node.text = some a := by
  unfold meaning
  cases table node.text with
  | none => exact ⟨nofun, nofun⟩
  | some b => exact ⟨fun h => congrArg some (Except.ok.inj h), fun h => by cases h; rfl⟩

end

end QuovaKotlin.Reading
