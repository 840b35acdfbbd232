import QuovaKotlin.Proofs.Lexemes
import QuovaKotlin.Proofs.Placement

/-!
# Steps over a text

How a pattern goes over a text that is known: text by text, with or without layout between the
parts, for any grammar.
-/

set_option autoImplicit false

namespace QuovaKotlin.Peg

variable {ρ : Type} {g : Grammar ρ} {m : Mode} {p q : Pattern ρ} {c d e : Cursor}
  {u v : List Char}

theorem passes_split (h : c.Passes (u ++ v) d) : ∃ e, c.Passes u e ∧ e.Passes v d := by
  refine ⟨⟨c.index + u.length, v ++ d.rest⟩, ⟨?_, rfl⟩, ⟨rfl, ?_⟩⟩
  · rw [h.rest_eq, List.append_assoc]
  · rw [h.index_eq, List.length_append, Nat.add_assoc]

theorem strip?_of_passes (h : c.Passes u d) : c.strip? u = some d := by
  obtain ⟨e, he⟩ := Grammar.Cursor.strip?_of_prefix ⟨d.rest, h.rest_eq.symm⟩
  have hpasses := Cursor.strip?_passes he
  rw [he]
  obtain ⟨index, rest⟩ := d
  obtain ⟨index', rest'⟩ := e
  have hrest : u ++ rest' = u ++ rest := hpasses.rest_eq.symm.trans h.rest_eq
  have hindex := hpasses.index_eq.trans h.index_eq.symm
  rw [List.append_cancel_left hrest, show index' = index from hindex]

/-- From the start of a text to its end. -/
theorem Cursor.passes_all (u : List Char) : Cursor.Passes ⟨0, u⟩ u ⟨u.length, []⟩ :=
  ⟨(List.append_nil u).symm, (Nat.zero_add u.length).symm⟩

theorem Cursor.Passes.eq_of_nil (h : c.Passes [] d) : c = d := by
  obtain ⟨index, rest⟩ := c
  obtain ⟨index', rest'⟩ := d
  cases h.rest_eq
  cases h.index_eq
  rfl

/-- The place behind the first character. -/
theorem Cursor.Passes.of_cons {x : Char} (h : c.Passes (x :: u) d) :
    ∃ index rest, c = ⟨index, x :: rest⟩ ∧ Cursor.Passes ⟨index + 1, rest⟩ u d := by
  obtain ⟨index, rest⟩ := c
  have hrest : rest = x :: (u ++ d.rest) := h.rest_eq
  have hindex : d.index = index + (u.length + 1) := h.index_eq
  exact ⟨index, u ++ d.rest, by rw [hrest], rfl, by rw [hindex, Nat.add_assoc, Nat.add_comm 1]⟩

theorem skipLayout_of_passes {x : Char} (h : c.Passes (x :: u) d)
    (hx : ¬ Layout.isBlank x ∧ x ≠ '/') : c.skipLayout = c := by
  refine Cursor.skipLayout_eq_self ?_
  intro y hy
  rw [h.rest_eq] at hy
  obtain rfl : x = y := by simpa using hy
  exact hx

theorem Cursor.skipLayout_cons_blank {index : Nat} {x : Char} {rest : List Char}
    (hx : Layout.isBlank x) :
    Cursor.skipLayout ⟨index, x :: rest⟩ = Cursor.skipLayout ⟨index + 1, rest⟩ := by
  have hslash : x ≠ '/' := by
    rintro rfl
    exact absurd hx (by decide)
  simp [Cursor.skipLayout, Layout.skipFrom, hslash, hx]

/-- Blanks are skipped one after the other. -/
theorem Cursor.Passes.skipLayout_eq (h : c.Passes u d) (hu : u.all Layout.isBlank) :
    c.skipLayout = d.skipLayout := by
  induction u generalizing c with
  | nil => rw [h.eq_of_nil]
  | cons x u ih =>
    obtain ⟨index, rest, rfl, hrest⟩ := h.of_cons
    rw [List.all_cons, Bool.and_eq_true] at hu
    rw [skipLayout_cons_blank hu.1]
    exact ih hrest hu.2

theorem skipLayout_of_blank (h : c.Passes [' '] d) (hd : d.skipLayout = d) : c.skipLayout = d :=
  (h.skipLayout_eq rfl).trans hd

namespace Grammar

variable {ts us : List (ParseTree ρ)} {r : ρ}

theorem between_default (c : Cursor) : between {} c = c.skipLayout :=
  rfl

theorem Evaluates.step (hp : Evaluates g {} p c (some (ts, d))) (hd : d.skipLayout = e) {f : Cursor}
    (hq : Evaluates g {} q e (some (us, f))) : Evaluates g {} (.seq p q) c (some (ts ++ us, f)) :=
  .seq hp (by rwa [between_default, hd])

theorem Evaluates.node (hkind : g.kind r = .normal)
    (h : Evaluates g {} (g.body r) c (some (ts, d))) :
    Evaluates g {} (.rule r) c (some ([.node r ⟨c.index, d.index⟩ ts], d)) := by
  have hmode : (g.modes {} r).2 = {} := by rw [modes, hkind]
  have hrule := Evaluates.rule (m := {}) (r := r) (by rwa [hmode])
  rwa [kept, if_pos (modes_keepsTrees rfl).1, treeOf, hkind] at hrule

theorem Evaluates.token (hkind : g.kind r = .atomic) (hm : m.keepsTrees) (hpasses : c.Passes u d)
    (h : Evaluates g (g.modes m r).2 (g.body r) c (some (ts, d))) :
    Evaluates g m (.rule r) c (some ([.token r ⟨c.index, d.index⟩ (.ofList u)], d)) := by
  have hrule := Evaluates.rule h
  rwa [kept, if_pos (modes_keepsTrees hm).1, treeOf, hkind, hpasses.textTo_eq] at hrule

theorem evaluates_noText {x : Char} {chars : List Char} (h : c.rest.head? ≠ some x) :
    Evaluates g m (.text (x :: chars)) c none := by
  refine .noText ?_
  obtain ⟨index, rest⟩ := c
  cases rest with
  | nil => rfl
  | cons y rest => exact if_neg fun hx => h (by rw [hx]; rfl)

theorem seq_of_kind (hm : m.kind ≠ .normal)
    (hp : Evaluates g m p c (some (ts, d))) (hq : Evaluates g m q d (some (us, e))) :
    Evaluates g m (.seq p q) c (some (ts ++ us, e)) :=
  .seq hp (by rwa [between_of_kind hm])

/-- A text that is a row of pieces is taken piece by piece. What is known of the text in front of a
piece, and in front of the end, may be used to take the piece before it. -/
theorem evaluates_star_pieces {ws : List (List Char)} (next : List Char → Prop)
    (hm : m.kind ≠ .normal) (hstart : ∀ w ∈ ws, ∀ r, next (w ++ r))
    (hstep : ∀ w ∈ ws, ∀ c d : Cursor, c.Passes w d → next d.rest →
      Evaluates g m p c (some ([], d)))
    (hpasses : c.Passes ws.flatten e) (hend : next e.rest) (hstop : Evaluates g m p e none) :
    Evaluates g m (.star p) c (some ([], e)) := by
  rw [evaluates_star_iff (between_of_kind hm c)]
  induction ws generalizing c with
  | nil =>
    obtain rfl := hpasses.eq_of_nil
    exact .noMore (by rwa [between_of_kind hm])
  | cons w ws ih =>
    obtain ⟨d, hw, hrest⟩ := passes_split (u := w) hpasses
    have hnext : next d.rest := by
      rw [hrest.rest_eq]
      cases ws with
      | nil => exact hend
      | cons w' ws =>
        rw [List.flatten_cons, List.append_assoc]
        exact hstart w' (by simp) _
    have hpiece := hstep w List.mem_cons_self c d hw hnext
    have hothers := ih (fun w hw => hstart w (List.mem_cons_of_mem _ hw))
      (fun w hw => hstep w (List.mem_cons_of_mem _ hw)) hrest
    exact Evaluates.more (by rwa [between_of_kind hm]) hothers

/-- A text is taken character by character. -/
theorem evaluates_star_chars (hm : m.kind ≠ .normal)
    (hstep : ∀ x ∈ u, ∀ index rest,
      Evaluates g m p ⟨index, x :: rest⟩ (some ([], ⟨index + 1, rest⟩)))
    (hpasses : c.Passes u d) (hstop : Evaluates g m p d none) :
    Evaluates g m (.star p) c (some ([], d)) := by
  have hflatten : (u.map ([·])).flatten = u := by
    rw [← List.flatMap_def]
    exact List.flatMap_singleton' u
  rw [← hflatten] at hpasses
  refine evaluates_star_pieces (fun _ => True) hm (fun _ _ _ => trivial) ?_ hpasses trivial hstop
  intro w hw c d hpasses _
  obtain ⟨x, hx, rfl⟩ := List.mem_map.mp hw
  obtain ⟨index, rest, rfl, hrest⟩ := hpasses.of_cons
  rw [← hrest.eq_of_nil]
  exact hstep x hx index rest

theorem evaluates_plus_chars (hm : m.kind ≠ .normal) (hne : u ≠ [])
    (hstep : ∀ x ∈ u, ∀ index rest,
      Evaluates g m p ⟨index, x :: rest⟩ (some ([], ⟨index + 1, rest⟩)))
    (hpasses : c.Passes u d) (hstop : Evaluates g m p d none) :
    Evaluates g m (.plus p) c (some ([], d)) := by
  cases u with
  | nil => exact absurd rfl hne
  | cons x u =>
    obtain ⟨index, rest, rfl, hrest⟩ := hpasses.of_cons
    exact seq_of_kind hm (hstep x List.mem_cons_self index rest)
      (evaluates_star_chars hm (fun y hy => hstep y (List.mem_cons_of_mem x hy)) hrest hstop)

theorem evaluates_anyExcept (hm : m.kind ≠ .normal) {index : Nat} {x : Char} {rest : List Char}
    (h : Evaluates g { m with lookahead := m.lookahead.invert } p ⟨index, x :: rest⟩ none) :
    Evaluates g m (.anyExcept p) ⟨index, x :: rest⟩ (some ([], ⟨index + 1, rest⟩)) :=
  seq_of_kind hm (.absent h) (.char rfl)

end Grammar

end QuovaKotlin.Peg
