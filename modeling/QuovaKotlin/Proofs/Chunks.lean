import Mathlib.Data.List.Infix
import QuovaKotlin.Proofs.Evaluation

/-!
# Chunks of a text

A text falls into chunks between its blanks. Two texts stand alongside each other if they go on with
the same characters up to the next blank or the end, and with the same chunks behind that. In a text
without quotes and without anything that starts a comment or a shebang line, skipping layout is
skipping blanks, and it keeps texts alongside each other.
-/

set_option autoImplicit false

namespace QuovaKotlin.Peg

namespace Layout

def isVisible (c : Char) : Bool :=
  ! isBlank c

/-- The longest pieces of a text without a blank in them, in order. -/
def chunks (text : List Char) : List (List Char) :=
  (text.splitOnP isBlank).filter (! ·.isEmpty)

/-- The text holds no quote and nothing that starts a comment or a shebang line. -/
structure IsBare (text : List Char) : Prop where
  quote : '"' ∉ text
  apostrophe : '\'' ∉ text
  lineComment : ¬ ['/', '/'] <:+: text
  blockComment : ¬ ['/', '*'] <:+: text
  shebang : ¬ ['#', '!'] <:+: text

/-- Both texts go on with the same characters up to a blank or the end, and with the same chunks
behind these. -/
structure Alongside (u v : List Char) : Prop where
  visible_eq : u.takeWhile isVisible = v.takeWhile isVisible
  chunks_eq : chunks (u.dropWhile isVisible) = chunks (v.dropWhile isVisible)

variable {u v : List Char} {x : Char}

theorem chunks_of_blank (hx : isBlank x) : chunks (x :: u) = chunks u := by
  rw [chunks, List.splitOnP_cons_eq_if_modifyHead, if_pos hx]
  rfl

theorem chunks_dropWhile_isBlank (u : List Char) : chunks (u.dropWhile isBlank) = chunks u := by
  induction u with
  | nil => rfl
  | cons x u ih =>
    rw [List.dropWhile_cons]
    split
    · next hx => rw [ih, chunks_of_blank hx]
    · rfl

/-- What stands in front of the first blank is the first piece of the split text. -/
theorem splitOnP_isBlank (u : List Char) :
    u.splitOnP isBlank =
      u.takeWhile isVisible ::
        (match u.dropWhile isVisible with
          | [] => []
          | _ :: rest => rest.splitOnP isBlank) := by
  induction u with
  | nil => rfl
  | cons x u ih =>
    rw [List.splitOnP_cons_eq_if_modifyHead]
    by_cases hx : isBlank x
    · simp [hx, isVisible]
    · rw [if_neg hx, ih]
      simp [hx, isVisible]

theorem chunks_eq_append (u : List Char) :
    chunks u = [u.takeWhile isVisible].filter (! ·.isEmpty) ++ chunks (u.dropWhile isVisible) := by
  have hrest : chunks (u.dropWhile isVisible) =
      (match u.dropWhile isVisible with
        | [] => []
        | _ :: rest => rest.splitOnP isBlank).filter (! ·.isEmpty) := by
    cases hdrop : u.dropWhile isVisible with
    | nil => rfl
    | cons x rest =>
      have hx : isBlank x := by
        have hhead := List.head?_dropWhile_not isVisible u
        simpa [hdrop, isVisible] using hhead
      exact chunks_of_blank hx
  rw [hrest, chunks, splitOnP_isBlank, ← List.filter_append, List.singleton_append]

theorem chunks_of_visible (hx : isVisible x) :
    chunks (x :: u) = (x :: u.takeWhile isVisible) :: chunks (u.dropWhile isVisible) := by
  rw [chunks_eq_append, List.takeWhile_cons_of_pos hx, List.dropWhile_cons_of_pos hx]
  rfl

/-- No blank stands in front of the text. -/
def IsSettled (text : List Char) : Prop :=
  ∀ x ∈ text.head?, isVisible x

theorem isSettled_dropWhile (u : List Char) : IsSettled (u.dropWhile isBlank) := by
  intro x hx
  have hhead := List.head?_dropWhile_not isBlank u
  rw [Option.mem_def.mp hx] at hhead
  simpa [isVisible] using hhead

namespace Alongside

theorem symm (h : Alongside u v) : Alongside v u :=
  ⟨h.visible_eq.symm, h.chunks_eq.symm⟩

theorem chunks_all_eq (h : Alongside u v) : chunks u = chunks v := by
  rw [chunks_eq_append u, chunks_eq_append v, h.visible_eq, h.chunks_eq]

/-- Texts alongside each other start with the same visible character, if with any. -/
theorem cons (h : Alongside (x :: u) v) (hx : isVisible x) :
    ∃ v', v = x :: v' ∧ Alongside u v' := by
  obtain ⟨hvisible, hchunks⟩ := h
  rw [List.takeWhile_cons_of_pos hx] at hvisible
  rw [List.dropWhile_cons_of_pos hx] at hchunks
  cases v with
  | nil => cases hvisible
  | cons y v =>
    by_cases hy : isVisible y
    · rw [List.takeWhile_cons_of_pos hy] at hvisible
      rw [List.dropWhile_cons_of_pos hy] at hchunks
      obtain ⟨rfl, htail⟩ := List.cons.inj hvisible
      exact ⟨v, rfl, htail, hchunks⟩
    · rw [List.takeWhile_cons_of_neg hy] at hvisible
      cases hvisible

theorem of_chunks (hu : IsSettled u) (hv : IsSettled v) (hchunks : chunks u = chunks v) :
    Alongside u v := by
  cases u with
  | nil =>
    cases v with
    | nil => exact ⟨rfl, rfl⟩
    | cons y v =>
      rw [chunks_of_visible (hv y rfl)] at hchunks
      cases hchunks
  | cons x u =>
    have hx := hu x rfl
    rw [chunks_of_visible hx] at hchunks
    cases v with
    | nil => cases hchunks
    | cons y v =>
      have hy := hv y rfl
      rw [chunks_of_visible hy] at hchunks
      obtain ⟨hfirst, hrest⟩ := List.cons.inj hchunks
      refine ⟨?_, ?_⟩
      · rw [List.takeWhile_cons_of_pos hx, List.takeWhile_cons_of_pos hy, hfirst]
      · rw [List.dropWhile_cons_of_pos hx, List.dropWhile_cons_of_pos hy, hrest]

theorem skipBlanks (h : chunks u = chunks v) :
    Alongside (u.dropWhile isBlank) (v.dropWhile isBlank) := by
  refine of_chunks (isSettled_dropWhile u) (isSettled_dropWhile v) ?_
  rw [chunks_dropWhile_isBlank, chunks_dropWhile_isBlank, h]

/-- Settled texts alongside each other end together. -/
theorem eq_nil_iff (h : Alongside u v) (hu : IsSettled u) (hv : IsSettled v) :
    u = [] ↔ v = [] := by
  constructor
  · rintro rfl
    cases v with
    | nil => rfl
    | cons y v =>
      obtain ⟨u', heq, -⟩ := h.symm.cons (hv y rfl)
      cases heq
  · rintro rfl
    cases u with
    | nil => rfl
    | cons x u =>
      obtain ⟨v', heq, -⟩ := h.cons (hu x rfl)
      cases heq

end Alongside

theorem IsBare.of_append (h : IsBare (u ++ v)) : IsBare v := by
  have hsuffix : v <:+ u ++ v := List.suffix_append u v
  exact ⟨fun hmem => h.quote (hsuffix.mem hmem), fun hmem => h.apostrophe (hsuffix.mem hmem),
    fun hmark => h.lineComment (hmark.trans hsuffix.isInfix),
    fun hmark => h.blockComment (hmark.trans hsuffix.isInfix),
    fun hmark => h.shebang (hmark.trans hsuffix.isInfix)⟩

instance (text : List Char) : Decidable (IsBare text) :=
  decidable_of_iff ('"' ∉ text ∧ '\'' ∉ text ∧ ¬ ['/', '/'] <:+: text ∧ ¬ ['/', '*'] <:+: text ∧
      ¬ ['#', '!'] <:+: text)
    ⟨fun ⟨h₁, h₂, h₃, h₄, h₅⟩ => ⟨h₁, h₂, h₃, h₄, h₅⟩,
      fun h => ⟨h.quote, h.apostrophe, h.lineComment, h.blockComment, h.shebang⟩⟩

/-- Without comments there are only blanks to skip. -/
theorem skipFrom_of_isBare (index : Nat) (h : IsBare u) :
    (skipFrom .between index u).rest = u.dropWhile isBlank := by
  induction u generalizing index with
  | nil => rfl
  | cons x u ih =>
    have hline : ∀ rest, x :: u ≠ '/' :: '/' :: rest :=
      fun rest heq => h.lineComment ⟨[], rest, heq.symm⟩
    have hblock : ∀ rest, x :: u ≠ '/' :: '*' :: rest :=
      fun rest heq => h.blockComment ⟨[], rest, heq.symm⟩
    rw [skipFrom, List.dropWhile_cons]
    · split
      · exact ih _ (IsBare.of_append (u := [x]) h)
      · rfl
    · rintro rest rfl rfl
      exact hline rest rfl
    · rintro rest rfl rfl
      exact hblock rest rfl

end Layout

theorem Cursor.skipLayout_of_isBare {c : Cursor} (h : Layout.IsBare c.rest) :
    c.skipLayout.rest = c.rest.dropWhile Layout.isBlank :=
  Layout.skipFrom_of_isBare c.index h

theorem Cursor.Passes.isBare {c d : Cursor} {u : List Char} (h : c.Passes u d)
    (hbare : Layout.IsBare c.rest) : Layout.IsBare d.rest :=
  Layout.IsBare.of_append (u := u) (h.rest_eq ▸ hbare)

end QuovaKotlin.Peg
