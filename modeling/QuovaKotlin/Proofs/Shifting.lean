import QuovaKotlin.Proofs.Placement

/-!
# Matching the same text at another place

What a pattern does depends on the text in front of it and not on where that text stands: at two
places with the same text it leaves the same trees, up to their spans. Only the start of the input
is different, so the rule of whole files is set apart.
-/

set_option autoImplicit false

namespace QuovaKotlin.Peg

variable {ρ : Type}

namespace ParseTree

mutual

/-- The tree with all its spans forgotten. -/
def erase : ParseTree ρ → ParseTree ρ
  | token r _ text => token r ⟨0, 0⟩ text
  | node r _ ts => node r ⟨0, 0⟩ (eraseAll ts)

def eraseAll : List (ParseTree ρ) → List (ParseTree ρ)
  | [] => []
  | t :: ts => t.erase :: eraseAll ts

end

theorem eraseAll_eq_map (ts : List (ParseTree ρ)) : eraseAll ts = ts.map erase := by
  induction ts with
  | nil => rfl
  | cons t ts ih => rw [eraseAll, ih, List.map_cons]

@[simp]
theorem rule_erase (t : ParseTree ρ) : t.erase.rule = t.rule := by
  cases t <;> rfl

@[simp]
theorem text_erase (t : ParseTree ρ) : t.erase.text = t.text := by
  cases t <;> rfl

theorem children_erase (t : ParseTree ρ) : t.erase.children = t.children.map erase := by
  cases t with
  | token => rfl
  | node r span ts => exact eraseAll_eq_map ts

/-- Two trees are alike if they differ in their spans only. -/
def Alike (s t : ParseTree ρ) : Prop :=
  s.erase = t.erase

theorem Alike.rule_eq {s t : ParseTree ρ} (h : Alike s t) : s.rule = t.rule := by
  rw [← rule_erase s, h, rule_erase]

theorem Alike.text_eq {s t : ParseTree ρ} (h : Alike s t) : s.text = t.text := by
  rw [← text_erase s, h, text_erase]

theorem Alike.children_eq {s t : ParseTree ρ} (h : Alike s t) :
    s.children.map erase = t.children.map erase := by
  rw [← children_erase, h, children_erase]

end ParseTree

/-- Two states of the scan over layout that differ in their places only. -/
inductive Layout.SameState : Layout.State → Layout.State → Prop
  | between : SameState .between .between
  | lineComment : SameState .lineComment .lineComment
  | blockComment {opening opening' : Cursor} : opening.rest = opening'.rest →
      SameState (.blockComment opening) (.blockComment opening')

theorem Layout.skipFrom_rest {state state' : Layout.State} (index index' : Nat)
    (rest : List Char) (h : Layout.SameState state state') :
    (Layout.skipFrom state index rest).rest = (Layout.skipFrom state' index' rest).rest := by
  fun_induction Layout.skipFrom state index rest generalizing state' index' with
  | case1 index rest ih =>
    cases h
    rw [Layout.skipFrom]
    exact ih _ .lineComment
  | case2 index rest ih =>
    cases h
    rw [Layout.skipFrom]
    exact ih _ (.blockComment rfl)
  | case3 index c rest hline hblock hblank ih =>
    cases h
    rw [Layout.skipFrom, if_pos hblank]
    · exact ih _ .between
    · exact hline
    · exact hblock
  | case4 index c rest hline hblock hblank =>
    cases h
    rw [Layout.skipFrom, if_neg hblank]
    · exact hline
    · exact hblock
  | case5 index c rest hends ih =>
    cases h
    rw [Layout.skipFrom, if_pos hends]
    exact ih _ .between
  | case6 index c rest hends ih =>
    cases h
    rw [Layout.skipFrom, if_neg hends]
    exact ih _ .lineComment
  | case7 opening index rest ih =>
    cases h
    rw [Layout.skipFrom]
    exact ih _ .between
  | case8 opening index c rest hclose ih =>
    cases h with
    | blockComment hopening =>
      rw [Layout.skipFrom]
      · exact ih _ (.blockComment hopening)
      · exact hclose
  | case9 opening =>
    cases h with
    | blockComment hopening =>
      rw [Layout.skipFrom]
      exact hopening
  | case10 state index hstate =>
    cases h with
    | between => rfl
    | lineComment => rfl
    | blockComment => exact absurd rfl (hstate _)

theorem Cursor.skipLayout_rest {c c' : Cursor} (h : c.rest = c'.rest) :
    c.skipLayout.rest = c'.skipLayout.rest := by
  rw [Cursor.skipLayout, Cursor.skipLayout, h]
  exact Layout.skipFrom_rest _ _ _ .between

theorem Cursor.strip?_rest {c c' : Cursor} (h : c.rest = c'.rest) (chars : List Char) :
    (c.strip? chars).map Cursor.rest = (c'.strip? chars).map Cursor.rest := by
  induction chars generalizing c c' with
  | nil => simpa [Cursor.strip?] using h
  | cons x chars ih =>
    rw [Cursor.strip?, Cursor.strip?, ← h]
    cases c.rest with
    | nil => rfl
    | cons y rest =>
      by_cases hxy : x = y
      · simp only [if_pos hxy]
        exact ih rfl
      · simp only [if_neg hxy]

/-- The pattern asks neither for the start of the input nor for the rule `top`. -/
def Pattern.avoids [DecidableEq ρ] (top : ρ) : Pattern ρ → Bool
  | .start => false
  | .rule r => r ≠ top
  | .seq p q | .choice p q => p.avoids top && q.avoids top
  | .star p | .more p | .optional p | .ahead p | .absent p => p.avoids top
  | .text _ | .char _ | .stop => true

namespace Grammar

variable {g : Grammar ρ}

/-- Two results that differ in the places of trees only, with the same text behind them. -/
def SameResult :
    Option (List (ParseTree ρ) × Cursor) → Option (List (ParseTree ρ) × Cursor) → Prop
  | none, none => True
  | some (ts, d), some (us, e) => ts.map ParseTree.erase = us.map ParseTree.erase ∧ d.rest = e.rest
  | _, _ => False

theorem SameResult.of_none {result : Option (List (ParseTree ρ) × Cursor)}
    (h : SameResult none result) : result = none := by
  cases result with
  | none => rfl
  | some => exact h.elim

theorem SameResult.of_some {ts : List (ParseTree ρ)} {d : Cursor}
    {result : Option (List (ParseTree ρ) × Cursor)} (h : SameResult (some (ts, d)) result) :
    ∃ us e, result = some (us, e) ∧
      ts.map ParseTree.erase = us.map ParseTree.erase ∧ d.rest = e.rest := by
  cases result with
  | none => exact h.elim
  | some r => exact ⟨r.1, r.2, rfl, h⟩

theorem between_rest (m : Mode) {c c' : Cursor} (h : c.rest = c'.rest) :
    (between m c).rest = (between m c').rest := by
  unfold between
  split
  · exact Cursor.skipLayout_rest h
  · exact h

/-- The trees of a rule are alike if the trees and the text that it matched are. -/
theorem erase_kept {m : Mode} {r : ρ} {c c' d d' : Cursor} {inner inner' : List (ParseTree ρ)}
    {u : List Char} (hu : c.Passes u d) (hu' : c'.Passes u d')
    (hinner : inner.map ParseTree.erase = inner'.map ParseTree.erase) :
    (g.kept m r c d inner).map ParseTree.erase = (g.kept m r c' d' inner').map ParseTree.erase := by
  unfold kept
  split
  · have htree : (g.treeOf r c d inner).erase = (g.treeOf r c' d' inner').erase := by
      unfold treeOf
      split
      · rw [ParseTree.erase, ParseTree.erase, hu.textTo_eq, hu'.textTo_eq]
      · rw [ParseTree.erase, ParseTree.erase, ParseTree.eraseAll_eq_map,
          ParseTree.eraseAll_eq_map, hinner]
    rw [List.map_singleton, List.map_singleton, htree]
  · rfl

/-- A pattern does the same wherever the same text follows. -/
theorem Evaluates.shift [DecidableEq ρ] {top : ρ}
    (hg : ∀ r, r ≠ top → (g.body r).avoids top) {m : Mode} {p : Pattern ρ} {c : Cursor}
    {result : Option (List (ParseTree ρ) × Cursor)} (h : Evaluates g m p c result)
    (hp : p.avoids top) {c' : Cursor} (hc : c.rest = c'.rest) :
    ∃ result', Evaluates g m p c' result' ∧ SameResult result result' := by
  induction h generalizing c' with
  | @text m chars c d h =>
    have hstrip := Cursor.strip?_rest hc chars
    rw [h] at hstrip
    obtain ⟨d', hd', hrest⟩ := Option.map_eq_some_iff.mp hstrip.symm
    exact ⟨_, .text hd', rfl, hrest.symm⟩
  | @noText m chars c h =>
    have hstrip := Cursor.strip?_rest hc chars
    rw [h] at hstrip
    exact ⟨_, .noText (Option.map_eq_none_iff.mp hstrip.symm), trivial⟩
  | @char m cls index x rest h =>
    obtain ⟨index', rest'⟩ := c'
    obtain rfl : x :: rest = rest' := hc
    exact ⟨_, .char h, rfl, rfl⟩
  | noChar h => exact ⟨_, .noChar (hc ▸ h), trivial⟩
  | start | noStart => cases hp
  | stop h => exact ⟨_, .stop (hc ▸ h), rfl, hc⟩
  | noStop h => exact ⟨_, .noStop (hc ▸ h), trivial⟩
  | @rule m r c inner d h ih =>
    obtain ⟨result', h', hsame⟩ := ih (hg r (of_decide_eq_true hp)) hc
    obtain ⟨inner', d', rfl, hinner, hd⟩ := hsame.of_some
    obtain ⟨u, hu⟩ := h.passes _ _ rfl
    obtain ⟨u', hu'⟩ := h'.passes _ _ rfl
    have huu : u = u' := by
      have happend : u ++ d.rest = u' ++ d.rest := by
        rw [← hu.rest_eq, hc, hu'.rest_eq, hd]
      exact List.append_cancel_right happend
    subst huu
    exact ⟨_, .rule h', erase_kept hu hu' hinner, hd⟩
  | @noRule m r c h ih =>
    obtain ⟨result', h', hsame⟩ := ih (hg r (of_decide_eq_true hp)) hc
    obtain rfl := hsame.of_none
    exact ⟨_, .noRule h', trivial⟩
  | @seq m p q c d e ts us h _ ih ih' =>
    obtain ⟨hp, hq⟩ := Bool.and_eq_true_iff.mp hp
    obtain ⟨_, h₁, hsame⟩ := ih hp hc
    obtain ⟨ts', d', rfl, hts, hd⟩ := hsame.of_some
    obtain ⟨_, h₂, hsame⟩ := ih' hq (between_rest m hd)
    obtain ⟨us', e', rfl, hus, he⟩ := hsame.of_some
    exact ⟨_, .seq h₁ h₂, by rw [List.map_append, List.map_append, hts, hus], he⟩
  | noFirst _ ih =>
    obtain ⟨hp, -⟩ := Bool.and_eq_true_iff.mp hp
    obtain ⟨_, h₁, hsame⟩ := ih hp hc
    obtain rfl := hsame.of_none
    exact ⟨_, .noFirst h₁, trivial⟩
  | @noSecond m p q c d ts _ _ ih ih' =>
    obtain ⟨hp, hq⟩ := Bool.and_eq_true_iff.mp hp
    obtain ⟨_, h₁, hsame⟩ := ih hp hc
    obtain ⟨ts', d', rfl, -, hd⟩ := hsame.of_some
    obtain ⟨_, h₂, hsame⟩ := ih' hq (between_rest m hd)
    obtain rfl := hsame.of_none
    exact ⟨_, .noSecond h₁ h₂, trivial⟩
  | first _ ih =>
    obtain ⟨hp, -⟩ := Bool.and_eq_true_iff.mp hp
    obtain ⟨_, h₁, hsame⟩ := ih hp hc
    obtain ⟨ts', d', rfl, hts, hd⟩ := hsame.of_some
    exact ⟨_, .first h₁, hts, hd⟩
  | second _ _ ih ih' =>
    obtain ⟨hp, hq⟩ := Bool.and_eq_true_iff.mp hp
    obtain ⟨_, h₁, hsame⟩ := ih hp hc
    obtain rfl := hsame.of_none
    obtain ⟨result', h₂, hsame⟩ := ih' hq hc
    exact ⟨result', .second h₁ h₂, hsame⟩
  | star _ _ ih ih' =>
    obtain ⟨_, h₁, hsame⟩ := ih hp hc
    obtain ⟨ts', d', rfl, hts, hd⟩ := hsame.of_some
    obtain ⟨_, h₂, hsame⟩ := ih' hp hd
    obtain ⟨us', e', rfl, hus, he⟩ := hsame.of_some
    exact ⟨_, .star h₁ h₂, by rw [List.map_append, List.map_append, hts, hus], he⟩
  | noStar _ ih =>
    obtain ⟨_, h₁, hsame⟩ := ih hp hc
    obtain rfl := hsame.of_none
    exact ⟨_, .noStar h₁, rfl, hc⟩
  | @more m p c ts d us e _ _ ih ih' =>
    obtain ⟨_, h₁, hsame⟩ := ih hp (between_rest m hc)
    obtain ⟨ts', d', rfl, hts, hd⟩ := hsame.of_some
    obtain ⟨_, h₂, hsame⟩ := ih' hp hd
    obtain ⟨us', e', rfl, hus, he⟩ := hsame.of_some
    exact ⟨_, .more h₁ h₂, by rw [List.map_append, List.map_append, hts, hus], he⟩
  | @noMore m p c _ ih =>
    obtain ⟨_, h₁, hsame⟩ := ih hp (between_rest m hc)
    obtain rfl := hsame.of_none
    exact ⟨_, .noMore h₁, rfl, hc⟩
  | optional _ ih =>
    obtain ⟨_, h₁, hsame⟩ := ih hp hc
    obtain ⟨ts', d', rfl, hts, hd⟩ := hsame.of_some
    exact ⟨_, .optional h₁, hts, hd⟩
  | noOptional _ ih =>
    obtain ⟨_, h₁, hsame⟩ := ih hp hc
    obtain rfl := hsame.of_none
    exact ⟨_, .noOptional h₁, rfl, hc⟩
  | ahead _ ih =>
    obtain ⟨_, h₁, hsame⟩ := ih hp hc
    obtain ⟨ts', d', rfl, -, -⟩ := hsame.of_some
    exact ⟨_, .ahead h₁, rfl, hc⟩
  | noAhead _ ih =>
    obtain ⟨_, h₁, hsame⟩ := ih hp hc
    obtain rfl := hsame.of_none
    exact ⟨_, .noAhead h₁, trivial⟩
  | absent _ ih =>
    obtain ⟨_, h₁, hsame⟩ := ih hp hc
    obtain rfl := hsame.of_none
    exact ⟨_, .absent h₁, rfl, hc⟩
  | noAbsent _ ih =>
    obtain ⟨_, h₁, hsame⟩ := ih hp hc
    obtain ⟨ts', d', rfl, -, -⟩ := hsame.of_some
    exact ⟨_, .noAbsent h₁, trivial⟩

end Grammar

end QuovaKotlin.Peg
