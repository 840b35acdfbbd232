import QuovaKotlin.Proofs.ParseTrees

/-!
# Where a tree stands

Every part of a parse tree comes from a match of its own rule somewhere in the text, and the parts
of a tree stand in the order of the text. The lemmas below take such a match apart, constructor by
constructor of its pattern.
-/

set_option autoImplicit false

namespace QuovaKotlin.Peg

/-- A choice between rules and nothing else. -/
def Pattern.isRuleChoice {ρ : Type} : Pattern ρ → Bool
  | .rule _ => true
  | .choice p q => p.isRuleChoice && q.isRuleChoice
  | _ => false

/-- The rule that every match of the pattern ends with, as far as a row of parts shows it. -/
def Pattern.lastRule? {ρ : Type} : Pattern ρ → Option ρ
  | .rule r => some r
  | .seq _ q => q.lastRule?
  | _ => none

namespace Grammar

variable {ρ : Type} {g : Grammar ρ} {m : Mode} {p q : Pattern ρ} {c d : Cursor}
  {ts : List (ParseTree ρ)}

theorem Evaluates.of_seq (h : Evaluates g m (.seq p q) c (some (ts, d))) :
    ∃ us vs e, ts = us ++ vs ∧ Evaluates g m p c (some (us, e)) ∧
      Evaluates g m q (between m e) (some (vs, d)) := by
  cases h with
  | seq h h' => exact ⟨_, _, _, rfl, h, h'⟩

theorem Evaluates.of_choice (h : Evaluates g m (.choice p q) c (some (ts, d))) :
    Evaluates g m p c (some (ts, d)) ∨
      Evaluates g m p c none ∧ Evaluates g m q c (some (ts, d)) := by
  cases h with
  | first h => exact .inl h
  | second h h' => exact .inr ⟨h, h'⟩

theorem Evaluates.of_optional (h : Evaluates g m (.optional p) c (some (ts, d))) :
    Evaluates g m p c (some (ts, d)) ∨ Evaluates g m p c none ∧ ts = [] ∧ d = c := by
  cases h with
  | optional h => exact .inl h
  | noOptional h => exact .inr ⟨h, rfl, rfl⟩

theorem Evaluates.of_text {chars : List Char} (h : Evaluates g m (.text chars) c (some (ts, d))) :
    ts = [] ∧ c.Passes chars d := by
  cases h with
  | text h => exact ⟨rfl, Cursor.strip?_passes h⟩

theorem Evaluates.of_absent (h : Evaluates g m (.absent p) c (some (ts, d))) :
    ts = [] ∧ d = c ∧ Evaluates g { m with lookahead := m.lookahead.invert } p c none := by
  cases h with
  | absent h => exact ⟨rfl, rfl, h⟩

theorem Evaluates.of_noChoice (h : Evaluates g m (.choice p q) c none) :
    Evaluates g m p c none ∧ Evaluates g m q c none := by
  cases h with
  | second h h' => exact ⟨h, h'⟩

theorem Cursor.strip?_of_prefix {chars : List Char} {c : Cursor} (h : chars <+: c.rest) :
    ∃ d, c.strip? chars = some d := by
  induction chars generalizing c with
  | nil => exact ⟨c, rfl⟩
  | cons x chars ih =>
    obtain ⟨index, rest⟩ := c
    obtain ⟨u, rfl⟩ : ∃ u, x :: chars ++ u = rest := h
    obtain ⟨d, hd⟩ := ih (c := ⟨index + 1, chars ++ u⟩) (List.prefix_append chars u)
    refine ⟨d, ?_⟩
    simpa [Cursor.strip?] using hd

/-- The input does not go on with a text that fails. -/
theorem Evaluates.of_noText {chars : List Char} (h : Evaluates g m (.text chars) c none) :
    ¬ chars <+: c.rest := by
  cases h with
  | noText h =>
    intro hprefix
    obtain ⟨d, hd⟩ := Cursor.strip?_of_prefix hprefix
    rw [h] at hd
    cases hd

theorem Evaluates.of_noChar {cls : CharClass} (h : Evaluates g m (.char cls) c none) :
    ∀ x ∈ c.rest.head?, ¬ cls.accepts x := by
  cases h with
  | noChar h =>
    intro x hx
    cases hrest : c.rest with
    | nil => simp [hrest] at hx
    | cons y rest =>
      obtain rfl : y = x := by simpa [hrest] using hx
      exact h y rest hrest

theorem Evaluates.of_star (h : Evaluates g m (.star p) c (some (ts, d))) :
    Evaluates g m p c none ∧ ts = [] ∧ d = c ∨
      ∃ us vs e, ts = us ++ vs ∧ Evaluates g m p c (some (us, e)) ∧
        Evaluates g m (.more p) e (some (vs, d)) := by
  cases h with
  | star h h' => exact .inr ⟨_, _, _, rfl, h, h'⟩
  | noStar h => exact .inl ⟨h, rfl, rfl⟩

/-- Where no layout is left to skip, the first round of a repetition is like the later ones. -/
theorem evaluates_star_iff {result : Option (List (ParseTree ρ) × Cursor)} (hc : between m c = c) :
    Evaluates g m (.star p) c result ↔ Evaluates g m (.more p) c result := by
  constructor
  · intro h
    cases h with
    | star hround hrest => exact .more (by rwa [hc]) hrest
    | noStar hround => exact .noMore (by rwa [hc])
  · intro h
    cases h with
    | more hround hrest => exact .star (by rwa [hc] at hround) hrest
    | noMore hround => exact .noStar (by rwa [hc] at hround)

/-- A match of one of several rules is a match of that rule. -/
theorem Evaluates.of_rules (h : Evaluates g m p c (some (ts, d))) (hp : p.isRuleChoice) :
    ∃ r ∈ p.rules, Evaluates g m (.rule r) c (some (ts, d)) := by
  induction p with
  | rule r => exact ⟨r, List.mem_cons_self, h⟩
  | choice p q ihp ihq =>
    obtain ⟨hp, hq⟩ := Bool.and_eq_true_iff.mp hp
    rcases h.of_choice with h | ⟨-, h⟩
    · obtain ⟨r, hr, h⟩ := ihp h hp
      exact ⟨r, List.mem_append_left _ hr, h⟩
    · obtain ⟨r, hr, h⟩ := ihq h hq
      exact ⟨r, List.mem_append_right _ hr, h⟩
  | _ => cases hp

/-- A match of a list of alternatives is a match of one of them. -/
theorem Evaluates.of_oneOf {ps : List (Pattern ρ)}
    (h : Evaluates g m (Pattern.oneOf ps) c (some (ts, d))) :
    ∃ p ∈ ps, Evaluates g m p c (some (ts, d)) := by
  induction ps with
  | nil =>
    obtain ⟨-, -, hnone⟩ := h.of_absent
    exact absurd List.nil_prefix hnone.of_noText
  | cons p ps ih =>
    cases ps with
    | nil => exact ⟨p, List.mem_cons_self, h⟩
    | cons q ps =>
      rcases h.of_choice with h | ⟨-, h⟩
      · exact ⟨p, List.mem_cons_self, h⟩
      · obtain ⟨p', hmem, h⟩ := ih h
        exact ⟨p', List.mem_cons_of_mem p hmem, h⟩

theorem Evaluates.of_lastRule {r : ρ} (h : Evaluates g m p c (some (ts, d)))
    (hr : p.lastRule? = some r) :
    ∃ us vs e, ts = us ++ vs ∧ Evaluates g m (.rule r) e (some (vs, d)) := by
  induction p generalizing c ts with
  | rule r' =>
    cases hr
    exact ⟨[], ts, c, rfl, h⟩
  | seq p q _ ih =>
    obtain ⟨us, vs, e, rfl, -, h⟩ := h.of_seq
    obtain ⟨us', vs', e', rfl, hlast⟩ := ih h hr
    exact ⟨us ++ us', vs', e', by rw [List.append_assoc], hlast⟩
  | _ => cases hr

/-- What each round of a repetition extends holds of all its rounds. -/
theorem Evaluates.more_induction {motive : Cursor → List (ParseTree ρ) → Cursor → Prop}
    (h : Evaluates g m (.more p) c (some (ts, d)))
    (done : ∀ c, Evaluates g m p (between m c) none → motive c [] c)
    (next : ∀ c us e vs d, Evaluates g m p (between m c) (some (us, e)) → motive e vs d →
      motive c (us ++ vs) d) : motive c ts d := by
  generalize hp : Pattern.more p = pattern at h
  generalize hresult : some (ts, d) = result at h
  induction h generalizing ts d with
  | more h _ _ ih =>
    cases hp
    cases hresult
    exact next _ _ _ _ _ h (ih done next rfl rfl)
  | noMore h =>
    cases hp
    cases hresult
    exact done _ h
  | _ => cases hp

theorem kept_of_default {r : ρ} (hr : g.kind r ≠ .compound) (inner : List (ParseTree ρ)) :
    g.kept {} r c d inner = [g.treeOf r c d inner] := by
  unfold kept modes
  cases hkind : g.kind r with
  | normal | atomic => rfl
  | compound => exact absurd hkind hr

theorem treeOf_rule (g : Grammar ρ) (r : ρ) (c d : Cursor) (inner : List (ParseTree ρ)) :
    (g.treeOf r c d inner).rule = r := by
  unfold treeOf
  split <;> rfl

/-- A node holds the trees of a body that is matched in the same mode. -/
theorem treeOf_children {r : ρ} {inner : List (ParseTree ρ)} {t : ParseTree ρ}
    (hg : ∀ r, g.kind r ≠ .compound) (ht : t ∈ (g.treeOf r c d inner).children) :
    (g.modes {} r).2 = {} ∧ t ∈ inner := by
  unfold treeOf at ht
  unfold modes
  cases hkind : g.kind r with
  | normal =>
    rw [hkind] at ht
    exact ⟨rfl, ht⟩
  | atomic =>
    rw [hkind] at ht
    cases ht
  | compound => exact absurd hkind (hg r)

/-- A tree is left by a match of its own rule, and so is each of its parts. -/
theorem Evaluates.placed {result : Option (List (ParseTree ρ) × Cursor)}
    (h : Evaluates g m p c result) (hg : ∀ r, g.kind r ≠ .compound) (hm : m = {}) :
    ∀ ts d, result = some (ts, d) → ∀ t ∈ ts, ∀ s, ParseTree.Within s t →
      ∃ c' d' u, c.Passes u c' ∧ Evaluates g {} (.rule s.rule) c' (some ([s], d')) := by
  induction h with
  | text _ | char _ | start _ | stop _ | noStar _ _ | noMore _ _ | noOptional _ _ | ahead _ _
  | absent _ _ =>
    intro ts d hresult t ht
    cases hresult
    cases ht
  | noText _ | noChar _ | noStart _ | noStop _ | noRule _ _ | noFirst _ _ | noSecond _ _ _ _
  | noAhead _ _ | noAbsent _ _ =>
    intro ts d hresult
    cases hresult
  | @rule m r c inner d h ih =>
    intro ts d' hresult t ht s hs
    cases hresult
    subst hm
    rw [kept_of_default (hg r)] at ht
    obtain rfl := List.mem_singleton.mp ht
    cases hs with
    | self =>
      refine ⟨c, d, [], .refl c, ?_⟩
      rw [treeOf_rule, ← kept_of_default (hg r)]
      exact .rule h
    | child hchild hs =>
      obtain ⟨hmode, hinner⟩ := treeOf_children hg hchild
      exact ih hmode _ _ rfl _ hinner s hs
  | @seq m p q c d e us vs h _ ih ih' =>
    intro ts d' hresult t ht s hs
    cases hresult
    rcases List.mem_append.mp ht with ht | ht
    · exact ih hm _ _ rfl t ht s hs
    · obtain ⟨u, hu⟩ := h.passes _ _ rfl
      obtain ⟨v, hv⟩ := between_passes m d
      obtain ⟨c', d', w, hw, heval⟩ := ih' hm _ _ rfl t ht s hs
      exact ⟨c', d', _, (hu.trans hv).trans hw, heval⟩
  | @star m p c us d vs e h _ ih ih' =>
    intro ts d' hresult t ht s hs
    cases hresult
    rcases List.mem_append.mp ht with ht | ht
    · exact ih hm _ _ rfl t ht s hs
    · obtain ⟨u, hu⟩ := h.passes _ _ rfl
      obtain ⟨c', d', w, hw, heval⟩ := ih' hm _ _ rfl t ht s hs
      exact ⟨c', d', _, hu.trans hw, heval⟩
  | @more m p c us d vs e h _ ih ih' =>
    intro ts d' hresult t ht s hs
    cases hresult
    obtain ⟨v, hv⟩ := between_passes m c
    rcases List.mem_append.mp ht with ht | ht
    · obtain ⟨c', d', w, hw, heval⟩ := ih hm _ _ rfl t ht s hs
      exact ⟨c', d', _, hv.trans hw, heval⟩
    · obtain ⟨u, hu⟩ := h.passes _ _ rfl
      obtain ⟨c', d', w, hw, heval⟩ := ih' hm _ _ rfl t ht s hs
      exact ⟨c', d', _, (hv.trans hu).trans hw, heval⟩
  | first _ ih | optional _ ih =>
    intro ts d hresult
    cases hresult
    exact ih hm _ _ rfl
  | second _ _ _ ih =>
    intro ts d hresult
    exact ih hm _ _ hresult

/-- The part of a match that its rule made, and where it stands. -/
theorem Evaluates.of_rule {r : ρ} (h : Evaluates g {} (.rule r) c (some (ts, d)))
    (hg : ∀ r, g.kind r ≠ .compound) :
    ∃ inner, ts = [g.treeOf r c d inner] ∧
      Evaluates g (g.modes {} r).2 (g.body r) c (some (inner, d)) := by
  cases h with
  | rule h => exact ⟨_, kept_of_default (hg r) _, h⟩

/-- The children of a node are the trees that the body of its rule leaves. -/
theorem evaluates_children {r : ρ} {t : ParseTree ρ}
    (h : Evaluates g {} (.rule r) c (some ([t], d))) (hkind : g.kind r = .normal) :
    Evaluates g {} (g.body r) c (some (t.children, d)) := by
  generalize hresult : some ([t], d) = result at h
  cases h with
  | rule h =>
    rw [kept_of_default (by rw [hkind]; exact nofun)] at hresult
    cases hresult
    rw [modes, hkind] at h
    rw [treeOf, hkind]
    exact h
  | noRule h => cases hresult

/-- A match that starts with a tree of `r`, which only the alternative `r` itself can leave in
front, is a match of `r`. -/
theorem evaluates_alternative (hg : ∀ r, g.kind r ≠ .compound) {ps : List (Pattern ρ)}
    {child : ParseTree ρ} {rest : List (ParseTree ρ)} {r : ρ}
    (h : Evaluates g {} (Pattern.oneOf ps) c (some (child :: rest, d)))
    (hrule : child.rule = r) (honly : ∀ p ∈ ps, r ∈ p.heads → p = .rule r) :
    Evaluates g {} (.rule r) c (some ([child], d)) := by
  obtain ⟨p, hmem, h⟩ := h.of_oneOf
  have hword := (h.makes rfl _ _ rfl).1
  have hhead : r ∈ p.heads := hword.head_mem r (by rw [← hrule]; rfl)
  obtain rfl := honly p hmem hhead
  obtain ⟨inner, hsingle, -⟩ := h.of_rule hg
  rw [(List.cons.inj hsingle).2] at h
  exact h

/-- A node of the tree of a text is matched somewhere in the text. -/
theorem evaluates_of_within (hg : ∀ r, g.kind r ≠ .compound) {root : ρ} {text : String}
    {tree node : ParseTree ρ} (h : g.parse root text = .ok tree)
    (hnode : ParseTree.Within node tree) :
    ∃ c d, Evaluates g {} (.rule node.rule) c (some ([node], d)) := by
  obtain ⟨d, ts, heval⟩ := parse_evaluates h
  obtain ⟨c, d, -, -, hplaced⟩ := heval.placed hg rfl _ _ rfl tree List.mem_cons_self node hnode
  exact ⟨c, d, hplaced⟩

theorem span_treeOf (g : Grammar ρ) (r : ρ) (c d : Cursor) (inner : List (ParseTree ρ)) :
    (g.treeOf r c d inner).span = ⟨c.index, d.index⟩ := by
  unfold treeOf
  split <;> rfl

/-- The trees stand one behind the other between two places of the text. -/
def InOrder (start stop : Nat) (ts : List (ParseTree ρ)) : Prop :=
  ts.Pairwise (fun s t => s.span.stop ≤ t.span.start) ∧
    ∀ t ∈ ts, start ≤ t.span.start ∧ t.span.stop ≤ stop

theorem InOrder.nil (start stop : Nat) : InOrder start stop ([] : List (ParseTree ρ)) :=
  ⟨.nil, by simp⟩

theorem InOrder.append {start stop start' stop' : Nat} {ts us : List (ParseTree ρ)}
    (h : InOrder start stop ts) (h' : InOrder start' stop' us) (hstart : start ≤ start')
    (hmid : stop ≤ start') (hstop : stop ≤ stop') : InOrder start stop' (ts ++ us) := by
  constructor
  · refine List.pairwise_append.mpr ⟨h.1, h'.1, fun t ht u hu => ?_⟩
    have ht := h.2 t ht
    have hu := h'.2 u hu
    omega
  · intro t ht
    rcases List.mem_append.mp ht with ht | ht
    · have ht := h.2 t ht
      omega
    · have ht := h'.2 t ht
      omega

/-- Trees stay in order when each gives way to trees of its own text. -/
theorem InOrder.flatMap {start stop : Nat} {ts : List (ParseTree ρ)}
    {f : ParseTree ρ → List (ParseTree ρ)} (h : InOrder start stop ts)
    (hf : ∀ t ∈ ts, InOrder t.span.start t.span.stop (f t)) :
    InOrder start stop (ts.flatMap f) := by
  constructor
  · refine List.pairwise_flatMap.mpr ⟨fun t ht => (hf t ht).1, ?_⟩
    refine h.1.imp_of_mem fun hs ht hle x hx y hy => ?_
    have hx := ((hf _ hs).2 x hx).2
    have hy := ((hf _ ht).2 y hy).1
    omega
  · intro x hx
    obtain ⟨t, ht, hx⟩ := List.mem_flatMap.mp hx
    have hx := (hf t ht).2 x hx
    have ht := h.2 t ht
    omega

theorem index_le_of_passes {u : List Char} (h : c.Passes u d) : c.index ≤ d.index := by
  have hindex := h.index_eq
  omega

theorem index_le_between (m : Mode) (c : Cursor) : c.index ≤ (between m c).index := by
  obtain ⟨v, hv⟩ := between_passes m c
  exact index_le_of_passes hv

theorem Evaluates.index_le {ts : List (ParseTree ρ)} (h : Evaluates g m p c (some (ts, d))) :
    c.index ≤ d.index := by
  obtain ⟨u, hu⟩ := h.passes _ _ rfl
  exact index_le_of_passes hu

/-- A match leaves its trees in the order in which their texts stand. -/
theorem Evaluates.inOrder {result : Option (List (ParseTree ρ) × Cursor)}
    (h : Evaluates g m p c result) :
    ∀ ts d, result = some (ts, d) → InOrder c.index d.index ts := by
  induction h with
  | text _ | char _ | start _ | stop _ | noStar _ _ | noMore _ _ | noOptional _ _ | ahead _ _
  | absent _ _ =>
    rintro ts d ⟨⟩
    exact .nil _ _
  | noText _ | noChar _ | noStart _ | noStop _ | noRule _ _ | noFirst _ _ | noSecond _ _ _ _
  | noAhead _ _ | noAbsent _ _ =>
    rintro ts d ⟨⟩
  | @rule m r c inner d _ _ =>
    rintro ts d ⟨⟩
    unfold kept
    split
    · refine ⟨List.pairwise_singleton _ _, fun t ht => ?_⟩
      obtain rfl := List.mem_singleton.mp ht
      rw [span_treeOf]
      exact ⟨Nat.le_refl _, Nat.le_refl _⟩
    · exact .nil _ _
  | @seq m p q c d e us vs h h' ih ih' =>
    rintro ts d ⟨⟩
    have hle := h.index_le
    have hle' := h'.index_le
    have hskip := index_le_between m d
    exact (ih _ _ rfl).append (ih' _ _ rfl) (by omega) hskip (by omega)
  | @star m p c us d vs e h h' ih ih' =>
    rintro ts d ⟨⟩
    exact (ih _ _ rfl).append (ih' _ _ rfl) h.index_le (Nat.le_refl _) h'.index_le
  | @more m p c us d vs e h h' ih ih' =>
    rintro ts d ⟨⟩
    have hskip := index_le_between m c
    obtain ⟨hordered, hbounds⟩ :=
      (ih _ _ rfl).append (ih' _ _ rfl) h.index_le (Nat.le_refl _) h'.index_le
    refine ⟨hordered, fun t ht => ?_⟩
    have ht := hbounds t ht
    omega
  | first _ ih | optional _ ih =>
    rintro ts d ⟨⟩
    exact ih _ _ rfl
  | second _ _ _ ih => exact ih

end Grammar

namespace ParseTree

variable {ρ : Type} [DecidableEq ρ]

mutual

/-- Whether two trees are equal. -/
def decEq : (s t : ParseTree ρ) → Decidable (s = t)
  | .token r span text, .token r' span' text' =>
    decidable_of_iff (r = r' ∧ span = span' ∧ text = text') (by simp)
  | .node r span ts, .node r' span' ts' =>
    match decEqAll ts ts' with
    | isTrue h => decidable_of_iff (r = r' ∧ span = span') (by simp [h])
    | isFalse h => isFalse (by simp [h])
  | .token .., .node .. => isFalse (by simp)
  | .node .., .token .. => isFalse (by simp)

/-- Whether two lists of trees are equal. -/
def decEqAll : (ts us : List (ParseTree ρ)) → Decidable (ts = us)
  | [], [] => isTrue rfl
  | t :: ts, u :: us =>
    match decEq t u with
    | isTrue h =>
      match decEqAll ts us with
      | isTrue h' => isTrue (by simp [h, h'])
      | isFalse h' => isFalse (by simp [h'])
    | isFalse h => isFalse (by simp [h])
  | [], _ :: _ => isFalse (by simp)
  | _ :: _, [] => isFalse (by simp)

end

instance : DecidableEq (ParseTree ρ) := decEq

end ParseTree

end QuovaKotlin.Peg
