import QuovaKotlin.Proofs.Evaluation

/-!
# Which parse trees a grammar makes

The children of a node are, rule by rule, a word of a regular language: the body of its rule without
texts and lookahead. Questions such as "is there always a child of this rule" or "can there be two"
are answered by computing on the body, once for all trees.
-/

set_option autoImplicit false

namespace QuovaKotlin.Peg

variable {ρ : Type}

namespace Pattern

/-- The sequences of rules that a match of a pattern can leave trees of. -/
def Word : Pattern ρ → List ρ → Prop
  | .text _, ws | .char _, ws | .start, ws | .stop, ws | .ahead _, ws | .absent _, ws => ws = []
  | .rule r, ws => ws = [r]
  | .seq p q, ws => ∃ us vs, ws = us ++ vs ∧ p.Word us ∧ q.Word vs
  | .choice p q, ws => p.Word ws ∨ q.Word ws
  | .star p, ws | .more p, ws =>
    ∃ parts : List (List ρ), ws = parts.flatten ∧ ∀ us ∈ parts, p.Word us
  | .optional p, ws => ws = [] ∨ p.Word ws

/-- The rules of a pattern outside lookahead. -/
def rules : Pattern ρ → List ρ
  | .text _ | .char _ | .start | .stop | .ahead _ | .absent _ => []
  | .rule r => [r]
  | .seq p q | .choice p q => p.rules ++ q.rules
  | .star p | .more p | .optional p => p.rules

/-- Every word has a rule with the property `ok`. -/
def provides (ok : ρ → Bool) : Pattern ρ → Bool
  | .rule r => ok r
  | .seq p q => p.provides ok || q.provides ok
  | .choice p q => p.provides ok && q.provides ok
  | _ => false

/-- Every word with an `a` has a `b` as well. -/
def requires (a b : ρ → Bool) : Pattern ρ → Bool
  | .rule r => ! a r || b r
  | .seq p q => p.requires a b && q.requires a b || p.provides b || q.provides b
  | .choice p q => p.requires a b && q.requires a b
  | .star p | .more p | .optional p => p.requires a b
  | _ => true

/-- Some word may have an `a` and a `b` at two different places. -/
def together (a b : ρ → Bool) : Pattern ρ → Bool
  | .seq p q =>
    p.together a b || q.together a b || p.rules.any a && q.rules.any b ||
      p.rules.any b && q.rules.any a
  | .choice p q => p.together a b || q.together a b
  | .star p | .more p => p.rules.any a && p.rules.any b
  | .optional p => p.together a b
  | _ => false

/-- The rules that a word can start with. -/
def heads : Pattern ρ → List ρ
  | .rule r => [r]
  | .seq p q => if p.provides (fun _ => true) then p.heads else p.heads ++ q.heads
  | .choice p q => p.heads ++ q.heads
  | .star p | .more p | .optional p => p.heads
  | _ => []

/-- No rule stands under a repetition, so there are finitely many words. -/
def isFinite : Pattern ρ → Bool
  | .seq p q | .choice p q => p.isFinite && q.isFinite
  | .star p | .more p => p.rules.isEmpty
  | .optional p => p.isFinite
  | _ => true

/-- All words of a finite pattern. -/
def allWords : Pattern ρ → List (List ρ)
  | .rule r => [[r]]
  | .seq p q => p.allWords.flatMap fun us => q.allWords.map (us ++ ·)
  | .choice p q => p.allWords ++ q.allWords
  | .optional p => [] :: p.allWords
  | _ => [[]]

/-- Two rules that may stand at two places of one word, as far as `a` and `b` go. -/
def Apart (a b : ρ → Bool) (r s : ρ) : Prop :=
  ¬ (a r ∧ b s) ∧ ¬ (b r ∧ a s)

variable {p : Pattern ρ} {ws : List ρ} {a b ok : ρ → Bool}

theorem Word.mem_rules (h : p.Word ws) : ∀ r ∈ ws, r ∈ p.rules := by
  induction p generalizing ws with
  | text | char | start | stop | ahead | absent =>
    obtain rfl : ws = [] := h
    simp
  | rule r =>
    obtain rfl : ws = [r] := h
    simp [rules]
  | seq p q ihp ihq =>
    obtain ⟨us, vs, rfl, hu, hv⟩ := h
    intro r hr
    rcases List.mem_append.mp hr with hr | hr
    · exact List.mem_append_left _ (ihp hu r hr)
    · exact List.mem_append_right _ (ihq hv r hr)
  | choice p q ihp ihq =>
    intro r hr
    rcases h with h | h
    · exact List.mem_append_left _ (ihp h r hr)
    · exact List.mem_append_right _ (ihq h r hr)
  | star p ih | more p ih =>
    obtain ⟨parts, rfl, hparts⟩ := h
    intro r hr
    obtain ⟨us, hus, hr⟩ := List.mem_flatten.mp hr
    exact ih (hparts us hus) r hr
  | optional p ih =>
    rcases h with rfl | h
    · simp
    · exact ih h

/-- A rule without the property in all of a pattern is in no word of it. -/
theorem Word.not_of_rules (h : p.Word ws) (hnone : p.rules.any a = false) {r : ρ} (hr : r ∈ ws) :
    ¬ a r := by
  intro ha
  have hmem := List.any_eq_true.mpr ⟨r, h.mem_rules r hr, ha⟩
  rw [hnone] at hmem
  cases hmem

theorem Word.provided (h : p.Word ws) (hp : p.provides ok) : ∃ r ∈ ws, ok r := by
  induction p generalizing ws with
  | text | char | start | stop | ahead | absent | star | more | optional => cases hp
  | rule r =>
    obtain rfl : ws = [r] := h
    exact ⟨r, by simp, hp⟩
  | seq p q ihp ihq =>
    obtain ⟨us, vs, rfl, hu, hv⟩ := h
    rcases Bool.or_eq_true_iff.mp hp with hp | hp
    · obtain ⟨r, hr, hok⟩ := ihp hu hp
      exact ⟨r, List.mem_append_left _ hr, hok⟩
    · obtain ⟨r, hr, hok⟩ := ihq hv hp
      exact ⟨r, List.mem_append_right _ hr, hok⟩
  | choice p q ihp ihq =>
    obtain ⟨hp, hq⟩ := Bool.and_eq_true_iff.mp hp
    rcases h with h | h
    · exact ihp h hp
    · exact ihq h hq

theorem Word.required (h : p.Word ws) (hp : p.requires a b) :
    (∃ r ∈ ws, a r) → ∃ r ∈ ws, b r := by
  induction p generalizing ws with
  | text | char | start | stop | ahead | absent =>
    obtain rfl : ws = [] := h
    simp
  | rule r =>
    obtain rfl : ws = [r] := h
    simp only [requires, Bool.or_eq_true, Bool.not_eq_true'] at hp
    rintro ⟨s, hs, ha⟩
    obtain rfl := List.mem_singleton.mp hs
    rcases hp with hp | hp
    · rw [hp] at ha
      cases ha
    · exact ⟨s, hs, hp⟩
  | seq p q ihp ihq =>
    obtain ⟨us, vs, rfl, hu, hv⟩ := h
    simp only [requires, Bool.or_eq_true, Bool.and_eq_true] at hp
    rintro ⟨r, hr, ha⟩
    rcases hp with (⟨hp, hq⟩ | hp) | hq
    · rcases List.mem_append.mp hr with hr | hr
      · obtain ⟨s, hs, hb⟩ := ihp hu hp ⟨r, hr, ha⟩
        exact ⟨s, List.mem_append_left _ hs, hb⟩
      · obtain ⟨s, hs, hb⟩ := ihq hv hq ⟨r, hr, ha⟩
        exact ⟨s, List.mem_append_right _ hs, hb⟩
    · obtain ⟨s, hs, hb⟩ := hu.provided hp
      exact ⟨s, List.mem_append_left _ hs, hb⟩
    · obtain ⟨s, hs, hb⟩ := hv.provided hq
      exact ⟨s, List.mem_append_right _ hs, hb⟩
  | choice p q ihp ihq =>
    obtain ⟨hp, hq⟩ := Bool.and_eq_true_iff.mp hp
    rcases h with h | h
    · exact ihp h hp
    · exact ihq h hq
  | star p ih | more p ih =>
    obtain ⟨parts, rfl, hparts⟩ := h
    rintro ⟨r, hr, ha⟩
    obtain ⟨us, hus, hr⟩ := List.mem_flatten.mp hr
    obtain ⟨s, hs, hb⟩ := ih (hparts us hus) hp ⟨r, hr, ha⟩
    exact ⟨s, List.mem_flatten.mpr ⟨us, hus, hs⟩, hb⟩
  | optional p ih =>
    rcases h with rfl | h
    · simp
    · exact ih h hp

theorem pairwise_apart_of_none {a b : ρ → Bool} {ws : List ρ}
    (h : (∀ r ∈ ws, ¬ a r) ∨ ∀ r ∈ ws, ¬ b r) : ws.Pairwise (Apart a b) := by
  refine List.pairwise_of_forall_mem_list fun r hr s hs => ?_
  rcases h with h | h
  · exact ⟨fun hab => h r hr hab.1, fun hba => h s hs hba.2⟩
  · exact ⟨fun hab => h s hs hab.2, fun hba => h r hr hba.1⟩

theorem Word.pairwise (h : p.Word ws) (hp : p.together a b = false) :
    ws.Pairwise (Apart a b) := by
  induction p generalizing ws with
  | text | char | start | stop | ahead | absent =>
    obtain rfl : ws = [] := h
    exact .nil
  | rule r =>
    obtain rfl : ws = [r] := h
    exact List.pairwise_singleton _ _
  | seq p q ihp ihq =>
    obtain ⟨us, vs, rfl, hu, hv⟩ := h
    simp only [together, Bool.or_eq_false_iff] at hp
    obtain ⟨⟨⟨hp, hq⟩, hab⟩, hba⟩ := hp
    refine List.pairwise_append.mpr ⟨ihp hu hp, ihq hv hq, fun r hr s hs => ⟨?_, ?_⟩⟩
    · rintro ⟨ha, hb⟩
      rcases Bool.and_eq_false_iff.mp hab with hab | hab
      · exact hu.not_of_rules hab hr ha
      · exact hv.not_of_rules hab hs hb
    · rintro ⟨hb, ha⟩
      rcases Bool.and_eq_false_iff.mp hba with hba | hba
      · exact hu.not_of_rules hba hr hb
      · exact hv.not_of_rules hba hs ha
  | choice p q ihp ihq =>
    simp only [together, Bool.or_eq_false_iff] at hp
    rcases h with h | h
    · exact ihp h hp.1
    · exact ihq h hp.2
  | star p ih | more p ih =>
    apply pairwise_apart_of_none
    obtain ⟨parts, rfl, hparts⟩ := h
    rcases Bool.and_eq_false_iff.mp hp with hp | hp
    · left
      intro r hr
      obtain ⟨us, hus, hr⟩ := List.mem_flatten.mp hr
      exact (hparts us hus).not_of_rules hp hr
    · right
      intro r hr
      obtain ⟨us, hus, hr⟩ := List.mem_flatten.mp hr
      exact (hparts us hus).not_of_rules hp hr
  | optional p ih =>
    rcases h with rfl | h
    · exact .nil
    · exact ih h hp

theorem Word.head_mem (h : p.Word ws) : ∀ r ∈ ws.head?, r ∈ p.heads := by
  induction p generalizing ws with
  | text | char | start | stop | ahead | absent =>
    obtain rfl : ws = [] := h
    simp
  | rule r =>
    obtain rfl : ws = [r] := h
    simp [heads]
  | seq p q ihp ihq =>
    obtain ⟨us, vs, rfl, hu, hv⟩ := h
    intro r hr
    cases us with
    | nil =>
      -- An empty first part shows that the first pattern provides nothing.
      have hp : p.provides (fun _ => true) = false := by
        cases hp : p.provides (fun _ => true) with
        | false => rfl
        | true =>
          obtain ⟨s, hs, -⟩ := hu.provided hp
          cases hs
      rw [heads, hp]
      exact List.mem_append_right _ (ihq hv r hr)
    | cons u us =>
      have hmem := ihp hu r (by simpa using hr)
      simp only [heads]
      split
      · exact hmem
      · exact List.mem_append_left _ hmem
  | choice p q ihp ihq =>
    intro r hr
    rcases h with h | h
    · exact List.mem_append_left _ (ihp h r hr)
    · exact List.mem_append_right _ (ihq h r hr)
  | star p ih | more p ih =>
    obtain ⟨parts, rfl, hparts⟩ := h
    intro r hr
    induction parts with
    | nil => simp at hr
    | cons us parts ih' =>
      cases us with
      | nil => exact ih' (fun vs hvs => hparts vs (by simp [hvs])) (by simpa using hr)
      | cons u us => exact ih (hparts (u :: us) (by simp)) r (by simpa using hr)
  | optional p ih =>
    rcases h with rfl | h
    · simp
    · exact ih h

theorem Word.mem_allWords (h : p.Word ws) (hp : p.isFinite) : ws ∈ p.allWords := by
  induction p generalizing ws with
  | text | char | start | stop | ahead | absent =>
    obtain rfl : ws = [] := h
    simp [allWords]
  | rule r =>
    obtain rfl : ws = [r] := h
    simp [allWords]
  | seq p q ihp ihq =>
    obtain ⟨us, vs, rfl, hu, hv⟩ := h
    obtain ⟨hp, hq⟩ := Bool.and_eq_true_iff.mp hp
    exact List.mem_flatMap.mpr ⟨us, ihp hu hp, List.mem_map.mpr ⟨vs, ihq hv hq, rfl⟩⟩
  | choice p q ihp ihq =>
    obtain ⟨hp, hq⟩ := Bool.and_eq_true_iff.mp hp
    rcases h with h | h
    · exact List.mem_append_left _ (ihp h hp)
    · exact List.mem_append_right _ (ihq h hq)
  | star p ih | more p ih =>
    have hnil : ws = [] := by
      rw [List.eq_nil_iff_forall_not_mem]
      intro r hr
      have hmem : r ∈ p.rules := h.mem_rules r hr
      rw [List.isEmpty_iff.mp hp] at hmem
      cases hmem
    simp [hnil, allWords]
  | optional p ih =>
    rcases h with rfl | h
    · simp [allWords]
    · exact List.mem_cons_of_mem _ (ih h hp)

end Pattern

/-- A tree that the grammar can make: a token spells its rule, and the children of a node are a word
of its rule. -/
inductive Grammar.Makes (g : Grammar ρ) : ParseTree ρ → Prop
  | token {r span w} : g.kind r = .atomic → g.Reads r w → g.Makes (.token r span (.ofList w))
  | node {r span ts} : g.kind r ≠ .atomic → (g.body r).Word (ts.map (·.rule)) →
      (∀ t ∈ ts, g.Makes t) → g.Makes (.node r span ts)

namespace Grammar

variable {g : Grammar ρ}

theorem modes_keepsTrees {m : Mode} {r : ρ} (h : m.keepsTrees) :
    (g.modes m r).1.keepsTrees ∧ (g.kind r ≠ .atomic → (g.modes m r).2.keepsTrees) := by
  unfold modes
  simp only [Mode.keepsTrees, Bool.and_eq_true, decide_eq_true_eq] at h
  split <;> simp_all [Mode.keepsTrees]

theorem modes_atomic {m : Mode} {r : ρ} (h : g.kind r = .atomic) :
    (g.modes m r).2.kind ≠ .normal := by
  simp [modes, h]

theorem makes_treeOf {m : Mode} {r : ρ} {c d : Cursor} {inner : List (ParseTree ρ)}
    (h : Evaluates g (g.modes m r).2 (g.body r) c (some (inner, d)))
    (hnode : g.kind r ≠ .atomic →
      (g.body r).Word (inner.map (·.rule)) ∧ ∀ t ∈ inner, g.Makes t) :
    g.Makes (g.treeOf r c d inner) ∧ (g.treeOf r c d inner).rule = r := by
  unfold treeOf
  split
  · next hkind =>
    obtain ⟨u, hu⟩ := h.passes _ _ rfl
    rw [hu.textTo_eq]
    exact ⟨.token hkind ⟨_, _, _, _, modes_atomic hkind, h, hu⟩, rfl⟩
  · next hkind =>
    obtain ⟨hword, hmakes⟩ := hnode hkind
    exact ⟨.node hkind hword hmakes, rfl⟩

/-- Every tree that a match leaves is one that the grammar makes. -/
theorem Evaluates.makes {m : Mode} {p : Pattern ρ} {c : Cursor}
    {result : Option (List (ParseTree ρ) × Cursor)} (h : Evaluates g m p c result)
    (hkeeps : m.keepsTrees) :
    ∀ ts d, result = some (ts, d) → p.Word (ts.map (·.rule)) ∧ ∀ t ∈ ts, g.Makes t := by
  induction h with
  | text _ | char _ | start _ | stop _ | ahead _ _ | absent _ _ =>
    rintro ts d ⟨⟩
    exact ⟨rfl, by simp⟩
  | noStar _ _ | noMore _ _ =>
    rintro ts d ⟨⟩
    exact ⟨⟨[], rfl, by simp⟩, by simp⟩
  | noOptional _ _ =>
    rintro ts d ⟨⟩
    exact ⟨.inl rfl, by simp⟩
  | noText _ | noChar _ | noStart _ | noStop _ | noRule _ _ | noFirst _ _ | noSecond _ _ _ _
  | noAhead _ _ | noAbsent _ _ =>
    rintro ts d ⟨⟩
  | rule h ih =>
    rintro ts d ⟨⟩
    obtain ⟨haround, hinside⟩ := modes_keepsTrees hkeeps
    obtain ⟨hmakes, hrule⟩ := makes_treeOf h fun hkind => ih (hinside hkind) _ _ rfl
    rw [kept, if_pos haround]
    exact ⟨by simp [Pattern.Word, hrule], by simpa using hmakes⟩
  | seq _ _ ih ih' =>
    rintro ts d ⟨⟩
    obtain ⟨hw, hm⟩ := ih hkeeps _ _ rfl
    obtain ⟨hw', hm'⟩ := ih' hkeeps _ _ rfl
    refine ⟨⟨_, _, by rw [List.map_append], hw, hw'⟩, fun t ht => ?_⟩
    rcases List.mem_append.mp ht with ht | ht
    · exact hm t ht
    · exact hm' t ht
  | star _ _ ih ih' | more _ _ ih ih' =>
    rintro ts d ⟨⟩
    obtain ⟨hw, hm⟩ := ih hkeeps _ _ rfl
    obtain ⟨⟨parts, hparts, hwords⟩, hm'⟩ := ih' hkeeps _ _ rfl
    refine ⟨⟨_ :: parts, by rw [List.map_append, hparts]; rfl, ?_⟩, fun t ht => ?_⟩
    · rintro us (_ | ⟨_, hus⟩)
      · exact hw
      · exact hwords us hus
    · rcases List.mem_append.mp ht with ht | ht
      · exact hm t ht
      · exact hm' t ht
  | first _ ih =>
    rintro ts d ⟨⟩
    obtain ⟨hw, hm⟩ := ih hkeeps _ _ rfl
    exact ⟨.inl hw, hm⟩
  | second _ _ _ ih =>
    intro ts d hresult
    obtain ⟨hw, hm⟩ := ih hkeeps _ _ hresult
    exact ⟨.inr hw, hm⟩
  | optional _ ih =>
    rintro ts d ⟨⟩
    obtain ⟨hw, hm⟩ := ih hkeeps _ _ rfl
    exact ⟨.inr hw, hm⟩

theorem parse_makes {r : ρ} {source : String} {tree : ParseTree ρ}
    (h : g.parse r source = .ok tree) : g.Makes tree ∧ tree.rule = r := by
  obtain ⟨d, ts, h⟩ := parse_evaluates h
  obtain ⟨hword, hmakes⟩ := h.makes rfl _ _ rfl
  have hrules : tree.rule :: ts.map (·.rule) = [r] := hword
  exact ⟨hmakes tree (by simp), (List.cons.inj hrules).1⟩

theorem Makes.children {t : ParseTree ρ} (h : g.Makes t) : ∀ child ∈ t.children, g.Makes child := by
  cases h with
  | token => simp [ParseTree.children]
  | node _ _ hmakes => exact hmakes

theorem Makes.word {t : ParseTree ρ} (h : g.Makes t) (hkind : g.kind t.rule ≠ .atomic) :
    (g.body t.rule).Word (t.children.map (·.rule)) := by
  cases h with
  | token hatomic => exact absurd hatomic hkind
  | node _ hword => exact hword

theorem Makes.reads {t : ParseTree ρ} (h : g.Makes t) (hkind : g.kind t.rule = .atomic) :
    ∃ w, t.text = .ofList w ∧ g.Reads t.rule w ∧ t.children = [] := by
  cases h with
  | token _ hreads => exact ⟨_, rfl, hreads, rfl⟩
  | node hnode => exact absurd hkind hnode

end Grammar

namespace ParseTree

theorem height_le_heightAll {t : ParseTree ρ} {ts : List (ParseTree ρ)} (h : t ∈ ts) :
    t.height ≤ heightAll ts := by
  induction ts with
  | nil => cases h
  | cons s ts ih =>
    simp only [heightAll]
    rcases List.mem_cons.mp h with rfl | h
    · exact Nat.le_max_left _ _
    · exact Nat.le_trans (ih h) (Nat.le_max_right _ _)

theorem height_child_lt {t child : ParseTree ρ} (h : child ∈ t.children) :
    child.height < t.height := by
  cases t with
  | token => cases h
  | node r span ts => exact Nat.lt_succ_of_le (height_le_heightAll h)

/-- `s` is `t` or stands in it, at any depth. -/
inductive Within : ParseTree ρ → ParseTree ρ → Prop
  | self (t : ParseTree ρ) : Within t t
  | child {s t child : ParseTree ρ} : child ∈ t.children → Within s child → Within s t

theorem Within.trans {s t tree : ParseTree ρ} (h : Within s t) (h' : Within t tree) :
    Within s tree := by
  induction h' with
  | self => exact h
  | child hmem _ ih => exact .child hmem ih

theorem Within.of_mem {child t tree : ParseTree ρ} (hmem : child ∈ t.children)
    (h : Within t tree) : Within child tree :=
  .trans (.child hmem (.self child)) h

end ParseTree

end QuovaKotlin.Peg
