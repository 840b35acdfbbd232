import QuovaKotlin.Proofs.Progress

/-!
# Attempts stand in the text

The furthest attempts of a run are the ones a refusal reports. Every place at which a run tries
something lies in the text, and an attempt on record is only ever dropped for one that takes its
place. So the furthest place lies in the text, and behind the start of the text some rule is on
record there. The rule that the parser starts with is recorded at the start if nothing else is.
-/

set_option autoImplicit false

namespace QuovaKotlin.Peg

variable {ρ : Type}

namespace Attempts

/-- The rules on record at the furthest place. -/
def listed (t : Attempts ρ) : List ρ :=
  t.unexpected ++ t.expected

/-- The furthest place lies in a text of the given length. Only the start of the text can be the
furthest place without a rule on record. -/
structure Sound (length : Nat) (t : Attempts ρ) : Prop where
  furthest_le : t.furthest ≤ length
  listed_ne_nil : 0 < t.furthest → t.listed ≠ []

theorem sound_empty (length : Nat) : ({} : Attempts ρ).Sound length :=
  ⟨Nat.zero_le length, fun h => absurd h (Nat.lt_irrefl 0)⟩

theorem listed_push (t : Attempts ρ) (negative : Bool) (r : ρ) :
    (t.push negative r).listed ≠ [] := by
  cases negative with
  | false => exact List.append_ne_nil_of_right_ne_nil _ (List.cons_ne_nil _ _)
  | true => exact List.cons_ne_nil _ _

theorem furthest_push (t : Attempts ρ) (negative : Bool) (r : ρ) :
    (t.push negative r).furthest = t.furthest := by
  cases negative <;> rfl

theorem listed_of_countAt {t : Attempts ρ} {index : Nat} (h : 0 < t.countAt index) :
    t.listed ≠ [] := by
  intro hlisted
  have hlength := congrArg List.length hlisted
  rw [listed, List.length_append, List.length_nil] at hlength
  unfold countAt at h
  split at h <;> omega

variable {length index : Nat} {t : Attempts ρ}

theorem Sound.track (ht : t.Sound length) (hindex : index ≤ length) (r : ρ) (before : Mark)
    (negative : Bool) : (t.track r index before negative).Sound length := by
  unfold Attempts.track
  by_cases hone : t.countAt index = before.expected + before.unexpected + 1
  · rwa [if_pos hone]
  rw [if_neg hone]
  by_cases hbehind : index < t.furthest
  · rwa [if_pos hbehind]
  rw [if_neg hbehind]
  by_cases hsame : index = t.furthest
  · rw [if_pos hsame]
    refine ⟨?_, fun _ => listed_push _ negative r⟩
    rw [furthest_push]
    exact ht.furthest_le
  · rw [if_neg hsame]
    refine ⟨?_, fun _ => listed_push _ negative r⟩
    rw [furthest_push]
    exact hindex

/-- After a rule was tried in vain, some rule is on record, if not the rule itself. -/
theorem Sound.listed_track (ht : t.Sound length) (r : ρ) (before : Mark) (negative : Bool) :
    (t.track r index before negative).listed ≠ [] := by
  unfold Attempts.track
  by_cases hone : t.countAt index = before.expected + before.unexpected + 1
  · rw [if_pos hone]
    have hcount : 0 < t.countAt index := by omega
    exact listed_of_countAt hcount
  rw [if_neg hone]
  by_cases hbehind : index < t.furthest
  · rw [if_pos hbehind]
    exact ht.listed_ne_nil (by omega)
  rw [if_neg hbehind]
  split
  · exact listed_push _ negative r
  · exact listed_push _ negative r

theorem Sound.note (ht : t.Sound length) (hindex : index ≤ length) (m : Mode) (r : ρ)
    (before : Mark) : (Grammar.note m r index before t).Sound length := by
  unfold Grammar.note
  split
  · exact ht
  · exact ht.track hindex r before _

end Attempts

/-- The place stands in a text of the given length. -/
def Cursor.EndsAt (c : Cursor) (length : Nat) : Prop :=
  c.index + c.rest.length = length

theorem Cursor.EndsAt.index_le {c : Cursor} {length : Nat} (h : c.EndsAt length) :
    c.index ≤ length :=
  Nat.le.intro h

theorem Cursor.EndsAt.passes {c d : Cursor} {u : List Char} {length : Nat} (h : c.EndsAt length)
    (hpasses : c.Passes u d) : d.EndsAt length := by
  have hrest := congrArg List.length hpasses.rest_eq
  rw [List.length_append] at hrest
  have hindex := hpasses.index_eq
  unfold EndsAt at h ⊢
  omega

/-- The attempts with which a run ends are as the predicate says. -/
def Outcome.Keeps (good : Attempts ρ → Prop) : Outcome ρ → Prop
  | .success _ _ t => good t
  | .failure t => good t
  | .exhausted => True

/-- Trees in front of those of a run leave its record as it is. -/
theorem Outcome.Keeps.prepend {good : Attempts ρ → Prop} {outcome : Outcome ρ}
    (first : List (ParseTree ρ)) :
    outcome.Keeps good → Outcome.Keeps good (match outcome with
      | .success d others t => .success d (first ++ others) t
      | other => other) := by
  intro h
  cases outcome <;> exact h

namespace Grammar

variable {g : Grammar ρ} {length : Nat}

theorem endsAt_between {c : Cursor} (m : Mode) (h : c.EndsAt length) :
    (between m c).EndsAt length := by
  obtain ⟨v, hpasses⟩ := between_passes m c
  exact h.passes hpasses

theorem endsAt_of_run {fuel : Nat} {m : Mode} {p : Pattern ρ} {c d : Cursor} {t t' : Attempts ρ}
    {ts : List (ParseTree ρ)} (h : c.EndsAt length) (hrun : g.run fuel m p c t = .success d ts t') :
    d.EndsAt length := by
  obtain ⟨u, hpasses⟩ := (run_success hrun).passes _ _ rfl
  exact h.passes hpasses

/-- A run in a text leaves its record sound. -/
theorem run_keeps_sound (g : Grammar ρ) (fuel : Nat) (m : Mode) (p : Pattern ρ) (c : Cursor)
    (t : Attempts ρ) (hc : c.EndsAt length) (ht : t.Sound length) :
    (g.run fuel m p c t).Keeps (Attempts.Sound length) := by
  induction fuel generalizing m p c t with
  | zero => trivial
  | succ fuel ih =>
    cases p with
    | text chars =>
      simp only [run]
      split
      · exact ht
      · exact ht
    | char cls =>
      simp only [run]
      split
      · split
        · exact ht
        · exact ht
      · exact ht
    | start | stop =>
      simp only [run]
      split
      · exact ht
      · exact ht
    | rule r =>
      have h := ih (g.modes m r).2 (g.body r) c t hc ht
      simp only [run]
      cases hrun : g.run fuel (g.modes m r).2 (g.body r) c t with
      | success d inner t' =>
        rw [hrun] at h
        show Attempts.Sound length (if _ then _ else _)
        split
        · exact Attempts.Sound.note h hc.index_le _ r _
        · exact h
      | failure t' =>
        rw [hrun] at h
        show Attempts.Sound length (if _ then _ else _)
        split
        · exact h
        · exact Attempts.Sound.note h hc.index_le _ r _
      | exhausted => trivial
    | seq p q =>
      have h := ih m p c t hc ht
      simp only [run]
      cases hrun : g.run fuel m p c t with
      | success d ts t' =>
        rw [hrun] at h
        exact .prepend ts (ih m q (between m d) t' (endsAt_between m (endsAt_of_run hc hrun)) h)
      | failure t' => rw [hrun] at h; exact h
      | exhausted => trivial
    | choice p q =>
      have h := ih m p c t hc ht
      simp only [run]
      cases hrun : g.run fuel m p c t with
      | success d ts t' => rw [hrun] at h; exact h
      | failure t' => rw [hrun] at h; exact ih m q c t' hc h
      | exhausted => trivial
    | star p =>
      have h := ih m p c t hc ht
      simp only [run]
      cases hrun : g.run fuel m p c t with
      | success d ts t' =>
        rw [hrun] at h
        exact .prepend ts (ih m (.more p) d t' (endsAt_of_run hc hrun) h)
      | failure t' => rw [hrun] at h; exact h
      | exhausted => trivial
    | more p =>
      have hbetween := endsAt_between m hc
      have h := ih m p (between m c) t hbetween ht
      simp only [run]
      cases hrun : g.run fuel m p (between m c) t with
      | success d ts t' =>
        rw [hrun] at h
        exact .prepend ts (ih m (.more p) d t' (endsAt_of_run hbetween hrun) h)
      | failure t' => rw [hrun] at h; exact h
      | exhausted => trivial
    | optional p =>
      have h := ih m p c t hc ht
      simp only [run]
      cases hrun : g.run fuel m p c t with
      | success d ts t' => rw [hrun] at h; exact h
      | failure t' => rw [hrun] at h; exact h
      | exhausted => trivial
    | ahead p =>
      have h := ih { m with lookahead := m.lookahead.enter } p c t hc ht
      simp only [run]
      cases hrun : g.run fuel { m with lookahead := m.lookahead.enter } p c t with
      | success d ts t' => rw [hrun] at h; exact h
      | failure t' => rw [hrun] at h; exact h
      | exhausted => trivial
    | absent p =>
      have h := ih { m with lookahead := m.lookahead.invert } p c t hc ht
      simp only [run]
      cases hrun : g.run fuel { m with lookahead := m.lookahead.invert } p c t with
      | success d ts t' => rw [hrun] at h; exact h
      | failure t' => rw [hrun] at h; exact h
      | exhausted => trivial

/-- A rule that fails outside all lookahead leaves a rule on record. -/
theorem listed_of_run_rule {fuel : Nat} {m : Mode} {r : ρ} {c : Cursor} {t t' : Attempts ρ}
    (hm : m.keepsTrees) (hc : c.EndsAt length) (ht : t.Sound length)
    (hrun : g.run fuel m (.rule r) c t = .failure t') : t'.listed ≠ [] := by
  cases fuel with
  | zero => cases hrun
  | succ fuel =>
    have hsound := g.run_keeps_sound fuel (g.modes m r).2 (g.body r) c t hc ht
    have haround := (modes_keepsTrees (r := r) hm (g := g)).1
    rw [Mode.keepsTrees, Bool.and_eq_true, decide_eq_true_eq, decide_eq_true_eq] at haround
    obtain ⟨hlookahead, hkind⟩ := haround
    simp only [run] at hrun
    split at hrun
    · cases hrun
    · next t'' hbody =>
      rw [hbody] at hsound
      rw [hlookahead, if_neg (by decide), note, if_neg hkind] at hrun
      cases hrun
      exact Attempts.Sound.listed_track hsound r _ _
    · cases hrun

/-- What a refusal reports stands in the text, and it lists a rule. -/
theorem Ends.sound_of_refused {top : ρ} (hends : g.Ends top) {source : String} {t : Attempts ρ}
    (h : g.parse top source = .error t) : t.furthest ≤ source.toList.length ∧ t.listed ≠ [] := by
  have hstart : Cursor.EndsAt ⟨0, source.toList⟩ source.toList.length := Nat.zero_add _
  have hempty : ({} : Attempts ρ).Sound source.toList.length := Attempts.sound_empty _
  have hsound :=
    g.run_keeps_sound (g.fuelFor source.toList.length) {} (.rule top) _ {} hstart hempty
  have hrefuses : g.Refuses top source := by
    rcases hends.decides source with ⟨tree, htree, -⟩ | ⟨-, hrefuses⟩
    · rw [h] at htree
      cases htree
    · exact hrefuses
  simp only [parse] at h
  cases hrun : g.run (g.fuelFor source.toList.length) {} (.rule top) ⟨0, source.toList⟩ {} with
  | success d ts t' => cases (run_success hrun).unique hrefuses
  | failure t' =>
    rw [hrun] at h hsound
    cases h
    exact ⟨Attempts.Sound.furthest_le hsound, listed_of_run_rule rfl hstart hempty hrun⟩
  | exhausted => exact absurd hrun (hends.run_ne_exhausted source)

end Grammar

/-- A listing starts with the first name. -/
theorem enumerate_cons (a : String) (names : List String) :
    ∃ back, enumerate (a :: names) = a ++ back := by
  match names with
  | [] => exact ⟨"", String.append_empty.symm⟩
  | [b] => exact ⟨" or " ++ b, String.append_assoc⟩
  | b :: c :: names =>
    let last := (a :: b :: c :: names).getLast?.getD ""
    refine ⟨", " ++ (", ".intercalate (b :: (c :: names).dropLast) ++ (", or " ++ last)), ?_⟩
    show ", ".intercalate (a :: b :: (c :: names).dropLast) ++ ", or " ++ last = _
    rw [String.intercalate_cons_cons]
    simp only [String.append_assoc]

theorem mem_intercalate {c : Char} {separator : String} {names : List String}
    (h : c ∈ (separator.intercalate names).toList) :
    c ∈ separator.toList ∨ ∃ name ∈ names, c ∈ name.toList := by
  induction names with
  | nil => cases h
  | cons a names ih =>
    cases names with
    | nil => exact .inr ⟨a, List.mem_cons_self, h⟩
    | cons b names =>
      rw [String.intercalate_cons_cons, String.toList_append, String.toList_append] at h
      rcases List.mem_append.mp h with h | h
      · rcases List.mem_append.mp h with h | h
        · exact .inr ⟨a, List.mem_cons_self, h⟩
        · exact .inl h
      · rcases ih h with h | ⟨name, hname, h⟩
        · exact .inl h
        · exact .inr ⟨name, List.mem_cons_of_mem a hname, h⟩

/-- A listing has the characters of the names and of what stands between them, and no others. -/
theorem mem_enumerate {c : Char} {names : List String} (h : c ∈ (enumerate names).toList) :
    c ∈ ", or ".toList ∨ ∃ name ∈ names, c ∈ name.toList := by
  match names, h with
  | [a], h => exact .inr ⟨a, List.mem_cons_self, h⟩
  | [a, b], h =>
    rw [enumerate, String.toList_append, String.toList_append, List.mem_append,
      List.mem_append] at h
    rcases h with (h | h) | h
    · exact .inr ⟨a, List.mem_cons_self, h⟩
    · exact .inl (List.mem_cons_of_mem _ h)
    · exact .inr ⟨b, List.mem_cons_of_mem a List.mem_cons_self, h⟩
  | a :: b :: d :: names, h =>
    obtain ⟨last, hlast⟩ : ∃ last, (a :: b :: d :: names).getLast? = some last :=
      ⟨_, List.getLast?_eq_some_getLast (List.cons_ne_nil _ _)⟩
    have htext : enumerate (a :: b :: d :: names) =
        ", ".intercalate (a :: b :: d :: names).dropLast ++ ", or " ++ last := by
      show _ ++ (List.getLast? _).getD "" = _
      rw [hlast]
      rfl
    rw [htext, String.toList_append, String.toList_append, List.mem_append, List.mem_append] at h
    rcases h with (h | h) | h
    · rcases mem_intercalate h with h | ⟨name, hname, h⟩
      · exact .inl (List.mem_append_left "or ".toList h)
      · exact .inr ⟨name, List.dropLast_subset _ hname, h⟩
    · exact .inl h
    · exact .inr ⟨last, List.mem_of_getLast? hlast, h⟩

/-- A text starts by naming a rule as expected, or as one that must not stand there. -/
def Names (name : ρ → String) (text : String) : Prop :=
  ∃ r back, text = "expected " ++ name r ++ back ∨ text = "unexpected " ++ name r ++ back

theorem Names.ne_unknown {name : ρ → String} {text : String} (h : Names name text) :
    text ≠ "unknown parsing error" := by
  obtain ⟨r, back, h | h⟩ := h
  · intro heq
    have hchars := congrArg String.toList (h.symm.trans heq)
    rw [String.append_assoc, String.toList_append] at hchars
    cases (List.cons.inj hchars).1
  · intro heq
    have hchars := congrArg String.toList (h.symm.trans heq)
    rw [String.append_assoc, String.toList_append] at hchars
    cases (List.cons.inj (List.cons.inj (List.cons.inj hchars).2).2).1

namespace Grammar

variable [DecidableEq ρ] {g : Grammar ρ}

theorem exists_namesOf (hrules : ∀ r, r ∈ g.rules) {listed : List ρ} (h : listed ≠ []) :
    ∃ r names, g.namesOf listed = g.name r :: names := by
  obtain ⟨r, hr⟩ := List.exists_mem_of_ne_nil listed h
  cases hfilter : g.rules.filter (· ∈ listed) with
  | nil =>
    have hmem : r ∈ g.rules.filter (· ∈ listed) :=
      List.mem_filter.mpr ⟨hrules r, decide_eq_true hr⟩
    rw [hfilter] at hmem
    cases hmem
  | cons first others =>
    refine ⟨first, others.map g.name, ?_⟩
    rw [namesOf, hfilter, List.map_cons]

theorem namesOf_nil : g.namesOf [] = [] := by
  simp [namesOf]

/-- With a rule on record, the report names a rule. -/
theorem names_expectation (hrules : ∀ r, r ∈ g.rules) {t : Attempts ρ} (h : t.listed ≠ []) :
    Names g.name (g.expectation t) := by
  unfold expectation
  by_cases hunexpected : t.unexpected = []
  · have hexpected : t.expected ≠ [] := by
      rwa [Attempts.listed, hunexpected, List.nil_append] at h
    obtain ⟨r, names, hnames⟩ := exists_namesOf hrules hexpected
    obtain ⟨back, hback⟩ := enumerate_cons (g.name r) names
    refine ⟨r, back, .inl ?_⟩
    rw [hunexpected, namesOf_nil, hnames]
    show "expected " ++ enumerate (g.name r :: names) = _
    rw [hback, String.append_assoc]
  · obtain ⟨r, names, hnames⟩ := exists_namesOf hrules hunexpected
    obtain ⟨back, hback⟩ := enumerate_cons (g.name r) names
    rw [hnames]
    cases g.namesOf t.expected with
    | nil =>
      refine ⟨r, back, .inr ?_⟩
      show "unexpected " ++ enumerate (g.name r :: names) = _
      rw [hback, String.append_assoc]
    | cons other others =>
      refine ⟨r, back ++ "; expected " ++ enumerate (other :: others), .inr ?_⟩
      show "unexpected " ++ enumerate (g.name r :: names) ++ "; expected " ++ _ = _
      rw [hback]
      simp only [String.append_assoc]

theorem mem_namesOf {name : String} {listed : List ρ} (h : name ∈ g.namesOf listed) :
    ∃ r, name = g.name r := by
  obtain ⟨r, -, rfl⟩ := List.mem_map.mp h
  exact ⟨r, rfl⟩

/-- The report has the characters of its own words and of the names of rules, and no others. -/
theorem mem_expectation {c : Char} {t : Attempts ρ} (h : c ∈ (g.expectation t).toList) :
    c ∈ "unknown parsing error; expected, or ".toList ∨ ∃ r, c ∈ (g.name r).toList := by
  have hwords : ∀ word ∈ ["unknown parsing error", "expected ", "unexpected ", "; expected ",
      ", or "], word.toList ⊆ "unknown parsing error; expected, or ".toList := by decide
  have hlisting {listed : List ρ} (h : c ∈ (enumerate (g.namesOf listed)).toList) :
      c ∈ "unknown parsing error; expected, or ".toList ∨ ∃ r, c ∈ (g.name r).toList := by
    rcases mem_enumerate h with h | ⟨name, hname, h⟩
    · exact .inl (hwords ", or " (by decide) h)
    · obtain ⟨r, rfl⟩ := mem_namesOf hname
      exact .inr ⟨r, h⟩
  unfold expectation at h
  split at h
  · exact .inl (hwords _ (by decide) h)
  · rw [String.toList_append, List.mem_append] at h
    exact h.elim (fun h => .inl (hwords _ (by decide) h)) hlisting
  · rw [String.toList_append, List.mem_append] at h
    exact h.elim (fun h => .inl (hwords _ (by decide) h)) hlisting
  · rw [String.toList_append, String.toList_append, String.toList_append, List.mem_append,
      List.mem_append, List.mem_append] at h
    rcases h with ((h | h) | h) | h
    · exact .inl (hwords _ (by decide) h)
    · exact hlisting h
    · exact .inl (hwords _ (by decide) h)
    · exact hlisting h

end Grammar

end QuovaKotlin.Peg
