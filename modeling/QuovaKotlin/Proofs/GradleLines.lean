import QuovaKotlin.Module.Gradle
import QuovaKotlin.Proofs.ModuleLexemes

/-!
# Gradle files lose nothing

The text of `build.gradle` is a list of lines, and no part of a description goes over the end of
one. So the lines can be told from the text, the blocks from the lines and the parts of an entry
from its line: two descriptions without raw entries that give the same two files are the same.
-/

set_option autoImplicit false

namespace QuovaKotlin

/-- Two lists are cut at the first place where an element stands. -/
theorem append_cons_inj {α : Type} {x : α} {u u' v v' : List α} (hu : x ∉ u) (hu' : x ∉ u')
    (h : u ++ x :: v = u' ++ x :: v') : u = u' ∧ v = v' := by
  induction u generalizing u' with
  | nil =>
    cases u' with
    | nil => exact ⟨rfl, (List.cons.inj h).2⟩
    | cons y u' => exact absurd (List.cons.inj h).1 fun hx => hu' (hx ▸ List.mem_cons_self)
  | cons y u ih =>
    cases u' with
    | nil => exact absurd (List.cons.inj h).1.symm fun hx => hu (hx ▸ List.mem_cons_self)
    | cons y' u' =>
      obtain ⟨rfl, hrest⟩ := List.cons.inj h
      obtain ⟨rfl, hv⟩ := ih (fun hx => hu (List.mem_cons_of_mem _ hx))
        (fun hx => hu' (List.mem_cons_of_mem _ hx)) hrest
      exact ⟨rfl, hv⟩

/-- Texts are cut at the first place where a character stands. -/
theorem Text.append_inj_at (x : Char) {u u' v v' : String} (hu : x ∉ u.toList) (hu' : x ∉ u'.toList)
    (hv : v.toList.head? = some x) (hv' : v'.toList.head? = some x) (h : u ++ v = u' ++ v') :
    u = u' ∧ v = v' := by
  obtain ⟨w, hw⟩ := List.head?_eq_some_iff.mp hv
  obtain ⟨w', hw'⟩ := List.head?_eq_some_iff.mp hv'
  have hlists := congrArg String.toList h
  rw [String.toList_append, String.toList_append, hw, hw'] at hlists
  obtain ⟨hleft, hright⟩ := append_cons_inj hu hu' hlists
  exact ⟨String.toList_inj.mp hleft, String.toList_inj.mp (by rw [hw, hw', hright])⟩

theorem map_inj_on {α β : Type} {f : α → β} {xs ys : List α}
    (hf : ∀ x ∈ xs, ∀ y ∈ ys, f x = f y → x = y) (h : xs.map f = ys.map f) : xs = ys := by
  induction xs generalizing ys with
  | nil => exact (List.map_eq_nil_iff.mp h.symm).symm
  | cons x xs ih =>
    cases ys with
    | nil => cases h
    | cons y ys =>
      obtain ⟨hxy, hrest⟩ := List.cons.inj h
      rw [hf x List.mem_cons_self y List.mem_cons_self hxy, ih ?_ hrest]
      exact fun x hx y hy => hf x (List.mem_cons_of_mem _ hx) y (List.mem_cons_of_mem _ hy)

theorem intersperse_inj {α : Type} {x : α} {xs ys : List α}
    (h : xs.intersperse x = ys.intersperse x) : xs = ys := by
  induction xs generalizing ys with
  | nil =>
    cases ys with
    | nil => rfl
    | cons y ys => cases ys <;> cases h
  | cons y xs ih =>
    cases ys with
    | nil => cases xs <;> cases h
    | cons y' ys =>
      cases xs with
      | nil =>
        cases ys with
        | nil => exact h
        | cons => cases h
      | cons z xs =>
        cases ys with
        | nil => cases h
        | cons z' ys =>
          simp only [List.intersperse_cons_cons, List.cons.injEq, true_and] at h
          rw [h.1, ih h.2]

namespace Text

theorem joinWith_newlines (texts : List String) :
    joinWith "\n" (texts.map (· ++ "\n")) = endEach "\n" (texts.intersperse "") := by
  induction texts with
  | nil => rfl
  | cons s texts ih =>
    cases texts with
    | nil => simp [joinWith, endEach]
    | cons t texts =>
      simp only [List.map_cons, joinWith, List.intersperse_cons_cons, endEach] at ih ⊢
      rw [ih, String.empty_append]
      simp only [String.append_assoc]

/-- Lines can be told from the text that ends each of them. -/
theorem endEach_inj {xs ys : List String} (hx : ∀ l ∈ xs, '\n' ∉ l.toList)
    (hy : ∀ l ∈ ys, '\n' ∉ l.toList) (h : endEach "\n" xs = endEach "\n" ys) : xs = ys := by
  have hne : ∀ (l : String) (ls : List String), endEach "\n" (l :: ls) ≠ "" := by
    intro l ls heq
    have := congrArg String.toList heq
    simp [endEach] at this
  induction xs generalizing ys with
  | nil =>
    cases ys with
    | nil => rfl
    | cons l ys => exact absurd h.symm (hne l ys)
  | cons l xs ih =>
    cases ys with
    | nil => exact absurd h (hne l xs)
    | cons l' ys =>
      simp only [endEach, String.append_assoc] at h
      obtain ⟨rfl, hrest⟩ := append_inj_at '\n' (hx l List.mem_cons_self) (hy l' List.mem_cons_self)
        (by simp) (by simp) h
      rw [ih (fun l hl => hx l (List.mem_cons_of_mem _ hl))
        (fun l hl => hy l (List.mem_cons_of_mem _ hl)) (String.append_right_inj _ |>.mp hrest)]

end Text

namespace Module

/-- The lines of a block; none for no entries. -/
def blockLines (name : String) (entries : List String) : List String :=
  if entries.isEmpty then []
  else (name ++ " \x7b") :: (entries.map ("\t" ++ ·) ++ ["\x7d", ""])

/-- The lines of `build.gradle`. -/
def Description.gradleLines (d : Description) : List String :=
  blockLines "plugins" (d.plugins.map (·.gradle)) ++
    (("group = \"" ++ d.group ++ "\"") :: ("version = \"" ++ d.version ++ "\"") :: "" ::
      (blockLines "ext" (d.definitions.map (·.gradle)) ++
        (blockLines "repositories" (d.repositories.map (·.gradle)) ++
          (blockLines "dependencies" (d.dependencies.map (·.gradle)) ++
            (d.options.map (·.gradle)).intersperse ""))))

theorem gradleBlock_eq (name : String) (entries : List String) :
    gradleBlock name entries = Text.endEach "\n" (blockLines name entries) := by
  unfold gradleBlock blockLines
  split
  · rfl
  · simp only [Text.endEach, Text.endEach_append, String.append_assoc, String.append_empty]
    rfl

theorem Description.buildGradle_eq (d : Description) :
    d.buildGradle = Text.endEach "\n" d.gradleLines := by
  have hoptions : d.options.map (·.gradle ++ "\n") =
      (d.options.map (·.gradle)).map (· ++ "\n") := by simp
  have hgroup : "\"\n" = "\"" ++ "\n" := rfl
  have hversion : "\"\n\n" = "\"" ++ ("\n" ++ "\n") := rfl
  simp only [buildGradle, gradleLines, gradleBlock_eq, hoptions, Text.joinWith_newlines,
    Text.endEach_append, Text.endEach, hgroup, hversion, String.append_assoc, String.empty_append]

def Plugin.isRaw : Plugin → Bool
  | .declared .. => false
  | .raw _ => true

def Repository.isRaw : Repository → Bool
  | .named _ => false
  | .raw _ => true

def Dependency.isRaw : Dependency → Bool
  | .declared .. => false
  | .raw _ => true

/-- Some entry is passed on as it is. -/
def Description.hasRaw (d : Description) : Bool :=
  d.plugins.any (·.isRaw) || d.repositories.any (·.isRaw) || d.dependencies.any (·.isRaw)

theorem not_mem_of_all {q : Char → Bool} {x : Char} {s : String} (h : s.toList.all q)
    (hx : q x = false) : x ∉ s.toList := by
  intro hmem
  have := List.all_eq_true.mp h x hmem
  rw [hx] at this
  cases this

/-- What stands behind the id of a plugin. -/
def versionSuffix : Option String → String
  | none => "'"
  | some version => "' version '" ++ version ++ "'"

theorem Plugin.gradle_declared (id : String) (version : Option String) :
    (Plugin.declared id version).gradle = "id '" ++ (id ++ versionSuffix version) := by
  cases version <;> simp only [Plugin.gradle, versionSuffix, String.append_assoc]

theorem head?_versionSuffix (version : Option String) :
    (versionSuffix version).toList.head? = some '\x27' := by
  cases version <;> simp [versionSuffix]

theorem versionSuffix_inj {version version' : Option String}
    (h : versionSuffix version = versionSuffix version') : version = version' := by
  have hne : ∀ v : String, versionSuffix none ≠ versionSuffix (some v) := by
    intro v heq
    have := congrArg String.toList heq
    simp [versionSuffix] at this
  cases version with
  | none =>
    cases version' with
    | none => rfl
    | some v => exact absurd h (hne v)
  | some v =>
    cases version' with
    | none => exact absurd h.symm (hne v)
    | some v' =>
      simp only [versionSuffix, String.append_left_inj, String.append_right_inj] at h
      rw [h]

theorem Plugin.gradle_inj {p p' : Plugin} (h : p.IsLegible) (h' : p'.IsLegible)
    (hraw : p.isRaw = false) (hraw' : p'.isRaw = false) (heq : p.gradle = p'.gradle) : p = p' := by
  cases p with
  | raw => cases hraw
  | declared id version =>
    cases p' with
    | raw => cases hraw'
    | declared id' version' =>
      rw [gradle_declared, gradle_declared, String.append_right_inj] at heq
      obtain ⟨rfl, hsuffix⟩ := Text.append_inj_at '\x27' (not_mem_of_all h.1 (by decide))
        (not_mem_of_all h'.1 (by decide)) (head?_versionSuffix _) (head?_versionSuffix _) heq
      rw [versionSuffix_inj hsuffix]

theorem Repository.gradle_inj {r r' : Repository} (hraw : r.isRaw = false)
    (hraw' : r'.isRaw = false) (heq : r.gradle = r'.gradle) : r = r' := by
  cases r with
  | raw => cases hraw
  | named name =>
    cases r' with
    | raw => cases hraw'
    | named name' => rw [String.append_left_inj _ |>.mp heq]

theorem DependencyKind.gradle_inj {k k' : DependencyKind} (h : k.gradle = k'.gradle) : k = k' := by
  revert h
  cases k <;> cases k' <;> decide

theorem Dependency.gradle_inj {d d' : Dependency} (h : d.IsLegible) (h' : d'.IsLegible)
    (hraw : d.isRaw = false) (hraw' : d'.isRaw = false) (heq : d.gradle = d'.gradle) : d = d' := by
  cases d with
  | raw => cases hraw
  | declared kind group artifact version =>
    cases d' with
    | raw => cases hraw'
    | declared kind' group' artifact' version' =>
      have hkind : ∀ kind : DependencyKind, ' ' ∉ kind.gradle.toList := by
        intro kind
        cases kind <;> decide
      simp only [Dependency.gradle, String.append_assoc] at heq
      obtain ⟨hkinds, hrest⟩ :=
        Text.append_inj_at ' ' (hkind kind) (hkind kind') (by simp) (by simp) heq
      obtain ⟨hgroup, hrest⟩ := Text.append_inj_at ':' (not_mem_of_all h.1 (by decide))
        (not_mem_of_all h'.1 (by decide)) (by simp) (by simp)
        (String.append_right_inj _ |>.mp hrest)
      obtain ⟨hartifact, hrest⟩ := Text.append_inj_at ':' (not_mem_of_all h.2.1 (by decide))
        (not_mem_of_all h'.2.1 (by decide)) (by simp) (by simp)
        (String.append_right_inj _ |>.mp hrest)
      rw [String.append_right_inj, String.append_left_inj] at hrest
      rw [DependencyKind.gradle_inj hkinds, hgroup, hartifact, hrest]

theorem Setting.gradle_inj {s s' : Setting} (h : s.IsLegible) (h' : s'.IsLegible)
    (heq : s.gradle = s'.gradle) : s = s' := by
  simp only [Setting.gradle, String.append_assoc] at heq
  obtain ⟨hname, hrest⟩ := Text.append_inj_at ' ' (not_mem_of_all h.1 (by decide))
    (not_mem_of_all h'.1 (by decide)) (by simp) (by simp) heq
  have hvalue := String.append_right_inj _ |>.mp hrest
  cases s
  cases s'
  simp only at hname hvalue
  rw [hname, hvalue]

theorem Plugin.newline_not_mem {p : Plugin} (h : p.IsLegible) (hraw : p.isRaw = false) :
    '\n' ∉ p.gradle.toList := by
  cases p with
  | raw => cases hraw
  | declared id version =>
    have hid := not_mem_of_all h.1 (x := '\n') (by decide)
    cases version with
    | none => simp [gradle_declared, versionSuffix, hid]
    | some v =>
      have hversion := not_mem_of_all (h.2 v rfl) (x := '\n') (by decide)
      simp [gradle_declared, versionSuffix, hid, hversion]

theorem Repository.newline_not_mem {r : Repository} (h : r.IsLegible) (hraw : r.isRaw = false) :
    '\n' ∉ r.gradle.toList := by
  cases r with
  | raw => cases hraw
  | named name =>
    have hname := not_mem_of_all h (x := '\n') (by decide)
    simp [Repository.gradle, hname]

theorem Dependency.newline_not_mem {d : Dependency} (h : d.IsLegible) (hraw : d.isRaw = false) :
    '\n' ∉ d.gradle.toList := by
  cases d with
  | raw => cases hraw
  | declared kind group artifact version =>
    have hkind : '\n' ∉ kind.gradle.toList := by cases kind <;> decide
    have hgroup := not_mem_of_all h.1 (x := '\n') (by decide)
    have hartifact := not_mem_of_all h.2.1 (x := '\n') (by decide)
    have hversion := not_mem_of_all h.2.2 (x := '\n') (by decide)
    simp [Dependency.gradle, hkind, hgroup, hartifact, hversion]

theorem Setting.newline_not_mem {s : Setting} (h : s.IsLegible) : '\n' ∉ s.gradle.toList := by
  have hname := not_mem_of_all h.1 (x := '\n') (by decide)
  have hvalue := not_mem_of_all h.2 (x := '\n') (by decide)
  simp [Setting.gradle, hname, hvalue]

theorem blockLines_cons (name entry : String) (entries rest : List String) :
    blockLines name (entry :: entries) ++ rest =
      (name ++ " \x7b") :: ((entry :: entries).map ("\t" ++ ·) ++ "\x7d" :: "" :: rest) := by
  simp [blockLines]

theorem mem_blockLines_head? {name line : String} {entries rest : List String}
    (h : line ∈ (blockLines name entries ++ rest).head?) :
    line = name ++ " \x7b" ∨ line ∈ rest.head? := by
  unfold blockLines at h
  split at h
  · exact .inr h
  · exact .inl (Option.some.inj h).symm

/-- A block is told from what stands behind it by its first line and by the brace that ends it. -/
theorem blockLines_append_inj {name : String} {entries entries' rest rest' : List String}
    (hrest : name ++ " \x7b" ∉ rest.head?) (hrest' : name ++ " \x7b" ∉ rest'.head?)
    (h : blockLines name entries ++ rest = blockLines name entries' ++ rest') :
    entries = entries' ∧ rest = rest' := by
  have hbrace : ∀ entries : List String, "\x7d" ∉ entries.map ("\t" ++ ·) := by
    intro entries hmem
    obtain ⟨entry, -, heq⟩ := List.mem_map.mp hmem
    have hlists := congrArg String.toList heq
    rw [String.toList_append] at hlists
    exact absurd (List.cons.inj hlists).1 (by decide)
  cases entries with
  | nil =>
    cases entries' with
    | nil => exact ⟨rfl, h⟩
    | cons entry' entries' =>
      rw [blockLines_cons] at h
      exact absurd (by rw [show rest = _ from h]; rfl) hrest
  | cons entry entries =>
    cases entries' with
    | nil =>
      rw [blockLines_cons] at h
      exact absurd (by rw [← show _ = rest' from h]; rfl) hrest'
    | cons entry' entries' =>
      rw [blockLines_cons, blockLines_cons] at h
      obtain ⟨hentries, hbehind⟩ := append_cons_inj (hbrace (entry :: entries))
        (hbrace (entry' :: entries')) (List.cons.inj h).2
      refine ⟨map_inj_on (fun x _ y _ heq => ?_) hentries, (List.cons.inj hbehind).2⟩
      exact String.append_right_inj _ |>.mp heq

/-- An option does not open a block. -/
theorem Setting.gradle_ne_opening {s : Setting} (h : s.IsLegible) {name : String}
    (hname : ' ' ∉ name.toList) : s.gradle ≠ name ++ " \x7b" := by
  intro heq
  rw [Setting.gradle, String.append_assoc] at heq
  obtain ⟨-, hrest⟩ := Text.append_inj_at ' ' (not_mem_of_all h.1 (by decide)) hname (by simp)
    (by simp) heq
  have := congrArg String.toList hrest
  simp at this

section

variable {d d' : Description}

/-- Which lines can follow a block: those that open a later one, and options. -/
theorem opening_not_mem_head? (h : d.IsLegible) {name : String} (hname : ' ' ∉ name.toList) :
    name ++ " \x7b" ∉ ((d.options.map (·.gradle)).intersperse "").head? := by
  intro hmem
  cases hoptions : d.options with
  | nil =>
    rw [hoptions] at hmem
    cases hmem
  | cons s options =>
    have hhead : s.gradle = name ++ " \x7b" := by
      rw [hoptions] at hmem
      cases options <;> exact Option.some.inj hmem
    exact Setting.gradle_ne_opening (h.options s (by simp [hoptions])) hname hhead

theorem newline_not_mem_blockLines {name : String} {entries : List String}
    (hname : '\n' ∉ name.toList) (hentries : ∀ entry ∈ entries, '\n' ∉ entry.toList) :
    ∀ line ∈ blockLines name entries, '\n' ∉ line.toList := by
  intro line hline
  unfold blockLines at hline
  split at hline
  · cases hline
  · simp only [List.mem_cons, List.mem_append, List.mem_map, List.not_mem_nil, or_false] at hline
    rcases hline with rfl | ⟨entry, hentry, rfl⟩ | rfl | rfl
    · simp [hname]
    · simp [hentries entry hentry]
    · decide
    · decide

theorem mem_of_mem_intersperse {α : Type} {x y : α} {xs : List α} (h : y ∈ xs.intersperse x) :
    y = x ∨ y ∈ xs := by
  induction xs with
  | nil => cases h
  | cons z xs ih =>
    cases xs with
    | nil => exact .inr h
    | cons z' xs =>
      rw [List.intersperse_cons_cons, List.mem_cons, List.mem_cons] at h
      rcases h with rfl | rfl | h
      · exact .inr List.mem_cons_self
      · exact .inl rfl
      · exact (ih h).imp_right (List.mem_cons_of_mem z)

theorem Description.all_declared (hraw : d.hasRaw = false) :
    (∀ p ∈ d.plugins, p.isRaw = false) ∧ (∀ r ∈ d.repositories, r.isRaw = false) ∧
      ∀ dependency ∈ d.dependencies, dependency.isRaw = false := by
  simpa [hasRaw, and_assoc] using hraw

theorem newline_not_mem_gradleLines (h : d.IsLegible) (hraw : d.hasRaw = false) :
    ∀ line ∈ d.gradleLines, '\n' ∉ line.toList := by
  obtain ⟨hplugins, hrepositories, hdependencies⟩ := Description.all_declared hraw
  have hgroup := not_mem_of_all h.group (x := '\n') (by decide)
  have hversion := not_mem_of_all h.version (x := '\n') (by decide)
  intro line hline
  simp only [Description.gradleLines, List.mem_append, List.mem_cons] at hline
  rcases hline with hline | rfl | rfl | rfl | hline | hline | hline | hline
  · refine newline_not_mem_blockLines (by decide) (List.forall_mem_map.mpr ?_) line hline
    exact fun p hp => Plugin.newline_not_mem (h.plugins p hp) (hplugins p hp)
  · simp [hgroup]
  · simp [hversion]
  · decide
  · refine newline_not_mem_blockLines (by decide) (List.forall_mem_map.mpr ?_) line hline
    exact fun s hs => Setting.newline_not_mem (h.definitions s hs)
  · refine newline_not_mem_blockLines (by decide) (List.forall_mem_map.mpr ?_) line hline
    exact fun r hr => Repository.newline_not_mem (h.repositories r hr) (hrepositories r hr)
  · refine newline_not_mem_blockLines (by decide) (List.forall_mem_map.mpr ?_) line hline
    exact fun r hr => Dependency.newline_not_mem (h.dependencies r hr) (hdependencies r hr)
  · rcases mem_of_mem_intersperse hline with rfl | hline
    · decide
    · obtain ⟨s, hs, rfl⟩ := List.mem_map.mp hline
      exact Setting.newline_not_mem (h.options s hs)

theorem gradleLines_inj (h : d.IsLegible) (h' : d'.IsLegible)
    (heq : d.gradleLines = d'.gradleLines) :
    d.plugins.map (·.gradle) = d'.plugins.map (·.gradle) ∧
      d.group = d'.group ∧ d.version = d'.version ∧
      d.definitions.map (·.gradle) = d'.definitions.map (·.gradle) ∧
      d.repositories.map (·.gradle) = d'.repositories.map (·.gradle) ∧
      d.dependencies.map (·.gradle) = d'.dependencies.map (·.gradle) ∧
      d.options.map (·.gradle) = d'.options.map (·.gradle) := by
  have hgroup : ∀ (g : String) (rest : List String),
      "plugins" ++ " \x7b" ∉ (("group = \"" ++ g ++ "\"") :: rest).head? := by
    intro g rest hmem
    have := congrArg String.toList (Option.some.inj hmem)
    simp at this
  obtain ⟨hplugins, hrest⟩ := blockLines_append_inj (hgroup _ _) (hgroup _ _) heq
  obtain ⟨hgroups, hrest⟩ := List.cons.inj hrest
  obtain ⟨hversions, hrest⟩ := List.cons.inj hrest
  have hrest := (List.cons.inj hrest).2
  rw [String.append_left_inj, String.append_right_inj] at hgroups hversions
  have hdependencies : ∀ {d : Description}, d.IsLegible → ∀ name : String, ' ' ∉ name.toList →
      name ++ " \x7b" ≠ "dependencies" ++ " \x7b" →
      name ++ " \x7b" ∉ (blockLines "dependencies" (d.dependencies.map (·.gradle)) ++
        (d.options.map (·.gradle)).intersperse "").head? := by
    intro d h name hname hne hmem
    exact (mem_blockLines_head? hmem).elim hne (opening_not_mem_head? h hname)
  have hrepositories : ∀ {d : Description}, d.IsLegible →
      "ext" ++ " \x7b" ∉ (blockLines "repositories" (d.repositories.map (·.gradle)) ++
        (blockLines "dependencies" (d.dependencies.map (·.gradle)) ++
          (d.options.map (·.gradle)).intersperse "")).head? := by
    intro d h hmem
    exact (mem_blockLines_head? hmem).elim (by decide)
      (hdependencies h "ext" (by decide) (by decide))
  obtain ⟨hdefinitions, hrest⟩ := blockLines_append_inj (hrepositories h) (hrepositories h') hrest
  obtain ⟨hrepos, hrest⟩ := blockLines_append_inj
    (hdependencies h "repositories" (by decide) (by decide))
    (hdependencies h' "repositories" (by decide) (by decide)) hrest
  obtain ⟨hdeps, hrest⟩ := blockLines_append_inj (opening_not_mem_head? h (by decide))
    (opening_not_mem_head? h' (by decide)) hrest
  exact ⟨hplugins, hgroups, hversions, hdefinitions, hrepos, hdeps, intersperse_inj hrest⟩

end

/-- The two Gradle files of a description that was read, and has no raw entries, determine it. -/
theorem eq_of_gradle_eq {text text' : String} {d d' : Description} (h : parse text = .ok d)
    (h' : parse text' = .ok d') (hraw : d.hasRaw = false) (hraw' : d'.hasRaw = false)
    (hbuild : d.buildGradle = d'.buildGradle) (hsettings : d.settingsGradle = d'.settingsGradle) :
    d = d' := by
  have hd := isLegible_of_parse h
  have hd' := isLegible_of_parse h'
  obtain ⟨hp, hr, hdep⟩ := Description.all_declared hraw
  obtain ⟨hp', hr', hdep'⟩ := Description.all_declared hraw'
  have hproject : d.project = d'.project :=
    String.append_right_inj _ |>.mp (String.append_left_inj _ |>.mp hsettings)
  rw [Description.buildGradle_eq, Description.buildGradle_eq] at hbuild
  have hlines := Text.endEach_inj (newline_not_mem_gradleLines hd hraw)
    (newline_not_mem_gradleLines hd' hraw') hbuild
  obtain ⟨hplugins, hgroup, hversion, hdefinitions, hrepositories, hdependencies, hoptions⟩ :=
    gradleLines_inj hd hd' hlines
  have hplugins : d.plugins = d'.plugins := map_inj_on (fun p hmem p' hmem' =>
    Plugin.gradle_inj (hd.plugins p hmem) (hd'.plugins p' hmem') (hp p hmem) (hp' p' hmem'))
      hplugins
  have hrepositories : d.repositories = d'.repositories := map_inj_on (fun r hmem r' hmem' =>
    Repository.gradle_inj (hr r hmem) (hr' r' hmem')) hrepositories
  have hdependencies : d.dependencies = d'.dependencies := map_inj_on (fun e hmem e' hmem' =>
    Dependency.gradle_inj (hd.dependencies e hmem) (hd'.dependencies e' hmem') (hdep e hmem)
      (hdep' e' hmem')) hdependencies
  have hdefinitions : d.definitions = d'.definitions := map_inj_on (fun s hmem s' hmem' =>
    Setting.gradle_inj (hd.definitions s hmem) (hd'.definitions s' hmem')) hdefinitions
  have hoptions : d.options = d'.options := map_inj_on (fun s hmem s' hmem' =>
    Setting.gradle_inj (hd.options s hmem) (hd'.options s' hmem')) hoptions
  cases d
  cases d'
  simp_all only

/-- A description that is written in two ways below. -/
def demo : Description where
  project := "demo"
  group := "g"
  version := "1.0"
  plugins := [.declared "a" none, .declared "b" (some "2")]
  repositories := [.named "r"]
  dependencies := [.declared .runtimeOnly "g" "c" "$\x7bv\x7d"]
  definitions := [⟨"v", "'3'"⟩]
  options := [⟨"main", "'M'"⟩, ⟨"ext", "\x7b"⟩]

def demoInOneBlock : String :=
  "project demo\ngroup g\nversion 1.0\nplugins \x7b a b version 2 \x7d\n" ++
    "repositories \x7b r \x7d\nvar v = '3'\n" ++
    "dependencies \x7b runtime g:c:$\x7bv\x7d \x7d\nmain = 'M'\next = \x7b\n"

def demoInTwoBlocks : String :=
  "project demo; group g; version 1.0\nmain = 'M'\nplugins \x7b a; \x7d\next = \x7b\n" ++
    "repositories \x7b/**/r\x7d\nplugins \x7bb version 2\x7d\n" ++
    "dependencies \x7b runtime g : c : $\x7bv\x7d \x7d\nvar v = '3'"

theorem demo_eq_of_gradle_eq : ∃ d d',
    parse demoInOneBlock = .ok d ∧ parse demoInTwoBlocks = .ok d' ∧
    d.hasRaw = false ∧ d'.hasRaw = false ∧ d.buildGradle = d'.buildGradle ∧
    d.settingsGradle = d'.settingsGradle ∧ d = d' := by
  have hone : parse demoInOneBlock = .ok demo := by decide +kernel
  have htwo : parse demoInTwoBlocks = .ok demo := by decide +kernel
  have hraw : demo.hasRaw = false := by decide
  exact ⟨demo, demo, hone, htwo, hraw, hraw, rfl, rfl, eq_of_gradle_eq hone htwo hraw hraw rfl rfl⟩

end Module

end QuovaKotlin
