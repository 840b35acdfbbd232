import QuovaKotlin.Module.Parse
import QuovaKotlin.Proofs.Placement
import QuovaKotlin.Proofs.Reading.Inversion
import QuovaKotlin.Proofs.Terms

/-!
# The characters of a module description

Names, versions and the values of settings are read from tokens, and the grammar decides which
characters a token can have. So the parts of every description that is read have no characters but
those, and none of them goes over the end of a line.
-/

set_option autoImplicit false

namespace QuovaKotlin.Module

open Peg Peg.Grammar Reading
open Peg.Pattern (over_lit anyExcept newline)

def isNameChar (x : Char) : Bool :=
  x.isAlphanum || x == '_' || x == '-'

/-- A character of a name with dots. -/
def isDottedChar (x : Char) : Bool :=
  isNameChar x || x == '.'

/-- A character of a version. -/
def isVersionChar (x : Char) : Bool :=
  isDottedChar x || x == '+' || x == '$' || x == '\x7b' || x == '\x7d'

/-- A text without line breaks. -/
def isSingleLine (s : String) : Bool :=
  s.toList.all (! Layout.endsLine ·)

theorem isVersionChar_of_isDottedChar {x : Char} (h : isDottedChar x) : isVersionChar x := by
  simp [isVersionChar, h]

theorem all_trim {q : Char → Bool} {s : String} (h : s.toList.all q) :
    (Text.trim s).toList.all q := by
  have hdrop : ∀ u : List Char, u.all q → (Text.dropBlanks u).all q := by
    intro u hu
    exact List.all_eq_true.mpr fun x hx =>
      List.all_eq_true.mp hu x ((List.dropWhile_suffix _).subset hx)
  rw [Text.trim, String.toList_ofList, Text.dropBlanksEnd, List.all_reverse]
  exact hdrop _ (by rw [List.all_reverse]; exact hdrop _ h)

section

variable {m : Mode} {c d : Cursor} {ts : List Node} {w : List Char}

theorem nameChar_over {q : Char → Bool} (hq : ∀ x, isNameChar x → q x) :
    Grammar.nameChar.Over q := by
  have hlit : ∀ s : String, s.toList.all isNameChar → (Pattern.lit s : Pattern Rule).Over q :=
    fun s hs x hx => hq x (List.all_eq_true.mp hs x hx)
  refine ⟨fun x hx => hq x ?_, hlit _ (by decide), hlit _ (by decide)⟩
  simp [isNameChar, show x.isAlphanum from hx]

theorem all_of_reads_name (h : grammar.Reads .name w) : w.all isDottedChar := by
  have hchar : Grammar.nameChar.Over isDottedChar :=
    nameChar_over fun x hx => by simp [isDottedChar, hx]
  have hbody : (grammar.body .name).Over isDottedChar :=
    ⟨trivial, ⟨hchar, hchar⟩, over_lit (by decide), hchar, hchar⟩
  exact List.all_eq_true.mpr (h.spells.over hbody)

theorem all_of_reads_versionName (h : grammar.Reads .versionName w) : w.all isVersionChar := by
  have hchar : Grammar.nameChar.Over isVersionChar :=
    nameChar_over fun x hx => by simp [isVersionChar, isDottedChar, hx]
  have hpiece : (Pattern.oneOf [.all [.lit "$\x7b", .plus Grammar.nameChar, .lit "\x7d"],
      Grammar.nameChar, .lit ".", .lit "+"]).Over isVersionChar :=
    ⟨⟨over_lit (by decide), ⟨hchar, hchar⟩, over_lit (by decide)⟩, hchar, over_lit (by decide),
      over_lit (by decide)⟩
  have hbody : (grammar.body .versionName).Over isVersionChar := ⟨hpiece, hpiece⟩
  exact List.all_eq_true.mpr (h.spells.over hbody)

/-- One character is taken, and it does not end the line. -/
theorem passes_of_anyExcept_newline (hm : m.kind ≠ .normal)
    (h : Evaluates grammar m (anyExcept newline) c (some (ts, d))) :
    ∃ x, c.Passes [x] d ∧ ¬ Layout.endsLine x := by
  obtain ⟨_, _, e, -, habsent, hchar⟩ := h.of_seq
  obtain ⟨-, rfl, hnone⟩ := habsent.of_absent
  rw [between_of_kind hm] at hchar
  obtain ⟨hline, hnone⟩ := hnone.of_noChoice
  obtain ⟨-, hreturn⟩ := hnone.of_noChoice
  cases hchar with
  | @char _ _ index x rest hx =>
    refine ⟨x, .step, fun hends => ?_⟩
    simp only [Layout.endsLine, Bool.or_eq_true, beq_iff_eq] at hends
    rcases hends with rfl | rfl
    · exact hline.of_noText ⟨rest, rfl⟩
    · exact hreturn.of_noText ⟨rest, rfl⟩

theorem all_of_reads_text (h : grammar.Reads .text w) : w.all (! Layout.endsLine ·) := by
  obtain ⟨m, c, ts, d, hm, h, hpasses⟩ := h
  have hmore : ∀ c ts d, Evaluates grammar m (.more (anyExcept newline)) c (some (ts, d)) →
      ∃ w, c.Passes w d ∧ w.all (! Layout.endsLine ·) := by
    intro c ts d h
    refine h.more_induction (motive := fun c _ d => ∃ w, c.Passes w d ∧ w.all (! Layout.endsLine ·))
      (fun c _ => ⟨[], .refl c, rfl⟩) ?_
    rintro c us e vs d hround ⟨w, hpasses, hall⟩
    rw [between_of_kind hm] at hround
    obtain ⟨x, hx, hends⟩ := passes_of_anyExcept_newline hm hround
    exact ⟨[x] ++ w, hx.trans hpasses, by simpa [hends] using hall⟩
  obtain ⟨_, _, e, -, hfirst, hstar⟩ := h.of_seq
  rw [between_of_kind hm, evaluates_star_iff (between_of_kind hm e)] at hstar
  obtain ⟨x, hx, hends⟩ := passes_of_anyExcept_newline hm hfirst
  obtain ⟨u, hu, hall⟩ := hmore _ _ _ hstar
  rw [hpasses.unique (hx.trans hu)]
  simpa [hends] using hall

end

/-- Only the text of a raw entry is not bounded by the grammar. -/
def Plugin.IsLegible : Plugin → Prop
  | .declared id version => id.toList.all isDottedChar ∧ ∀ v ∈ version, v.toList.all isVersionChar
  | .raw _ => True

def Repository.IsLegible : Repository → Prop
  | .named name => name.toList.all isDottedChar
  | .raw _ => True

def Dependency.IsLegible : Dependency → Prop
  | .declared _ group artifact version =>
    group.toList.all isDottedChar ∧ artifact.toList.all isDottedChar ∧
      version.toList.all isVersionChar
  | .raw _ => True

def Setting.IsLegible (setting : Setting) : Prop :=
  setting.name.toList.all isDottedChar ∧ isSingleLine setting.value

structure Description.IsLegible (d : Description) : Prop where
  group : d.group.toList.all isDottedChar
  version : d.version.toList.all isVersionChar
  plugins : ∀ plugin ∈ d.plugins, plugin.IsLegible
  repositories : ∀ repository ∈ d.repositories, repository.IsLegible
  dependencies : ∀ dependency ∈ d.dependencies, dependency.IsLegible
  definitions : ∀ setting ∈ d.definitions, setting.IsLegible
  options : ∀ setting ∈ d.options, setting.IsLegible

section

variable {α : Type} {node : Node} {rule : Rule} {read : Node → Read α}

theorem of_readBlocks {block entry : Rule} {xs : List α}
    (h : readBlocks node block entry read = .ok xs) :
    ∀ x ∈ xs, ∃ b ∈ node.children, ∃ child ∈ b.children,
      child.rule = entry ∧ read child = .ok x := by
  obtain ⟨lists, hlists, rfl⟩ := map_eq_ok h
  intro x hx
  obtain ⟨list, hlist, hx⟩ := List.mem_flatten.mp hx
  obtain ⟨b, hb, -, hread⟩ := of_each hlists list hlist
  obtain ⟨child, hchild, hrule, hread⟩ := of_each hread x hx
  exact ⟨b, hb, child, hchild, hrule, hread⟩

variable {q : Char → Bool} (hnode : grammar.Makes node)

include hnode

/-- The characters of a child are those of its rule. -/
theorem all_of_child {child : Node} (hchild : child ∈ node.children)
    (hatomic : grammar.kind child.rule = .atomic)
    (hq : ∀ w, grammar.Reads child.rule w → w.all q) : child.text.toList.all q := by
  obtain ⟨w, htext, hreads, -⟩ := (hnode.children child hchild).reads hatomic
  rw [htext, String.toList_ofList]
  exact hq w hreads

theorem all_of_trimmedTextOf {s : String} (hatomic : grammar.kind rule = .atomic)
    (hq : ∀ w, grammar.Reads rule w → w.all q) (h : trimmedTextOf node rule = .ok s) :
    s.toList.all q := by
  obtain ⟨text, htext, rfl⟩ := map_eq_ok h
  obtain ⟨child, hchild, rfl⟩ := map_eq_ok htext
  obtain ⟨hmem, rfl⟩ := of_required hchild
  exact all_trim (all_of_child hnode hmem hatomic hq)

theorem isLegible_of_readPlugin {plugin : Plugin} (h : readPlugin node = .ok plugin) :
    plugin.IsLegible := by
  obtain ⟨raw, -, h⟩ := bind_eq_ok h
  cases raw with
  | some text =>
    cases h
    trivial
  | none =>
    obtain ⟨id, hid, h⟩ := bind_eq_ok h
    cases h
    refine ⟨all_of_trimmedTextOf hnode rfl (fun _ => all_of_reads_name) hid, fun v hv => ?_⟩
    obtain ⟨child, hchild, rfl⟩ := Option.map_eq_some_iff.mp hv
    obtain ⟨hmem, hrule⟩ := mem_of_child? hchild
    refine all_of_child hnode hmem (by rw [hrule]; rfl) ?_
    rw [hrule]
    exact fun _ => all_of_reads_versionName

theorem isLegible_of_readRepository {repository : Repository}
    (h : readRepository node = .ok repository) : repository.IsLegible := by
  obtain ⟨raw, -, h⟩ := bind_eq_ok h
  cases raw with
  | some text =>
    cases h
    trivial
  | none =>
    obtain ⟨name, hname, rfl⟩ := map_eq_ok h
    exact all_of_trimmedTextOf hnode rfl (fun _ => all_of_reads_name) hname

theorem isLegible_of_readDeclaredDependency {dependency : Dependency}
    (h : readDeclaredDependency node = .ok dependency) : dependency.IsLegible := by
  have hname : ∀ child ∈ node.childrenOf .name, child.text.toList.all isDottedChar := by
    intro child hchild
    obtain ⟨hmem, hrule⟩ := List.mem_filter.mp hchild
    have hrule : child.rule = .name := of_decide_eq_true hrule
    refine all_of_child hnode hmem (by rw [hrule]; rfl) ?_
    rw [hrule]
    exact fun _ => all_of_reads_name
  unfold readDeclaredDependency at h
  split at h
  · next group artifact others hnames =>
    obtain ⟨kind, -, h⟩ := bind_eq_ok h
    obtain ⟨version, hversion, h⟩ := bind_eq_ok h
    cases h
    exact ⟨hname group (by simp [hnames]), hname artifact (by simp [hnames]),
      all_of_trimmedTextOf hnode rfl (fun _ => all_of_reads_versionName) hversion⟩
  · cases h

theorem isLegible_of_readDependency {dependency : Dependency}
    (h : readDependency node = .ok dependency) : dependency.IsLegible := by
  obtain ⟨raw, -, h⟩ := bind_eq_ok h
  cases raw with
  | some text =>
    cases h
    trivial
  | none =>
    exact isLegible_of_readDeclaredDependency hnode h

theorem isLegible_of_readSetting {setting : Setting} (h : readSetting node = .ok setting) :
    setting.IsLegible := by
  obtain ⟨name, hname, h⟩ := bind_eq_ok h
  obtain ⟨value, hvalue, h⟩ := bind_eq_ok h
  cases h
  exact ⟨all_of_trimmedTextOf hnode rfl (fun _ => all_of_reads_name) hname,
    all_of_trimmedTextOf hnode rfl (fun _ => all_of_reads_text) hvalue⟩

theorem isLegible_of_readDescription {d : Description} (h : readDescription node = .ok d) :
    d.IsLegible := by
  obtain ⟨project, -, h⟩ := bind_eq_ok h
  obtain ⟨group, hgroup, h⟩ := bind_eq_ok h
  obtain ⟨version, hversion, h⟩ := bind_eq_ok h
  obtain ⟨plugins, hplugins, h⟩ := bind_eq_ok h
  obtain ⟨repositories, hrepositories, h⟩ := bind_eq_ok h
  obtain ⟨dependencies, hdependencies, h⟩ := bind_eq_ok h
  obtain ⟨definitions, hdefinitions, h⟩ := bind_eq_ok h
  obtain ⟨options, hoptions, h⟩ := bind_eq_ok h
  cases h
  have hentry : ∀ b ∈ node.children, ∀ child ∈ b.children, grammar.Makes child :=
    fun b hb child hchild => (hnode.children b hb).children child hchild
  constructor
  · obtain ⟨header, hheader, -, hread⟩ := of_one hgroup
    exact all_of_trimmedTextOf (hnode.children header hheader) rfl
      (fun _ => all_of_reads_name) hread
  · obtain ⟨header, hheader, -, hread⟩ := of_one hversion
    exact all_of_trimmedTextOf (hnode.children header hheader) rfl
      (fun _ => all_of_reads_versionName) hread
  · intro plugin hplugin
    obtain ⟨b, hb, child, hchild, -, hread⟩ := of_readBlocks hplugins plugin hplugin
    exact isLegible_of_readPlugin (hentry b hb child hchild) hread
  · intro repository hrepository
    obtain ⟨b, hb, child, hchild, -, hread⟩ := of_readBlocks hrepositories repository hrepository
    exact isLegible_of_readRepository (hentry b hb child hchild) hread
  · intro dependency hdependency
    obtain ⟨b, hb, child, hchild, -, hread⟩ := of_readBlocks hdependencies dependency hdependency
    exact isLegible_of_readDependency (hentry b hb child hchild) hread
  · intro setting hsetting
    obtain ⟨child, hchild, -, hread⟩ := of_each hdefinitions setting hsetting
    exact isLegible_of_readSetting (hnode.children child hchild) hread
  · intro setting hsetting
    obtain ⟨child, hchild, -, hread⟩ := of_each hoptions setting hsetting
    exact isLegible_of_readSetting (hnode.children child hchild) hread

end

theorem parse_eq_ok {text : String} {d : Description} (h : parse text = .ok d) :
    ∃ tree, grammar.parse .moduleFile text = .ok tree ∧ readDescription tree = .ok d := by
  unfold parse parseTree at h
  cases hparse : grammar.parse .moduleFile text with
  | error attempts =>
    rw [hparse] at h
    cases h
  | ok tree =>
    rw [hparse] at h
    change (readDescription tree).mapError (·.problem text) = .ok d at h
    cases hread : readDescription tree with
    | error e =>
      rw [hread] at h
      cases h
    | ok d' =>
      rw [hread] at h
      cases h
      exact ⟨tree, rfl, hread⟩

theorem isLegible_of_parse {text : String} {d : Description} (h : parse text = .ok d) :
    d.IsLegible := by
  obtain ⟨tree, htree, hread⟩ := parse_eq_ok h
  exact isLegible_of_readDescription (parse_makes htree).1 hread

end QuovaKotlin.Module
