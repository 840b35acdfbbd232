import Mathlib.Data.List.Infix
import QuovaKotlin.Proofs.ModuleTokens

/-!
# Drafts of module descriptions

A draft is what somebody writes into a module description: the headers and then blocks and settings
in any order, each item on a line of its own. What can be written into one is said here, and that
the entry on a line of a block is taken by its rule and read back.
-/

set_option autoImplicit false

namespace QuovaKotlin.Module

open Peg Peg.Grammar Reading
open Peg.Pattern (all oneOf lit)
open Grammar (word)

def rawText (text : String) : String :=
  "raw \x60" ++ text ++ "\x60"

def Plugin.text : Plugin → String
  | .declared id none => id
  | .declared id (some version) => id ++ " version " ++ version
  | .raw text => rawText text

def Repository.text : Repository → String
  | .named name => name
  | .raw text => rawText text

def DependencyKind.keyword : DependencyKind → String
  | .implementation => "impl"
  | .compileOnly => "compile"
  | .runtimeOnly => "runtime"

def Dependency.text : Dependency → String
  | .declared kind group artifact version =>
    kind.keyword ++ " " ++ group ++ ":" ++ artifact ++ ":" ++ version
  | .raw text => rawText text

def Setting.text (setting : Setting) : String :=
  setting.name ++ " = " ++ setting.value

/-- A block with each entry on a line of its own. -/
def blockText (keyword : String) (entries : List String) : String :=
  keyword ++ " \x7b\n" ++ Text.endEach "\n" (entries.map ("    " ++ ·)) ++ "\x7d"

/-- What stands behind the headers. -/
inductive Element
  | plugins (entries : List Plugin)
  | repositories (entries : List Repository)
  | dependencies (entries : List Dependency)
  | definition (setting : Setting)
  | option (setting : Setting)
  deriving DecidableEq, Repr

namespace Element

def text : Element → String
  | plugins entries => blockText "plugins" (entries.map Plugin.text)
  | repositories entries => blockText "repositories" (entries.map Repository.text)
  | dependencies entries => blockText "dependencies" (entries.map Dependency.text)
  | definition setting => "var " ++ setting.text
  | option setting => setting.text

def plugins? : Element → Option (List Plugin)
  | plugins entries => some entries
  | _ => none

def repositories? : Element → Option (List Repository)
  | repositories entries => some entries
  | _ => none

def dependencies? : Element → Option (List Dependency)
  | dependencies entries => some entries
  | _ => none

def definition? : Element → Option Setting
  | definition setting => some setting
  | _ => none

def option? : Element → Option Setting
  | option setting => some setting
  | _ => none

end Element

/-- What is written into a module description, in the order of the text. -/
structure Draft where
  project : String
  group : String
  version : String
  elements : List Element
  deriving DecidableEq, Repr

/-- The headers and the elements, each on lines of its own. -/
def Draft.text (draft : Draft) : String :=
  Text.endEach "\n" (["project " ++ draft.project, "group " ++ draft.group,
    "version " ++ draft.version] ++ draft.elements.map Element.text)

/-- The lines of elements alone. -/
def elementsText (elements : List Element) : String :=
  Text.endEach "\n" (elements.map Element.text)

/-- What a draft says: its headers, and the entries and settings of each sort in order. -/
def Draft.description (draft : Draft) : Description where
  project := draft.project
  group := draft.group
  version := draft.version
  plugins := (draft.elements.filterMap Element.plugins?).flatten
  repositories := (draft.elements.filterMap Element.repositories?).flatten
  dependencies := (draft.elements.filterMap Element.dependencies?).flatten
  definitions := draft.elements.filterMap Element.definition?
  options := draft.elements.filterMap Element.option?

def Plugin.IsWritable : Plugin → Prop
  | .declared id version => IsName id ∧ ∀ v ∈ version, IsVersion v
  | .raw text => IsRawText text

def Repository.IsWritable : Repository → Prop
  | .named name => IsName name
  | .raw text => IsRawText text

def Dependency.IsWritable : Dependency → Prop
  | .declared _ group artifact version => IsName group ∧ IsName artifact ∧ IsVersion version
  | .raw text => IsRawText text

/-- The text starts with a comment. A block comment that is not closed is none. -/
def StartsComment (text : List Char) : Prop :=
  "//".toList <+: text ∨ "/*".toList <+: text ∧ "*/".toList <:+: text.drop 2

instance (text : List Char) : Decidable (StartsComment text) :=
  inferInstanceAs (Decidable (_ ∨ _ ∧ _))

/-- A setting with a value that is not taken for a comment in front of `behind`. -/
structure Setting.IsWritable (setting : Setting) (behind : String) : Prop where
  name : IsName setting.name
  value : IsValue setting.value
  no_comment : ¬ StartsComment (setting.value ++ behind).toList

def Element.IsWritable (behind : String) : Element → Prop
  | .plugins entries => ∀ plugin ∈ entries, plugin.IsWritable
  | .repositories entries => ∀ repository ∈ entries, repository.IsWritable
  | .dependencies entries => ∀ dependency ∈ entries, dependency.IsWritable
  | .definition setting => setting.IsWritable behind
  | .option setting => setting.IsWritable behind

structure Draft.IsWritable (draft : Draft) : Prop where
  project : IsName draft.project
  group : IsName draft.group
  version : IsVersion draft.version
  elements : ∀ element rest, element :: rest <:+ draft.elements →
    element.IsWritable ("\n" ++ elementsText rest)

variable {c d e : Cursor} {u : List Char} {r k : Rule}

/-- A text that starts with neither layout nor a semicolon: what can follow a header. -/
def Opens (rest : List Char) : Prop :=
  ∀ x ∈ rest.head?, isVersionChar x

/-- What can follow an entry of a block: nor may a version start there. -/
structure Begins (rest : List Char) : Prop where
  opens : Opens rest
  no_version : firstWord rest ≠ "version".toList

theorem Opens.skipLayout_eq (h : Opens c.rest) : c.skipLayout = c := by
  refine Cursor.skipLayout_eq_self fun x hx => ?_
  obtain ⟨hlow, -, hslash, -⟩ := range_of_isVersionChar (h x hx)
  refine ⟨fun hblank => ?_, hslash⟩
  simp only [Layout.isBlank, Bool.or_eq_true, beq_iff_eq] at hblank
  rcases hblank with ((rfl | rfl) | rfl) | rfl <;> revert hlow <;> decide

theorem Opens.evaluates_noMark (h : Opens c.rest) :
    Evaluates grammar {} (.optional (lit ";")) c (some ([], c)) := by
  refine .noOptional (evaluates_noText (x := ';') fun hmark => ?_)
  exact (range_of_isVersionChar (h ';' hmark)).2.2.2 rfl

theorem opens_of_passes {v : List Char} (h : c.Passes (u ++ v) d) (hall : u.all isVersionChar)
    (hne : u ≠ []) : Opens c.rest := by
  cases u with
  | nil => exact absurd rfl hne
  | cons x u =>
    rw [h.rest_eq]
    rintro y ⟨⟩
    exact List.all_eq_true.mp hall x List.mem_cons_self

theorem settled_of_passes (h : c.Passes u d) (hall : u.all isVersionChar) (hne : u ≠ []) :
    c.skipLayout = c :=
  Opens.skipLayout_eq (opens_of_passes (v := []) (by rwa [List.append_nil]) hall hne)

theorem isVersionChar_of_isNameChar {x : Char} (h : isNameChar x) : isVersionChar x := by
  simp [isVersionChar, isDottedChar, h]

/-- A word other than `version` begins an item. -/
theorem begins_of_firstWord {rest w : List Char} (h : firstWord rest = w) (hne : w ≠ [])
    (hversion : w ≠ "version".toList) : Begins rest where
  opens := by
    subst h
    cases rest with
    | nil => exact absurd rfl hne
    | cons x rest =>
      rintro y ⟨⟩
      refine isVersionChar_of_isNameChar (Decidable.byContradiction fun hx => hne ?_)
      exact List.takeWhile_cons_of_neg hx
  no_version := h ▸ hversion

theorem begins_nil : Begins [] :=
  ⟨nofun, by decide⟩

theorem begins_brace (rest : List Char) : Begins ('\x7d' :: rest) :=
  ⟨by rintro x ⟨⟩; decide, by rw [firstWord, List.takeWhile_cons_of_neg (by decide)]; decide⟩

theorem begins_word {w : List Char} (hw : w.all isNameChar) (hne : w ≠ [])
    (hversion : w ≠ "version".toList) {rest : List Char} (hoff : firstWord rest = []) :
    Begins (w ++ rest) :=
  begins_of_firstWord (by rw [firstWord_append hw, hoff, List.append_nil]) hne hversion

theorem IsName.firstWord_ne {name t : String} (h : IsName name) (ht : t ∈ reserved)
    {rest : List Char} (hoff : firstWord rest = []) :
    firstWord (name.toList ++ rest) ≠ t.toList := by
  obtain ⟨first, -, hfree, hfirst⟩ := firstWord_of_isName h hoff
  intro heq
  exact hfree (String.toList_inj.mp (hfirst.symm.trans heq) ▸ ht)

theorem begins_name {name : String} (h : IsName name) {rest : List Char}
    (hoff : firstWord rest = []) : Begins (name.toList ++ rest) := by
  obtain ⟨first, hword, -, hfirst⟩ := firstWord_of_isName h hoff
  exact begins_of_firstWord rfl (hfirst ▸ hword.toList_ne_nil)
    (h.firstWord_ne (t := "version") (by decide) hoff)

theorem IsName.toList_ne_nil {name : String} (h : IsName name) : name.toList ≠ [] := by
  obtain ⟨first, hword, -, hfirst⟩ := @firstWord_of_isName name [] h rfl
  intro hnil
  rw [hnil] at hfirst
  exact hword.toList_ne_nil hfirst.symm

theorem IsVersion.toList_ne_nil {version : String} (h : IsVersion version) :
    version.toList ≠ [] := by
  obtain ⟨pieces, hpieces, hne, hall⟩ := h
  cases pieces with
  | nil => exact absurd rfl hne
  | cons piece pieces =>
    rw [hpieces]
    rcases hall piece List.mem_cons_self with ⟨x, rfl, -⟩ | ⟨w, -, rfl⟩ <;> simp

theorem IsName.settled {name : String} (h : IsName name) (hpasses : c.Passes name.toList d) :
    c.skipLayout = c := by
  refine settled_of_passes hpasses (List.all_eq_true.mpr fun x hx => ?_) h.toList_ne_nil
  exact isVersionChar_of_isDottedChar (List.all_eq_true.mp h.all_isDottedChar x hx)

theorem IsVersion.settled {version : String} (h : IsVersion version)
    (hpasses : c.Passes version.toList d) : c.skipLayout = c :=
  settled_of_passes hpasses h.all_isVersionChar h.toList_ne_nil

theorem ends_at {q : Char → Bool} {x : Char} (h : d.rest.head? = some x) (hx : ¬ q x) :
    ∀ y ∈ d.rest.head?, ¬ q y := by
  intro y hy
  rw [h] at hy
  obtain rfl := Option.some.inj hy
  exact hx

theorem head_of_passes {x : Char} (h : c.Passes (x :: u) d) : c.rest.head? = some x := by
  rw [h.rest_eq]
  rfl

/-- Written on a line, the text is taken by the rule as one tree, and `read` finds `a` in it. -/
structure IsEntry {α : Type} (r : Rule) (read : Node → Read α) (text : String) (a : α) : Prop where
  begins (rest : List Char) : Begins (text.toList ++ '\n' :: rest)
  taken {c d : Cursor} : c.Passes text.toList d → d.rest.head? = some '\n' →
    Begins d.skipLayout.rest → ∃ t e, Evaluates grammar {} (.rule r) c (some ([t], e)) ∧
      e.skipLayout = d.skipLayout ∧ t.rule = r ∧ read t = .ok a

theorem evaluates_noRaw (h : firstWord c.rest ≠ "raw".toList) :
    Evaluates grammar {} (.rule .raw) c none := by
  refine .noRule (.noFirst (evaluates_noKeyword (isVocabulary_singleton (t := "raw") (by decide))
    rfl rfl ?_))
  simpa using h

section

variable {α : Type} {read : Node → Read α} {a : α} {p : Pattern Rule}
  (hkind : grammar.kind r = .normal) (hbody : grammar.body r = .choice (.rule .raw) p)

include hkind hbody

theorem isEntry_raw {text : String} (h : IsRawText text)
    (hread : ∀ t, readRaw t = .ok (some text) → read t = .ok a) :
    IsEntry r read (rawText text) a where
  begins rest := by
    have hsplit : (rawText text).toList = "raw".toList ++ (" \x60" ++ text ++ "\x60").toList := by
      simp [rawText]
    rw [hsplit, List.append_assoc]
    exact begins_word (by decide) (by decide) (by decide) (by simp [firstWord, isNameChar])
  taken {c d} hpasses _ _ := by
    obtain ⟨s, s', s'', hraw⟩ := evaluates_raw h hpasses
    have hfirst : Evaluates grammar {} (grammar.body r) c _ := hbody ▸ Evaluates.first hraw
    refine ⟨_, d, hfirst.node hkind, rfl, rfl, hread _ ?_⟩
    change Except.ok (some (Text.trim text)) = Except.ok (some text)
    rw [h.trim_eq]

/-- What does not start with the word `raw` is left to the second alternative. -/
theorem evaluates_declared {ts : List Node} (hfirst : firstWord c.rest ≠ "raw".toList)
    (h : Evaluates grammar {} p c (some (ts, d))) :
    Evaluates grammar {} (.rule r) c (some ([.node r ⟨c.index, d.index⟩ ts], d)) := by
  exact Evaluates.node hkind (hbody ▸ .second (evaluates_noRaw hfirst) h)

end

theorem isEntry_repository {name : String} (h : IsName name) :
    IsEntry .repository readRepository name (.named name) where
  begins _ := begins_name h rfl
  taken {c d} hpasses hend hnext := by
    have hname := takes_name h hpasses (ends_at hend (by decide))
    have hfirst : firstWord c.rest ≠ "raw".toList :=
      hpasses.rest_eq ▸ h.firstWord_ne (by decide) (firstWord_eq_nil (ends_at hend (by decide)))
    have hnode := evaluates_declared (r := .repository) rfl rfl hfirst
      (hname.step rfl hnext.opens.evaluates_noMark)
    refine ⟨_, _, hnode, d.skipLayout_skipLayout, rfl, ?_⟩
    change Except.ok (Repository.named (Text.trim name)) = _
    rw [h.trim_eq]

theorem isEntry_plugin {id : String} (h : IsName id) :
    IsEntry .plugin readPlugin id (.declared id none) where
  begins _ := begins_name h rfl
  taken {c d} hpasses hend hnext := by
    have hname := takes_name h hpasses (ends_at hend (by decide))
    have hfirst : firstWord c.rest ≠ "raw".toList :=
      hpasses.rest_eq ▸ h.firstWord_ne (by decide) (firstWord_eq_nil (ends_at hend (by decide)))
    have hversion : Evaluates grammar {} (.optional (all [.rule .kwVersion, .rule .versionName]))
        d.skipLayout (some ([], d.skipLayout)) := by
      refine .noOptional (.noFirst (evaluates_noKeyword
        (isVocabulary_singleton (t := "version") (by decide)) rfl rfl ?_))
      simpa using hnext.no_version
    have hnode := evaluates_declared (r := .plugin) rfl rfl hfirst
      (hname.step rfl (hversion.step d.skipLayout_skipLayout hnext.opens.evaluates_noMark))
    refine ⟨_, _, hnode, d.skipLayout_skipLayout, rfl, ?_⟩
    change Except.ok (Plugin.declared (Text.trim id) none) = _
    rw [h.trim_eq]

theorem isEntry_versionedPlugin {id version : String} (h : IsName id)
    (hversion : IsVersion version) :
    IsEntry .plugin readPlugin (id ++ " version " ++ version) (.declared id (some version)) := by
  have hsplit : (id ++ " version " ++ version).toList =
      id.toList ++ ([' '] ++ ("version".toList ++ ([' '] ++ version.toList))) := by simp
  refine ⟨fun rest => ?_, fun {c d} hpasses hend hnext => ?_⟩
  · rw [hsplit, List.append_assoc]
    exact begins_name h rfl
  · rw [hsplit] at hpasses
    obtain ⟨c₁, hid, hpasses⟩ := passes_split hpasses
    obtain ⟨c₂, hblank, hpasses⟩ := passes_split hpasses
    obtain ⟨c₃, hword, hpasses⟩ := passes_split hpasses
    obtain ⟨c₄, hblank', hnumber⟩ := passes_split hpasses
    have hend₁ := head_of_passes hblank
    have hend₃ := head_of_passes hblank'
    have hname := takes_name h hid (ends_at hend₁ (by decide))
    have hkeyword : Takes {} .kwVersion "version" c₂ c₃ :=
      takes_word (isVocabulary_singleton (by decide)) rfl rfl rfl List.mem_cons_self hword
        (firstWord_eq_nil (ends_at hend₃ (by decide)))
    have hvalue := takes_versionName hversion hnumber (ends_at hend (by decide))
    have hoptional := Evaluates.optional
      (hkeyword.step (skipLayout_of_blank hblank' (hversion.settled hnumber)) hvalue)
    have hsettled := settled_of_passes hword (by decide) (by decide)
    have hrow := hname.step (skipLayout_of_blank hblank hsettled)
      (hoptional.step rfl hnext.opens.evaluates_noMark)
    have hfirst : firstWord c.rest ≠ "raw".toList :=
      hid.rest_eq ▸ h.firstWord_ne (by decide) (firstWord_eq_nil (ends_at hend₁ (by decide)))
    refine ⟨_, _, evaluates_declared (r := .plugin) rfl rfl hfirst hrow, d.skipLayout_skipLayout,
      rfl, ?_⟩
    change Except.ok (Plugin.declared (Text.trim id) (some version)) = _
    rw [h.trim_eq]

theorem dependencyKinds_isVocabulary : IsVocabulary ["impl", "compile", "runtime"] :=
  ⟨by decide, by decide⟩

theorem isEntry_dependency {kind : DependencyKind} {group artifact version : String}
    (hgroup : IsName group) (hartifact : IsName artifact) (hversion : IsVersion version) :
    IsEntry .dependency readDependency (Dependency.text (.declared kind group artifact version))
      (.declared kind group artifact version) := by
  have hsplit : (Dependency.text (.declared kind group artifact version)).toList =
      kind.keyword.toList ++ ([' '] ++ (group.toList ++ ([':'] ++ (artifact.toList ++ ([':'] ++
        version.toList))))) := by simp [Dependency.text]
  have hkeyword : kind.keyword.toList.all isNameChar ∧ kind.keyword.toList ≠ [] ∧
      kind.keyword.toList ≠ "version".toList ∧ kind.keyword.toList ≠ "raw".toList ∧
      kind.keyword ∈ ["impl", "compile", "runtime"] := by cases kind <;> decide
  obtain ⟨hall, hne, hother, hraw, hmem⟩ := hkeyword
  refine ⟨fun rest => ?_, fun {c d} hpasses hend hnext => ?_⟩
  · rw [hsplit, List.append_assoc]
    exact begins_word hall hne hother rfl
  · rw [hsplit] at hpasses
    obtain ⟨c₁, hword, hpasses⟩ := passes_split hpasses
    obtain ⟨c₂, hblank, hpasses⟩ := passes_split hpasses
    obtain ⟨c₃, hfront, hpasses⟩ := passes_split hpasses
    obtain ⟨c₄, hcolon, hpasses⟩ := passes_split hpasses
    obtain ⟨c₅, hmiddle, hpasses⟩ := passes_split hpasses
    obtain ⟨c₆, hcolon', hnumber⟩ := passes_split hpasses
    have hoff := firstWord_eq_nil (ends_at (head_of_passes hblank) (by decide))
    have hkind : Takes {} .dependencyKind kind.keyword c c₁ :=
      takes_word dependencyKinds_isVocabulary rfl rfl rfl hmem hword hoff
    have hname := takes_name hgroup hfront (ends_at (head_of_passes hcolon) (by decide))
    have hname' := takes_name hartifact hmiddle (ends_at (head_of_passes hcolon') (by decide))
    have hvalue := takes_versionName hversion hnumber (ends_at hend (by decide))
    have hnumbered := (Evaluates.text (strip?_of_passes hcolon')).step (hversion.settled hnumber)
      (hvalue.step rfl hnext.opens.evaluates_noMark)
    have hnamed := (Evaluates.text (strip?_of_passes hcolon)).step (hartifact.settled hmiddle)
      (hname'.step (skipLayout_of_passes hcolon' (by decide)) hnumbered)
    have hrow := hkind.step (skipLayout_of_blank hblank (hgroup.settled hfront))
      (hname.step (skipLayout_of_passes hcolon (by decide)) hnamed)
    have hfirst : firstWord c.rest ≠ "raw".toList := by
      rwa [hword.rest_eq, firstWord_append hall, hoff, List.append_nil]
    refine ⟨_, _, evaluates_declared (r := .dependency) rfl rfl hfirst hrow,
      d.skipLayout_skipLayout, rfl, ?_⟩
    trans Except.ok (Dependency.declared kind group artifact (Text.trim version))
    · cases kind <;> rfl
    · rw [hversion.trim_eq]

theorem Repository.isEntry {repository : Repository} (h : repository.IsWritable) :
    IsEntry .repository readRepository repository.text repository := by
  cases repository with
  | named name => exact isEntry_repository h
  | raw text =>
    refine isEntry_raw rfl rfl h fun t ht => ?_
    rw [readRepository, ht]
    rfl

theorem Plugin.isEntry {plugin : Plugin} (h : plugin.IsWritable) :
    IsEntry .plugin readPlugin plugin.text plugin := by
  cases plugin with
  | declared id version =>
    cases version with
    | none => exact isEntry_plugin h.1
    | some version => exact isEntry_versionedPlugin h.1 (h.2 version rfl)
  | raw text =>
    refine isEntry_raw rfl rfl h fun t ht => ?_
    rw [readPlugin, ht]
    rfl

theorem Dependency.isEntry {dependency : Dependency} (h : dependency.IsWritable) :
    IsEntry .dependency readDependency dependency.text dependency := by
  cases dependency with
  | declared kind group artifact version => exact isEntry_dependency h.1 h.2.1 h.2.2
  | raw text =>
    refine isEntry_raw rfl rfl h fun t ht => ?_
    rw [readDependency, ht]
    rfl

end QuovaKotlin.Module
