import Mathlib.Data.List.Forall2
import QuovaKotlin.Proofs.ModuleDrafts
import QuovaKotlin.Proofs.Progress

/-!
# The texts of drafts

The parser accepts the text of every draft that can be written and reads back what it says, the
entries of repeated blocks one block after the other. Lines are taken one by one, in a block and
behind the headers alike: no item takes anything of the next one with it.
-/

set_option autoImplicit false

namespace QuovaKotlin.Module

open Peg Peg.Grammar Reading
open Peg.Pattern (all oneOf lit)
open Grammar (word)

variable {c d e : Cursor} {u : List Char} {r k : Rule}

section

variable {α : Type} {p : Pattern Rule} {R : Node → α → Prop} {text line : α → String}
  {as : List α} {stop : Cursor}

/-- A line is blanks and then its text. -/
def Indents (line text : α → String) : Prop :=
  ∀ a, ∃ lead, lead.all Layout.isBlank ∧ (line a).toList = lead ++ (text a).toList

theorem toList_endEach_cons (s : String) (rows : List String) :
    (Text.endEach "\n" (s :: rows)).toList =
      s.toList ++ (['\n'] ++ (Text.endEach "\n" rows).toList) := by
  simp [Text.endEach]

/-- The next thing behind a row begins as every row and the end of the rows do. -/
theorem begins_rows (hline : Indents line text)
    (hbegins : ∀ a ∈ as, ∀ rest, Begins ((text a).toList ++ '\n' :: rest))
    (hpasses : c.Passes (Text.endEach "\n" (as.map line)).toList stop)
    (hstop : Begins stop.rest) : Begins c.skipLayout.rest := by
  cases as with
  | nil =>
    obtain rfl := hpasses.eq_of_nil
    rwa [hstop.opens.skipLayout_eq]
  | cons a as =>
    obtain ⟨lead, hlead, htext⟩ := hline a
    rw [List.map_cons, toList_endEach_cons, htext, List.append_assoc] at hpasses
    obtain ⟨d, hblank, hpasses⟩ := passes_split hpasses
    have hd : Begins d.rest := by
      rw [hpasses.rest_eq, List.append_assoc]
      exact hbegins a List.mem_cons_self _
    rwa [hblank.skipLayout_eq hlead, hd.opens.skipLayout_eq]

/-- Rows are taken one after the other, wherever in the layout in front of them the first one is
looked for. The step may use what stands behind its row. -/
theorem evaluates_rows (hline : Indents line text)
    (hbegins : ∀ a ∈ as, ∀ rest, Begins ((text a).toList ++ '\n' :: rest))
    (hstep : ∀ a rest, a :: rest <:+ as → ∀ c d : Cursor, c.Passes (text a).toList d →
      d.rest = '\n' :: ((Text.endEach "\n" (rest.map line)).toList ++ stop.rest) →
      Begins d.skipLayout.rest → ∃ t e, Evaluates grammar {} p c (some ([t], e)) ∧
        e.skipLayout = d.skipLayout ∧ R t a)
    (hpasses : c.Passes (Text.endEach "\n" (as.map line)).toList stop)
    (hstop : Begins stop.rest) (hnone : Evaluates grammar {} p stop none)
    (hd : d.skipLayout = c.skipLayout) :
    ∃ ts e, Evaluates grammar {} (.more p) d (some (ts, e)) ∧ e.skipLayout = stop ∧
      List.Forall₂ R ts as := by
  -- A row may end behind the layout that follows it, so the place where the next one is looked for
  -- is not known: only where the layout ends is.
  induction as generalizing c d with
  | nil =>
    obtain rfl := hpasses.eq_of_nil
    rw [hstop.opens.skipLayout_eq] at hd
    exact ⟨[], d, .noMore (by rwa [between_default, hd]), hd, .nil⟩
  | cons a as ih =>
    obtain ⟨lead, hlead, htext⟩ := hline a
    rw [List.map_cons, toList_endEach_cons, htext, List.append_assoc] at hpasses
    obtain ⟨c₁, hblank, hpasses⟩ := passes_split hpasses
    obtain ⟨c₂, hrow, hpasses⟩ := passes_split hpasses
    obtain ⟨c₃, hbreak, hrest⟩ := passes_split hpasses
    have hbegins' := fun b hb => hbegins b (List.mem_cons_of_mem a hb)
    have hc₁ : Begins c₁.rest := by
      rw [hrow.rest_eq, hpasses.rest_eq, List.append_assoc]
      exact hbegins a List.mem_cons_self _
    have hc₂ : c₂.skipLayout = c₃.skipLayout := hbreak.skipLayout_eq rfl
    have hbehind : c₂.rest = '\n' :: ((Text.endEach "\n" (as.map line)).toList ++ stop.rest) := by
      rw [hpasses.rest_eq, List.append_assoc]
      rfl
    obtain ⟨t, e, ht, he, htree⟩ := hstep a as (List.suffix_refl _) c₁ c₂ hrow hbehind
      (hc₂ ▸ begins_rows hline hbegins' hrest hstop)
    obtain ⟨ts, e', hts, he', hall⟩ := ih hbegins'
      (fun b rest hsuffix => hstep b rest (hsuffix.trans (List.suffix_cons a as))) hrest
      (he.trans hc₂)
    have hd₁ : d.skipLayout = c₁ :=
      hd.trans ((hblank.skipLayout_eq hlead).trans hc₁.opens.skipLayout_eq)
    exact ⟨t :: ts, e', .more (by rwa [between_default, hd₁]) hts, he', .cons htree hall⟩

end

/-- Nothing but a word starts an entry. -/
theorem evaluates_noName (h : firstWord c.rest = []) :
    Evaluates grammar {} (.rule .name) c none := by
  have hm : (grammar.modes {} .name).2.kind ≠ .normal := modes_atomic rfl
  have hkeyword : Evaluates grammar (grammar.modes {} .name).2 (.absent (.rule .keyword)) c
      (some ([], c)) := by
    refine .absent (evaluates_noKeyword reserved_isVocabulary rfl rfl ?_)
    rw [h]
    decide
  refine .noRule (.noSecond hkeyword ?_)
  rw [between_of_kind hm]
  exact .noFirst (.noFirst (evaluates_noNameChar h))

/-- What starts with another word is not what a keyword introduces. -/
theorem evaluates_noRule {t : String} {p : Pattern Rule} (hbody : grammar.body r = .seq (.rule k) p)
    (hk : grammar.kind k = .atomic) (hword : grammar.body k = word [t])
    (ht : t.toList.all isNameChar) (h : firstWord c.rest ≠ t.toList) :
    Evaluates grammar {} (.rule r) c none := by
  refine .noRule (hbody ▸ .noFirst (evaluates_noKeyword (isVocabulary_singleton ht) hk hword ?_))
  simpa using h

section

variable {α : Type} {read : Node → Read α} {text : α → String} {t : String} {entry : Rule}
  {entries : List α}

/-- A block is taken with a tree for each entry. -/
theorem evaluates_block (hkind : grammar.kind r = .normal)
    (hbody : grammar.body r = all [.rule k, lit "\x7b", .star (.rule entry), lit "\x7d"])
    (hk : grammar.kind k = .atomic) (hword : grammar.body k = word [t])
    (ht : t.toList.all isNameChar)
    (hentries : ∀ a ∈ entries, IsEntry entry read (text a) a)
    (hnone : ∀ c : Cursor, firstWord c.rest = [] → Evaluates grammar {} (.rule entry) c none)
    (hpasses : c.Passes (blockText t (entries.map text)).toList d) :
    ∃ span span' ts, Evaluates grammar {} (.rule r) c
        (some ([.node r span (.token k span' t :: ts)], d)) ∧
      List.Forall₂ (fun tree a => tree.rule = entry ∧ read tree = .ok a) ts entries := by
  have hsplit : (blockText t (entries.map text)).toList = t.toList ++ ([' '] ++ (['\x7b'] ++
      (['\n'] ++ ((Text.endEach "\n" (entries.map ("    " ++ text ·))).toList ++ ['\x7d'])))) := by
    simp [blockText, Function.comp_def]
  rw [hsplit] at hpasses
  obtain ⟨c₁, hkeyword, hpasses⟩ := passes_split hpasses
  obtain ⟨c₂, hblank, hpasses⟩ := passes_split hpasses
  obtain ⟨c₃, hopen, hpasses⟩ := passes_split hpasses
  obtain ⟨c₄, hbreak, hpasses⟩ := passes_split hpasses
  obtain ⟨c₅, hrows, hclose⟩ := passes_split hpasses
  have hstop : Begins c₅.rest := hclose.rest_eq ▸ begins_brace _
  have hoff : firstWord c₅.rest = [] := by
    rw [hclose.rest_eq]
    rfl
  have hline : Indents (fun a => "    " ++ text a) text :=
    fun a => ⟨"    ".toList, rfl, String.toList_append⟩
  have hbegins := fun a ha => (hentries a ha).begins
  have hskip : c₃.skipLayout = c₄.skipLayout := hbreak.skipLayout_eq rfl
  obtain ⟨ts, e, hstar, he, hall⟩ := evaluates_rows
    (R := fun tree a => tree.rule = entry ∧ read tree = .ok a) hline hbegins
    (fun a rest hsuffix c d hpasses hbehind hnext =>
      (hentries a (hsuffix.subset List.mem_cons_self)).taken hpasses (by rw [hbehind]; rfl) hnext)
    hrows hstop (hnone c₅ hoff) c₄.skipLayout_skipLayout
  have hsettled : between {} c₄.skipLayout = c₄.skipLayout := c₄.skipLayout_skipLayout
  rw [← evaluates_star_iff hsettled] at hstar
  have htoken : Takes {} k t c c₁ :=
    takes_word (isVocabulary_singleton ht) hk hword rfl List.mem_cons_self hkeyword
      (firstWord_eq_nil (ends_at (head_of_passes hblank) (by decide)))
  have hrow := htoken.step (skipLayout_of_blank hblank (skipLayout_of_passes hopen (by decide)))
    ((Evaluates.text (strip?_of_passes hopen)).step hskip
      (hstar.step he (.text (strip?_of_passes hclose))))
  have hnode := Evaluates.node (g := grammar) (r := r) hkind (by rw [hbody]; exact hrow)
  simp only [List.nil_append, List.append_nil, List.singleton_append] at hnode
  exact ⟨_, _, ts, hnode, hall⟩

end

theorem skipFrom_of_unclosed {opening : Cursor} {index : Nat} {rest : List Char}
    (h : ¬ "*/".toList <:+: rest) :
    Layout.skipFrom (.blockComment opening) index rest = opening := by
  induction rest generalizing index with
  | nil => simp [Layout.skipFrom]
  | cons x rest ih =>
    rw [Layout.skipFrom]
    · exact ih fun hclosed => h (hclosed.trans (List.suffix_cons x rest).isInfix)
    · rintro rest' ⟨⟩ ⟨⟩
      exact h (List.prefix_append "*/".toList rest').isInfix

/-- No layout is skipped in front of a text that starts with neither a blank nor a comment. -/
theorem skipLayout_of_not_startsComment {x : Char} {rest : List Char} (hrest : c.rest = x :: rest)
    (hx : ¬ Layout.isBlank x) (h : ¬ StartsComment c.rest) : c.skipLayout = c := by
  obtain ⟨index, chars⟩ := c
  obtain rfl : chars = x :: rest := hrest
  have hline : ∀ rest', x = '/' → rest = '/' :: rest' → False := by
    rintro rest' rfl rfl
    exact h (.inl (List.prefix_append "//".toList rest'))
  by_cases hblock : ∃ rest', x = '/' ∧ rest = '*' :: rest'
  · obtain ⟨rest', rfl, rfl⟩ := hblock
    have hunclosed : ¬ "*/".toList <:+: rest' :=
      fun hclosed => h (.inr ⟨List.prefix_append "/*".toList rest', hclosed⟩)
    exact skipFrom_of_unclosed hunclosed
  · rw [Cursor.skipLayout, Layout.skipFrom, if_neg hx]
    · exact hline
    · exact fun rest' hx hrest => hblock ⟨rest', hx, hrest⟩

theorem isBlank_of_layout {x : Char} (h : Layout.isBlank x) : Text.isBlank x := by
  simp only [Layout.isBlank, Bool.or_eq_true, beq_iff_eq] at h
  rcases h with ((rfl | rfl) | rfl) | rfl <;> decide

section

variable {setting : Setting} {behind : String} (h : setting.IsWritable behind)

include h

theorem Setting.IsWritable.settled (hpasses : c.Passes setting.value.toList d)
    (hbehind : d.rest = behind.toList) : c.skipLayout = c := by
  have hrest : c.rest = (setting.value ++ behind).toList := by
    rw [hpasses.rest_eq, hbehind, String.toList_append]
  cases hvalue : setting.value.toList with
  | nil => exact absurd (String.toList_inj.mp hvalue) h.value.ne_empty
  | cons x u =>
    have hhead : c.rest = x :: (u ++ behind.toList) := by
      rw [hrest, String.toList_append, hvalue, List.cons_append]
    refine skipLayout_of_not_startsComment hhead ?_ (hrest ▸ h.no_comment)
    exact fun hx => not_isBlank_of_trim_eq h.value.trim_eq hvalue (isBlank_of_layout hx)

theorem Setting.IsWritable.settled_front (hpasses : c.Passes setting.text.toList d) :
    c.skipLayout = c := by
  rw [Setting.text, String.toList_append, String.toList_append, List.append_assoc] at hpasses
  obtain ⟨e, hname, -⟩ := passes_split hpasses
  exact h.name.settled hname

theorem evaluates_setting (hpasses : c.Passes setting.text.toList d)
    (hbehind : d.rest = behind.toList) (hend : d.rest.head? = some '\n') :
    ∃ span span', Evaluates grammar {} (all [.rule .name, lit "=", .rule .text]) c
      (some ([.token .name span setting.name, .token .text span' setting.value], d)) := by
  have hsplit : setting.text.toList =
      setting.name.toList ++ ([' '] ++ (['='] ++ ([' '] ++ setting.value.toList))) := by
    simp [Setting.text]
  rw [hsplit] at hpasses
  obtain ⟨c₁, hfront, hpasses⟩ := passes_split hpasses
  obtain ⟨c₂, hblank, hpasses⟩ := passes_split hpasses
  obtain ⟨c₃, hsign, hpasses⟩ := passes_split hpasses
  obtain ⟨c₄, hblank', hline⟩ := passes_split hpasses
  have hname := takes_name h.name hfront (ends_at (head_of_passes hblank) (by decide))
  have hvalue := takes_text h.value hline hend
  exact ⟨_, _, hname.step (skipLayout_of_blank hblank (skipLayout_of_passes hsign (by decide)))
    ((Evaluates.text (strip?_of_passes hsign)).step
      (skipLayout_of_blank hblank' (h.settled hline hbehind)) hvalue)⟩

theorem Setting.IsWritable.trim_eq :
    (⟨Text.trim setting.name, Text.trim setting.value⟩ : Setting) = setting := by
  rw [h.name.trim_eq, h.value.trim_eq]

end

/-- The tree that an element leaves. -/
def Element.IsShown (tree : Node) : Element → Prop
  | .plugins entries => tree.rule = .plugins ∧ each tree .plugin readPlugin = .ok entries
  | .repositories entries =>
    tree.rule = .repositories ∧ each tree .repository readRepository = .ok entries
  | .dependencies entries =>
    tree.rule = .dependencies ∧ each tree .dependency readDependency = .ok entries
  | .definition setting => tree.rule = .variableSetting ∧ readSetting tree = .ok setting
  | .option setting => tree.rule = .optionSetting ∧ readSetting tree = .ok setting

/-- A tree of rule `r` is read as what `select` takes of what it shows, and of what the other trees
show `select` takes nothing. -/
def Selects {α β : Type} (select : α → Option β) (r : Rule) (read : Node → Read β) (t : Node)
    (a : α) : Prop :=
  t.rule = r ∧ (∃ b, select a = some b ∧ read t = .ok b) ∨ t.rule ≠ r ∧ select a = none

theorem mapM_filter_eq {α β : Type} {select : α → Option β} {read : Node → Read β} {ts : List Node}
    {as : List α} (h : List.Forall₂ (Selects select r read) ts as) :
    (ts.filter (·.rule = r)).mapM read = .ok (as.filterMap select) := by
  induction h with
  | nil => rfl
  | @cons t a ts as ht _ ih =>
    rcases ht with ⟨hrule, b, hselect, hread⟩ | ⟨hrule, hselect⟩
    · rw [List.filter_cons_of_pos (by simpa using hrule), List.filterMap_cons_some hselect,
        List.mapM_cons, hread, ih]
      rfl
    · rw [List.filter_cons_of_neg (by simpa using hrule), List.filterMap_cons_none hselect, ih]

theorem each_block {α : Type} {entry : Rule} {read : Node → Read α} {s s' : Span} {t : String}
    {ts : List Node} {entries : List α} (hk : k ≠ entry)
    (h : List.Forall₂ (fun tree a => tree.rule = entry ∧ read tree = .ok a) ts entries) :
    each (.node r s (.token k s' t :: ts)) entry read = .ok entries := by
  have hfilter : (ParseTree.node r s (.token k s' t :: ts)).childrenOf entry =
      ts.filter (·.rule = entry) :=
    List.filter_cons_of_neg fun hrule => hk (of_decide_eq_true hrule)
  have hselects : List.Forall₂ (Selects some entry read) ts entries :=
    h.imp fun tree a ht => .inl ⟨ht.1, a, rfl, ht.2⟩
  rw [each, hfilter, mapM_filter_eq hselects, List.filterMap_some]

theorem Element.IsShown.selects {t : Node} {element : Element} (h : element.IsShown t) :
    Selects plugins? .plugins (each · .plugin readPlugin) t element ∧
      Selects repositories? .repositories (each · .repository readRepository) t element ∧
      Selects dependencies? .dependencies (each · .dependency readDependency) t element ∧
      Selects definition? .variableSetting readSetting t element ∧
      Selects option? .optionSetting readSetting t element := by
  cases element <;> obtain ⟨hrule, hread⟩ := h <;>
    simp [Selects, hrule, hread, plugins?, repositories?, dependencies?, definition?, option?]

/-- A word introduces at most one element. -/
theorem evaluates_noElement (h : firstWord c.rest = u) :
    (u ≠ "plugins".toList → Evaluates grammar {} (.rule .plugins) c none) ∧
      (u ≠ "repositories".toList → Evaluates grammar {} (.rule .repositories) c none) ∧
      (u ≠ "dependencies".toList → Evaluates grammar {} (.rule .dependencies) c none) ∧
      (u ≠ "var".toList → Evaluates grammar {} (.rule .variableSetting) c none) := by
  subst h
  exact ⟨evaluates_noRule (k := .kwPlugins) rfl rfl rfl (by decide),
    evaluates_noRule (k := .kwRepositories) rfl rfl rfl (by decide),
    evaluates_noRule (k := .kwDependencies) rfl rfl rfl (by decide),
    evaluates_noRule (k := .kwVar) rfl rfl rfl (by decide)⟩

/-- No entry of a block starts with something other than a word. -/
theorem evaluates_noEntry (h : firstWord c.rest = []) :
    ∀ entry ∈ [Rule.plugin, .repository, .dependency],
      Evaluates grammar {} (.rule entry) c none := by
  have hraw : Evaluates grammar {} (.rule .raw) c none :=
    evaluates_noRaw (by rw [h]; decide)
  have hkind : Evaluates grammar {} (.rule .dependencyKind) c none :=
    evaluates_noKeyword dependencyKinds_isVocabulary rfl rfl (by rw [h]; decide)
  have hname := evaluates_noName h
  intro entry hentry
  simp only [List.mem_cons, List.not_mem_nil, or_false] at hentry
  rcases hentry with rfl | rfl | rfl
  · exact .noRule (.second hraw (.noFirst hname))
  · exact .noRule (.second hraw (.noFirst hname))
  · exact .noRule (.second hraw (.noFirst hkind))

theorem firstWord_blockText {t : String} (ht : t.toList.all isNameChar) (entries : List String)
    (rest : List Char) : firstWord ((blockText t entries).toList ++ rest) = t.toList := by
  have hsplit : (blockText t entries).toList = t.toList ++ (" \x7b\n" ++
      Text.endEach "\n" (entries.map ("    " ++ ·)) ++ "\x7d").toList := by simp [blockText]
  rw [hsplit, List.append_assoc, firstWord_append ht]
  simp [firstWord, isNameChar]

theorem firstWord_definition (setting : Setting) (rest : List Char) :
    firstWord ((Element.definition setting).text.toList ++ rest) = "var".toList := by
  have hsplit : (Element.definition setting).text.toList =
      "var".toList ++ (' ' :: setting.text.toList) := by simp [Element.text]
  rw [hsplit, List.append_assoc, firstWord_append (by decide)]
  rfl

theorem toList_text_option (setting : Setting) : (Element.option setting).text.toList =
    setting.name.toList ++ (' ' :: '=' :: ' ' :: setting.value.toList) := by
  simp [Element.text, Setting.text]

theorem Element.begins {element : Element} {behind : String} (h : element.IsWritable behind)
    (rest : List Char) : Begins (element.text.toList ++ '\n' :: rest) := by
  cases element with
  | plugins | repositories | dependencies =>
    exact begins_of_firstWord (firstWord_blockText (by decide) _ _) (by decide) (by decide)
  | definition setting =>
    exact begins_of_firstWord (firstWord_definition setting _) (by decide) (by decide)
  | option setting =>
    rw [toList_text_option, List.append_assoc]
    exact begins_name h.name rfl

theorem evaluates_element {element : Element} {behind : String} (h : element.IsWritable behind)
    (hpasses : c.Passes element.text.toList d) (hbehind : d.rest = behind.toList)
    (hend : d.rest.head? = some '\n') :
    ∃ t, Evaluates grammar {} Grammar.element c (some ([t], d)) ∧ element.IsShown t := by
  cases element with
  | plugins entries =>
    obtain ⟨s, s', ts, hblock, hall⟩ := evaluates_block (r := .plugins) (k := .kwPlugins)
      rfl rfl rfl rfl (by decide) (fun plugin hmem => Plugin.isEntry (h plugin hmem))
      (fun c hc => evaluates_noEntry hc .plugin (by decide)) hpasses
    exact ⟨_, .first hblock, rfl, each_block (by decide) hall⟩
  | repositories entries =>
    obtain ⟨s, s', ts, hblock, hall⟩ := evaluates_block (r := .repositories) (k := .kwRepositories)
      rfl rfl rfl rfl (by decide) (fun repository hmem => Repository.isEntry (h repository hmem))
      (fun c hc => evaluates_noEntry hc .repository (by decide)) hpasses
    obtain ⟨hplugins, -⟩ := evaluates_noElement
      (hpasses.rest_eq ▸ firstWord_blockText (by decide) _ _)
    exact ⟨_, .second (hplugins (by decide)) (.first hblock), rfl, each_block (by decide) hall⟩
  | dependencies entries =>
    obtain ⟨s, s', ts, hblock, hall⟩ := evaluates_block (r := .dependencies) (k := .kwDependencies)
      rfl rfl rfl rfl (by decide) (fun dependency hmem => Dependency.isEntry (h dependency hmem))
      (fun c hc => evaluates_noEntry hc .dependency (by decide)) hpasses
    obtain ⟨hplugins, hrepositories, -⟩ :=
      evaluates_noElement
      (hpasses.rest_eq ▸ firstWord_blockText (by decide) _ _)
    exact ⟨_, .second (hplugins (by decide)) (.second (hrepositories (by decide)) (.first hblock)),
      rfl, each_block (by decide) hall⟩
  | definition setting =>
    have hfirst := hpasses.rest_eq ▸ firstWord_definition setting d.rest
    have hsplit : (Element.definition setting).text.toList =
        "var".toList ++ ([' '] ++ setting.text.toList) := by simp [Element.text]
    rw [hsplit] at hpasses
    obtain ⟨c₁, hword, hpasses⟩ := passes_split hpasses
    obtain ⟨c₂, hblank, hline⟩ := passes_split hpasses
    have hoff := firstWord_eq_nil (ends_at (head_of_passes hblank) (q := isNameChar) (by decide))
    have hkeyword : Takes {} .kwVar "var" c c₁ :=
      takes_word (isVocabulary_singleton (by decide)) rfl rfl rfl List.mem_cons_self hword hoff
    obtain ⟨s, s', hsetting⟩ := evaluates_setting h hline hbehind hend
    have hrow := hkeyword.step (skipLayout_of_blank hblank (h.settled_front hline)) hsetting
    obtain ⟨hplugins, hrepositories, hdependencies, -⟩ := evaluates_noElement hfirst
    exact ⟨_, .second (hplugins (by decide)) (.second (hrepositories (by decide))
      (.second (hdependencies (by decide)) (.first (hrow.node rfl)))), rfl,
      congrArg Except.ok h.trim_eq⟩
  | option setting =>
    obtain ⟨s, s', hsetting⟩ := evaluates_setting h hpasses hbehind hend
    have hother : ∀ t ∈ reserved, firstWord c.rest ≠ t.toList := by
      intro t ht
      rw [hpasses.rest_eq, toList_text_option, List.append_assoc]
      exact h.name.firstWord_ne ht rfl
    obtain ⟨hplugins, hrepositories, hdependencies, hdefinition⟩ := evaluates_noElement rfl
    exact ⟨_, .second (hplugins (hother _ (by decide)))
      (.second (hrepositories (hother _ (by decide)))
        (.second (hdependencies (hother _ (by decide)))
          (.second (hdefinition (hother _ (by decide))) (hsetting.node rfl)))), rfl,
      congrArg Except.ok h.trim_eq⟩

section

variable {elements : List Element} (h : ∀ element rest, element :: rest <:+ elements →
  element.IsWritable ("\n" ++ elementsText rest))

include h

theorem begins_elements :
    ∀ element ∈ elements, ∀ rest, Begins (element.text.toList ++ '\n' :: rest) := by
  intro element hmem
  obtain ⟨front, rest, rfl⟩ := List.mem_iff_append.mp hmem
  exact Element.begins (h element rest (List.suffix_append front _))

/-- The elements are taken up to the end of the input, from any place in the layout in front of
them. -/
theorem evaluates_elements (hpasses : c.Passes (elementsText elements).toList e) (he : e.rest = [])
    (hd : d.skipLayout = c.skipLayout) :
    ∃ ts e', Evaluates grammar {} (.more Grammar.element) d (some (ts, e')) ∧ e'.skipLayout = e ∧
      List.Forall₂ (fun t element => element.IsShown t) ts elements := by
  have hnone : Evaluates grammar {} Grammar.element e none := by
    have hword : firstWord e.rest = [] := by rw [he]; rfl
    obtain ⟨hplugins, hrepositories, hdependencies, hdefinition⟩ := evaluates_noElement hword
    exact .second (hplugins (by decide)) (.second (hrepositories (by decide))
      (.second (hdependencies (by decide)) (.second (hdefinition (by decide))
        (.noRule (.noFirst (evaluates_noName hword))))))
  refine evaluates_rows (fun element => ⟨[], rfl, rfl⟩) (begins_elements h) ?_ hpasses
    (he ▸ begins_nil) hnone hd
  intro element rest hsuffix c d hpasses hbehind _
  have hbehind' : d.rest = ("\n" ++ elementsText rest).toList := by
    rw [hbehind, he, List.append_nil, String.toList_append]
    rfl
  obtain ⟨t, ht, hshown⟩ := evaluates_element (h element rest hsuffix) hpasses hbehind'
    (by rw [hbehind]; rfl)
  exact ⟨t, d, ht, rfl, hshown⟩

end

/-- A header with one token behind its keyword. -/
def headerNode (r k token : Rule) (spans : Span × Span × Span) (t value : String) : Node :=
  .node r spans.1 [.token k spans.2.1 t, .token token spans.2.2 value]

theorem evaluates_header {token : Rule} {t value : String} (hkind : grammar.kind r = .normal)
    (hbody : grammar.body r = all [.rule k, .rule token, .optional (lit ";")])
    (hk : grammar.kind k = .atomic) (hword : grammar.body k = word [t])
    (ht : t.toList.all isNameChar)
    (hvalue : ∀ c : Cursor, c.Passes value.toList d → c.skipLayout = c ∧ Takes {} token value c d)
    (hpasses : c.Passes (t.toList ++ ([' '] ++ value.toList)) d) (hd : d.skipLayout = e)
    (he : Opens e.rest) :
    ∃ spans, Evaluates grammar {} (.rule r) c (some ([headerNode r k token spans t value], e)) := by
  obtain ⟨c₁, hkeyword, hpasses⟩ := passes_split hpasses
  obtain ⟨c₂, hblank, hpasses⟩ := passes_split hpasses
  obtain ⟨hsettled, htoken⟩ := hvalue c₂ hpasses
  have hkeyword : Takes {} k t c c₁ :=
    takes_word (isVocabulary_singleton ht) hk hword rfl List.mem_cons_self hkeyword
      (firstWord_eq_nil (ends_at (head_of_passes hblank) (by decide)))
  have hrow := hkeyword.step (skipLayout_of_blank hblank hsettled)
    (htoken.step hd he.evaluates_noMark)
  exact ⟨(_, _, _), Evaluates.node hkind (by rw [hbody]; exact hrow)⟩

theorem Draft.toList_text (draft : Draft) : draft.text.toList =
    ("project".toList ++ ([' '] ++ draft.project.toList)) ++ (['\n'] ++
      (("group".toList ++ ([' '] ++ draft.group.toList)) ++ (['\n'] ++
        (("version".toList ++ ([' '] ++ draft.version.toList)) ++ (['\n'] ++
          (elementsText draft.elements).toList))))) := by
  simp [Draft.text, Text.endEach, elementsText]

/-- The tree of a draft, with `ts` for its elements. -/
def moduleNode (draft : Draft) (s s' : Span) (s₁ s₂ s₃ : Span × Span × Span) (ts : List Node) :
    Node :=
  .node .moduleFile s
    (headerNode .projectHeader .kwProject .name s₁ "project" draft.project ::
      headerNode .groupHeader .kwGroup .name s₂ "group" draft.group ::
      headerNode .versionHeader .kwVersion .versionName s₃ "version" draft.version ::
      (ts ++ [.node .endOfInput s' []]))

theorem accepts_draft {draft : Draft} (h : draft.IsWritable) :
    ∃ s s' s₁ s₂ s₃ ts,
      grammar.Accepts .moduleFile draft.text (moduleNode draft s s' s₁ s₂ s₃ ts) ∧
      List.Forall₂ (fun t element => element.IsShown t) ts draft.elements := by
  have hpasses := Cursor.passes_all draft.text.toList
  generalize hstart : Cursor.mk 0 draft.text.toList = c at hpasses
  generalize hfinish : Cursor.mk draft.text.toList.length [] = e at hpasses
  rw [draft.toList_text] at hpasses
  obtain ⟨d₀, hproject, hpasses⟩ := passes_split hpasses
  obtain ⟨c₁, hbreak₀, hpasses⟩ := passes_split hpasses
  obtain ⟨d₁, hgroup, hpasses⟩ := passes_split hpasses
  obtain ⟨c₂, hbreak₁, hpasses⟩ := passes_split hpasses
  obtain ⟨d₂, hversion, hpasses⟩ := passes_split hpasses
  obtain ⟨c₃, hbreak₂, helements⟩ := passes_split hpasses
  have he : e.rest = [] := by rw [← hfinish]
  have hopens := opens_of_passes hproject (by decide) (by decide)
  have hopens₁ := opens_of_passes hgroup (by decide) (by decide)
  have hopens₂ := opens_of_passes hversion (by decide) (by decide)
  have hopens₃ : Opens c₃.skipLayout.rest :=
    (begins_rows (fun element => ⟨[], rfl, rfl⟩) (begins_elements h.elements) helements
      (he ▸ begins_nil)).opens
  have hd₀ := (hbreak₀.skipLayout_eq rfl).trans hopens₁.skipLayout_eq
  have hd₁ := (hbreak₁.skipLayout_eq rfl).trans hopens₂.skipLayout_eq
  have hd₂ := hbreak₂.skipLayout_eq rfl
  obtain ⟨s₁, hheader₁⟩ := evaluates_header (r := .projectHeader) (k := .kwProject) rfl rfl rfl rfl
    (by decide) (fun c hpasses => ⟨h.project.settled hpasses,
      takes_name h.project hpasses (ends_at (head_of_passes hbreak₀) (by decide))⟩) hproject
    hd₀ hopens₁
  obtain ⟨s₂, hheader₂⟩ := evaluates_header (r := .groupHeader) (k := .kwGroup) rfl rfl rfl rfl
    (by decide) (fun c hpasses => ⟨h.group.settled hpasses,
      takes_name h.group hpasses (ends_at (head_of_passes hbreak₁) (by decide))⟩) hgroup
    hd₁ hopens₂
  obtain ⟨s₃, hheader₃⟩ := evaluates_header (r := .versionHeader) (k := .kwVersion) rfl rfl rfl rfl
    (by decide) (fun c hpasses => ⟨h.version.settled hpasses,
      takes_versionName h.version hpasses (ends_at (head_of_passes hbreak₂) (by decide))⟩) hversion
    hd₂ hopens₃
  obtain ⟨ts, e', hstar, he', hall⟩ :=
    evaluates_elements h.elements helements he c₃.skipLayout_skipLayout
  have hsettled : between {} c₃.skipLayout = c₃.skipLayout := c₃.skipLayout_skipLayout
  rw [← evaluates_star_iff hsettled] at hstar
  have hfinal := Evaluates.node (g := grammar) (r := .endOfInput) rfl (.stop he)
  have hbody := (Evaluates.start (g := grammar) (m := {}) (c := c) (by rw [← hstart])).step
    hopens.skipLayout_eq (hheader₁.step hopens₁.skipLayout_eq (hheader₂.step hopens₂.skipLayout_eq
      (hheader₃.step c₃.skipLayout_skipLayout (hstar.step he' hfinal))))
  have hnode := Evaluates.node (g := grammar) (r := .moduleFile) rfl hbody
  exact ⟨_, _, s₁, s₂, s₃, ts, ⟨e, by rw [hstart]; exact hnode⟩, hall⟩

section

variable {draft : Draft} {s s' : Span} {s₁ s₂ s₃ : Span × Span × Span} {ts : List Node}

theorem each_moduleNode {α : Type} {select : Element → Option α} {read : Node → Read α}
    (hr : r ∈ [Rule.plugins, .repositories, .dependencies, .variableSetting, .optionSetting])
    (h : List.Forall₂ (Selects select r read) ts draft.elements) :
    each (moduleNode draft s s' s₁ s₂ s₃ ts) r read =
      .ok (draft.elements.filterMap select) := by
  have hchildren : (moduleNode draft s s' s₁ s₂ s₃ ts).childrenOf r =
      ts.filter (·.rule = r) := by
    simp only [List.mem_cons, List.not_mem_nil, or_false] at hr
    rcases hr with rfl | rfl | rfl | rfl | rfl <;>
      simp [moduleNode, ParseTree.childrenOf, ParseTree.children, ParseTree.rule, headerNode]
  rw [each, hchildren, mapM_filter_eq h]

theorem readDescription_moduleNode (h : draft.IsWritable)
    (hall : List.Forall₂ (fun t element => element.IsShown t) ts draft.elements) :
    readDescription (moduleNode draft s s' s₁ s₂ s₃ ts) = .ok draft.description := by
  generalize hnode : moduleNode draft s s' s₁ s₂ s₃ ts = node
  have hproject : one node .projectHeader (trimmedTextOf · .name) = .ok (Text.trim draft.project) :=
    hnode ▸ rfl
  have hgroup : one node .groupHeader (trimmedTextOf · .name) = .ok (Text.trim draft.group) :=
    hnode ▸ rfl
  have hversion : one node .versionHeader (trimmedTextOf · .versionName) =
      .ok (Text.trim draft.version) := hnode ▸ rfl
  have hselects := hall.imp fun t (element : Element) (ht : element.IsShown t) => ht.selects
  rw [readDescription, hproject, hgroup, hversion, readBlocks, readBlocks, readBlocks, ← hnode,
    each_moduleNode (by decide) (hselects.imp fun _ _ ht => ht.1),
    each_moduleNode (by decide) (hselects.imp fun _ _ ht => ht.2.1),
    each_moduleNode (by decide) (hselects.imp fun _ _ ht => ht.2.2.1),
    each_moduleNode (by decide) (hselects.imp fun _ _ ht => ht.2.2.2.1),
    each_moduleNode (by decide) (hselects.imp fun _ _ ht => ht.2.2.2.2),
    h.project.trim_eq, h.group.trim_eq, h.version.trim_eq]
  rfl

end

theorem parse_eq_ok_of_accepts {text : String} {tree : Node} {description : Description}
    (h : grammar.Accepts .moduleFile text tree) (hread : readDescription tree = .ok description) :
    parse text = .ok description := by
  rcases parse_decides grammar_tame (r := .moduleFile) (by decide +kernel) (by decide +kernel) text
    with ⟨tree', hparse, haccepts⟩ | ⟨-, hrefuses⟩
  · obtain rfl := haccepts.unique h
    have htree : parseTree text = .ok tree' := by rw [parseTree, hparse]; rfl
    rw [parse, htree]
    change (readDescription tree').mapError (·.problem text) = _
    rw [hread]
    rfl
  · exact absurd hrefuses h.not_refuses

/-- The parser accepts every draft that can be written and reads back what it says. -/
theorem Draft.parse_text {draft : Draft} (h : draft.IsWritable) :
    parse draft.text = .ok draft.description := by
  obtain ⟨s, s', s₁, s₂, s₃, ts, haccepts, hall⟩ := accepts_draft h
  exact parse_eq_ok_of_accepts haccepts (readDescription_moduleNode h hall)

/-- A draft with names that start with keywords, a value that looks like a comment and two blocks of
plugins. -/
def mixedDraft : Draft where
  project := "project-x"
  group := "org.example"
  version := "1.+$\x7bbuild\x7d"
  elements := [
    .plugins [.declared "java" none, .declared "raw-kotlin.jvm" (some "2.+"), .raw "id(1)"],
    .definition ⟨"var-x", "a // b = c"⟩,
    .repositories [.named "central"],
    .dependencies [.declared .compileOnly "implant" "compiler" "3", .raw ""],
    .option ⟨"versions", "/* open"⟩,
    .plugins [.declared "versioning" none]]

theorem mixedDraft_isWritable : mixedDraft.IsWritable where
  project := isName_of_words "project-x" [] (by decide) (by decide)
  group := isName_of_words "org" ["example"] (by decide) (by decide)
  version := by
    refine ⟨[['1'], ['.'], ['+'], "$\x7bbuild\x7d".toList], rfl, by decide, ?_⟩
    simp only [List.forall_mem_cons]
    exact ⟨.inl ⟨'1', rfl, by decide⟩, .inl ⟨'.', rfl, by decide⟩, .inl ⟨'+', rfl, by decide⟩,
      .inr ⟨"build", ⟨by decide, by decide⟩, rfl⟩, nofun⟩
  elements := by
    have hword : ∀ w : String, w ≠ "" → w.toList.all isNameChar → w ∉ reserved → IsName w :=
      fun w hne hall hfree => isName_of_words w [] (by simp [hne, hall]) hfree
    have hjvm : IsName "raw-kotlin.jvm" :=
      isName_of_words "raw-kotlin" ["jvm"] (by decide) (by decide)
    intro element rest h
    simp only [mixedDraft, List.suffix_cons_iff, List.suffix_nil, List.cons.injEq, reduceCtorEq,
      or_false] at h
    rcases h with ⟨rfl, rfl⟩ | ⟨rfl, rfl⟩ | ⟨rfl, rfl⟩ | ⟨rfl, rfl⟩ | ⟨rfl, rfl⟩ | ⟨rfl, rfl⟩
    · simp only [Element.IsWritable, List.forall_mem_cons]
      exact ⟨⟨hword _ (by decide) (by decide) (by decide), nofun⟩,
        ⟨hjvm, by rintro v ⟨⟩; exact isVersion_of_chars (by decide) (by decide)⟩,
        ⟨by decide, by decide⟩, nofun⟩
    · exact ⟨hword _ (by decide) (by decide) (by decide), ⟨by decide, by decide, by decide⟩,
        by decide +kernel⟩
    · simp only [Element.IsWritable, List.forall_mem_cons]
      exact ⟨hword _ (by decide) (by decide) (by decide), nofun⟩
    · simp only [Element.IsWritable, List.forall_mem_cons]
      exact ⟨⟨hword _ (by decide) (by decide) (by decide),
        hword _ (by decide) (by decide) (by decide),
        isVersion_of_chars (by decide) (by decide)⟩, ⟨by decide, by decide⟩, nofun⟩
    · exact ⟨hword _ (by decide) (by decide) (by decide), ⟨by decide, by decide, by decide⟩,
        by decide +kernel⟩
    · simp only [Element.IsWritable, List.forall_mem_cons]
      exact ⟨⟨hword _ (by decide) (by decide) (by decide), nofun⟩, nofun⟩

theorem mixedDraft_parse : mixedDraft.IsWritable ∧ parse mixedDraft.text = .ok {
    project := "project-x"
    group := "org.example"
    version := "1.+$\x7bbuild\x7d"
    plugins := [.declared "java" none, .declared "raw-kotlin.jvm" (some "2.+"), .raw "id(1)",
      .declared "versioning" none]
    repositories := [.named "central"]
    dependencies := [.declared .compileOnly "implant" "compiler" "3", .raw ""]
    definitions := [⟨"var-x", "a // b = c"⟩]
    options := [⟨"versions", "/* open"⟩] } :=
  ⟨mixedDraft_isWritable, Draft.parse_text mixedDraft_isWritable⟩

end QuovaKotlin.Module
