import Mathlib.Data.List.Nodup
import Mathlib.Data.String.Basic
import QuovaKotlin.Proofs.FileTrees

/-!
# Source files and their targets

In a regular file tree the source files under a directory are found once each, in the order of their
names. What a source file becomes has an extension of its own, and different files become different
ones.
-/

set_option autoImplicit false

namespace QuovaKotlin

/-- A place that names lead to from the root, from the working directory or from one around it. -/
def Place.IsProper (place : Place) : Prop :=
  ∃ start names : Place, place = start ++ names ∧
    (start = ["/"] ∨ ∀ name ∈ start, name = "..") ∧ ∀ name ∈ names, Path.IsPlain name

/-- A file tree lists every file once, at a place that it can have. -/
structure FileTree.IsRegular (tree : FileTree) : Prop where
  nodup : (tree.files.map (·.1)).Nodup
  isProper : ∀ place ∈ tree.files.map (·.1), place.IsProper

theorem FileTree.isRegular_of_isPlain {tree : FileTree} (hnodup : (tree.files.map (·.1)).Nodup)
    (hplain : ∀ place ∈ tree.files.map (·.1), ∀ name ∈ place, Path.IsPlain name) :
    tree.IsRegular :=
  ⟨hnodup, fun place hplace => ⟨[], place, rfl, .inr (by simp), hplain place hplace⟩⟩

theorem Path.IsPlain.ne_root {name : String} (h : Path.IsPlain name) : name ≠ "/" := by
  rintro rfl
  exact h.no_slash (by decide)

theorem Place.leaves_eq_false {names : Place} (h : ∀ name ∈ names, Path.IsPlain name) :
    names.leaves = false := by
  cases names with
  | nil => rfl
  | cons name names =>
    have hname := h name List.mem_cons_self
    simp [Place.leaves, hname.ne_up, hname.ne_root]

/-- Names that stay below a place are plain. -/
theorem Place.IsProper.isPlain {place names : Place} (h : Place.IsProper (place ++ names))
    (hstays : names.leaves = false) : ∀ name ∈ names, Path.IsPlain name := by
  obtain ⟨start, rest, heq, hstart, hrest⟩ := h
  rcases List.append_eq_append_iff.mp heq with ⟨as, rfl, rfl⟩ | ⟨bs, rfl, rfl⟩
  · cases as with
    | nil => exact hrest
    | cons name as =>
      -- The first name would be one of those that lead to the start.
      refine absurd hstays ?_
      have hmem : name ∈ place ++ name :: as := by simp
      have hname : name = ".." ∨ name = "/" := by
        rcases hstart with hstart | hstart
        · rw [hstart] at hmem
          exact .inr (List.mem_singleton.mp hmem)
        · exact .inl (hstart name hmem)
      rcases hname with rfl | rfl <;> simp [Place.leaves]
  · exact fun name hname => hrest name (List.mem_append_right _ hname)

theorem FileTree.isFile_iff {tree : FileTree} {place : Place} :
    tree.isFile place ↔ place ∈ tree.files.map (·.1) := by
  rw [isFile, bytesAt?, List.lookup_isSome_iff]
  simp

/-- The extension of the last name of a place. -/
def Place.extension? (place : Place) : Option String :=
  place.getLast?.bind fun name => (Path.splitName name).2

theorem Place.extension?_append {place names : Place} (hne : names ≠ []) :
    Place.extension? (place ++ names) = names.extension? := by
  rw [extension?, extension?, List.getLast?_append_of_ne_nil _ hne]

namespace Project

theorem any_hasExtension_iff {place : Place} {extension : String} :
    place.getLast?.any (hasExtension extension) ↔ place.extension? = some extension := by
  rw [Place.extension?]
  cases place.getLast? with
  | none => simp
  | some name => simp [hasExtension]

theorem precedes_trans (as bs cs : List String) (hab : Path.precedes as bs)
    (hbc : Path.precedes bs cs) : Path.precedes as cs := by
  induction as generalizing bs cs with
  | nil => rfl
  | cons a as ih =>
    cases bs with
    | nil => cases hab
    | cons b bs =>
      cases cs with
      | nil => cases hbc
      | cons c cs =>
        simp only [Path.precedes, Bool.or_eq_true, Bool.and_eq_true, decide_eq_true_eq,
          beq_iff_eq] at hab hbc ⊢
        rcases hab with hab | ⟨rfl, hab⟩
        · rcases hbc with hbc | ⟨rfl, -⟩
          · exact .inl (hab.trans hbc)
          · exact .inl hab
        · rcases hbc with hbc | ⟨rfl, hbc⟩
          · exact .inl hbc
          · exact .inr ⟨rfl, ih bs cs hab hbc⟩

theorem precedes_total (as bs : List String) :
    (Path.precedes as bs || Path.precedes bs as) = true := by
  induction as generalizing bs with
  | nil => rfl
  | cons a as ih =>
    cases bs with
    | nil => rfl
    | cons b bs =>
      simp only [Path.precedes, Bool.or_eq_true, Bool.and_eq_true, decide_eq_true_eq, beq_iff_eq]
      rcases lt_trichotomy a b with hab | rfl | hab
      · exact .inl (.inl hab)
      · exact (Bool.or_eq_true_iff.mp (ih bs)).imp (fun h => .inr ⟨rfl, h⟩) fun h => .inr ⟨rfl, h⟩
      · exact .inr (.inl hab)

theorem precedes_antisymm (as bs : List String) (hab : Path.precedes as bs)
    (hba : Path.precedes bs as) : as = bs := by
  induction as generalizing bs with
  | nil =>
    cases bs with
    | nil => rfl
    | cons => cases hba
  | cons a as ih =>
    cases bs with
    | nil => cases hab
    | cons b bs =>
      simp only [Path.precedes, Bool.or_eq_true, Bool.and_eq_true, decide_eq_true_eq,
        beq_iff_eq] at hab hba
      rcases hab with hab | ⟨rfl, hab⟩
      · rcases hba with hba | ⟨rfl, -⟩
        · exact absurd hba (lt_asymm hab)
        · exact absurd hab (lt_irrefl b)
      · rcases hba with hba | ⟨-, hba⟩
        · exact absurd hba (lt_irrefl a)
        · rw [ih bs hab hba]

/-- Names that lead from a directory, or from a file itself, to a source file. -/
structure IsSource (tree : FileTree) (path extension : String) (names : Place) : Prop where
  isPlain : ∀ name ∈ names, Path.IsPlain name
  isFile : tree.isFile (Place.ofPath path ++ names)
  extension?_eq : (Place.ofPath path ++ names).extension? = some extension

/-- Whether a place below another has a name with the extension. -/
def isListed (place : Place) (extension : String) (p : Place) : Bool :=
  place.isPrefixOf p && ! Place.leaves (p.drop place.length) &&
    p.getLast?.any (hasExtension extension)

theorem isListed_iff {place p : Place} {extension : String} :
    isListed place extension p ↔
      ∃ names : Place, p = place ++ names ∧ names.leaves = false ∧
        p.extension? = some extension := by
  simp only [isListed, Bool.and_eq_true, Bool.not_eq_true', any_hasExtension_iff,
    List.isPrefixOf_iff_prefix]
  constructor
  · rintro ⟨⟨⟨names, rfl⟩, hstays⟩, hextension⟩
    rw [List.drop_left] at hstays
    exact ⟨names, rfl, hstays, hextension⟩
  · rintro ⟨names, rfl, hstays, hextension⟩
    rw [List.drop_left]
    exact ⟨⟨List.prefix_append place names, hstays⟩, hextension⟩

/-- Which source files are found depends on nothing but the places of the files. -/
theorem sourcesUnder_eq (tree : FileTree) (place : Place) (extension : String) :
    sourcesUnder tree place extension =
      (((tree.files.map (·.1)).filter (isListed place extension)).map
        (·.drop place.length)).mergeSort Path.precedes := by
  refine congrArg (List.mergeSort · Path.precedes) ?_
  rw [FileTree.filesUnder]
  induction tree.files with
  | nil => rfl
  | cons file files ih =>
    obtain ⟨p, bytes⟩ := file
    by_cases hbelow : place.isPrefixOf p && ! Place.leaves (p.drop place.length)
    · have hp : place ++ p.drop place.length = p := by
        obtain ⟨names, rfl⟩ := List.isPrefixOf_iff_prefix.mp (Bool.and_eq_true_iff.mp hbelow).1
        rw [List.drop_left]
      simp only [List.filterMap_cons, List.map_cons, List.filter_cons, isListed, hbelow, if_true,
        Bool.true_and, hp]
      split
      · exact congrArg (List.cons _) ih
      · exact ih
    · simp only [List.filterMap_cons, List.map_cons, List.filter_cons, isListed, hbelow,
        Bool.false_and]
      exact ih

theorem mem_sourcesUnder {tree : FileTree} {place names : Place} {extension : String} :
    names ∈ sourcesUnder tree place extension ↔
      tree.isFile (place ++ names) ∧ names.leaves = false ∧
        (place ++ names).extension? = some extension := by
  rw [sourcesUnder_eq, List.mem_mergeSort, List.mem_map, FileTree.isFile_iff]
  constructor
  · rintro ⟨p, hp, rfl⟩
    obtain ⟨hmem, hlisted⟩ := List.mem_filter.mp hp
    obtain ⟨names, rfl, hstays, hextension⟩ := isListed_iff.mp hlisted
    rw [List.drop_left]
    exact ⟨hmem, hstays, hextension⟩
  · rintro ⟨hmem, hstays, hextension⟩
    refine ⟨place ++ names, List.mem_filter.mpr ⟨hmem, ?_⟩, List.drop_left⟩
    exact isListed_iff.mpr ⟨names, rfl, hstays, hextension⟩

theorem nodup_sourcesUnder {tree : FileTree} (h : tree.IsRegular) (place : Place)
    (extension : String) : (sourcesUnder tree place extension).Nodup := by
  rw [sourcesUnder_eq, (List.mergeSort_perm _ _).nodup_iff]
  refine List.Nodup.map_on (fun p hp q hq hdrop => ?_) (h.nodup.filter _)
  obtain ⟨names, rfl, -⟩ := isListed_iff.mp (List.mem_filter.mp hp).2
  obtain ⟨names', rfl, -⟩ := isListed_iff.mp (List.mem_filter.mp hq).2
  rw [List.drop_left, List.drop_left] at hdrop
  rw [hdrop]

/-- The source files are found once each, in the order of their names. -/
structure Lists (tree : FileTree) (path extension : String) (sources : List Place) : Prop where
  mem_iff : ∀ names, names ∈ sources ↔ IsSource tree path extension names
  ordered : sources.Pairwise fun a b => Path.precedes a b ∧ a ≠ b

/-- The files are found in the only order that they can be listed in. -/
theorem discover?_eq_of_perm {tree : FileTree} {path extension : String} {place : Place}
    {sources : List Place} (hfind : tree.find? path = some place)
    (hperm : sources.Perm (((tree.files.map (·.1)).filter (isListed place extension)).map
      (·.drop place.length)))
    (hordered : sources.Pairwise (Path.precedes · ·)) :
    discover? tree path extension = some sources := by
  have hsorted := List.pairwise_mergeSort precedes_trans precedes_total
    (((tree.files.map (·.1)).filter (isListed place extension)).map (·.drop place.length))
  have heq := ((List.mergeSort_perm _ Path.precedes).trans hperm.symm).eq_of_pairwise
    (fun a b _ _ => precedes_antisymm a b) hsorted hordered
  rw [discover?, hfind, Option.map_some, sourcesUnder_eq, heq]

theorem lists_of_discover? {tree : FileTree} {path extension : String} {sources : List Place}
    (h : tree.IsRegular) (hfound : discover? tree path extension = some sources) :
    Lists tree path extension sources := by
  obtain ⟨place, hfind, rfl⟩ := Option.map_eq_some_iff.mp hfound
  obtain rfl := FileTree.find?_eq_ofPath hfind
  constructor
  · intro names
    rw [mem_sourcesUnder]
    constructor
    · rintro ⟨hfile, hstays, hextension⟩
      have hproper := h.isProper _ (FileTree.isFile_iff.mp hfile)
      exact ⟨hproper.isPlain hstays, hfile, hextension⟩
    · rintro ⟨hplain, hfile, hextension⟩
      exact ⟨hfile, Place.leaves_eq_false hplain, hextension⟩
  · have hsorted := List.pairwise_mergeSort precedes_trans precedes_total
      (((tree.files.map (·.1)).filter (isListed (Place.ofPath path) extension)).map
        (·.drop (Place.ofPath path).length))
    rw [← sourcesUnder_eq] at hsorted
    exact hsorted.imp₂ (fun _ _ hle hne => ⟨hle, hne⟩) (nodup_sourcesUnder h _ _)

/-- Files with other extensions can come and go without being noticed. -/
theorem discover?_eq_of_alters {before after : FileTree} {path extension : String}
    {places sources : List Place} (halters : before.Alters after places)
    (hothers : ∀ p ∈ places, p.extension? ≠ some extension)
    (hfound : discover? before path extension = some sources) :
    discover? after path extension = some sources := by
  obtain ⟨place, hfind, rfl⟩ := Option.map_eq_some_iff.mp hfound
  rw [discover?, halters.find?_eq hfind, Option.map_some, sourcesUnder_eq, sourcesUnder_eq,
    halters.listed_eq]
  intro p hp
  refine Bool.eq_false_iff.mpr fun hlisted => hothers p hp ?_
  obtain ⟨names, -, -, hextension⟩ := isListed_iff.mp hlisted
  exact hextension

theorem run_discover (path extension : String) (tree : FileTree) :
    (discover path extension).run.run tree =
      match discover? tree path extension with
      | some sources => (.ok sources, tree)
      | none => (.error (.inaccessible path), tree) := by
  rw [discover, Work.run_get_bind]
  cases discover? tree path extension <;> rfl

/-- A file that is its own directory has a fixed target; else the last name gets a new extension. -/
inductive HasTarget (extension : String) : Place → Place → Prop
  | itself : HasTarget extension [] ["src", "main", "kotlin.kt"]
  | renamed {init : Place} {stem : String} : stem ≠ "" →
      HasTarget extension (init ++ [stem ++ "." ++ extension])
        (["src", "main", "kotlin"] ++ init ++ [stem ++ "." ++ "kt"])

variable {tree : FileTree} {path extension : String} {source source' : Place}

theorem IsSource.hasTarget (h : IsSource tree path extension source) :
    HasTarget extension source (targetOf source) := by
  rcases List.eq_nil_or_concat source with rfl | ⟨init, name, rfl⟩
  · have htarget : targetOf [] = ["src", "main", "kotlin.kt"] := by decide
    rw [htarget]
    exact .itself
  · have hextension := h.extension?_eq
    rw [List.concat_eq_append] at hextension ⊢
    rw [Place.extension?_append (by simp), Place.extension?, List.getLast?_concat,
      Option.bind_some] at hextension
    obtain ⟨hname, hstem, -⟩ := Path.splitName_eq_some (Prod.ext rfl hextension)
    have htarget : targetOf (init ++ [name]) =
        ["src", "main", "kotlin"] ++ init ++ [(Path.splitName name).1 ++ "." ++ "kt"] := by
      rw [targetOf, ← List.append_assoc, Path.withExtension_concat]
    rw [htarget]
    nth_rewrite 1 [hname]
    exact .renamed hstem

theorem HasTarget.ne_nil {target : Place} (h : HasTarget extension source target) :
    target ≠ [] := by
  cases h <;> simp

theorem HasTarget.extension?_eq {target : Place} (h : HasTarget extension source target) :
    target.extension? = some "kt" := by
  cases h with
  | itself => decide
  | renamed hstem =>
    rw [Place.extension?, List.getLast?_concat, Option.bind_some]
    exact congrArg Prod.snd (Path.splitName_append hstem (by decide))

theorem HasTarget.isPlain {target : Place} (h : HasTarget extension source target)
    (hsource : ∀ name ∈ source, Path.IsPlain name) : ∀ name ∈ target, Path.IsPlain name := by
  cases h with
  | itself => decide
  | @renamed init stem hstem =>
    have hname := hsource (stem ++ "." ++ extension) (by simp)
    have hroot : ∀ name ∈ ["src", "main", "kotlin"], Path.IsPlain name := by decide
    intro name hmem
    rcases List.mem_append.mp hmem with hmem | hmem
    · rcases List.mem_append.mp hmem with hmem | hmem
      · exact hroot name hmem
      · exact hsource name (List.mem_append_left _ hmem)
    · obtain rfl := List.mem_singleton.mp hmem
      have hlength : (stem ++ "." ++ "kt").length = stem.length + 3 := by
        rw [String.length_append, String.length_append]
        rfl
      have hne : ∀ short : String, short.length < 3 → stem ++ "." ++ "kt" ≠ short := by
        rintro short hshort rfl
        omega
      refine ⟨hne _ (by decide), hne _ (by decide), hne _ (by decide), fun hslash => ?_⟩
      refine hname.no_slash ?_
      simp only [String.toList_append, List.mem_append] at hslash ⊢
      rcases hslash with (hslash | hslash) | hslash
      · exact .inl (.inl hslash)
      · exact absurd hslash (by decide)
      · exact absurd hslash (by decide)

theorem HasTarget.inj {target target' : Place} (h : HasTarget extension source target)
    (h' : HasTarget extension source' target') (heq : target = target') : source = source' := by
  cases h with
  | itself =>
    cases h' with
    | itself => rfl
    | renamed => simpa using congrArg List.length heq
  | @renamed init stem hstem =>
    cases h' with
    | itself => simpa using congrArg List.length heq
    | @renamed init' stem' hstem' =>
      obtain ⟨hinit, hlast⟩ := List.append_inj' heq rfl
      have hstems : stem = stem' := by
        have hnames := String.toList_inj.mpr (List.singleton_inj.mp hlast)
        simp only [String.toList_append] at hnames
        exact String.toList_inj.mp (List.append_cancel_right (List.append_cancel_right hnames))
      rw [List.append_cancel_left hinit, hstems]

end Project

end QuovaKotlin
