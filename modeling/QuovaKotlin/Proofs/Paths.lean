import Mathlib.Data.List.TakeWhile
import QuovaKotlin.Project.FileTree

/-!
# Where paths lead

A path leads to one place, whatever the files are; a file tree only decides whether the path can be
followed. Names that are put behind a path are put behind its place.
-/

set_option autoImplicit false

namespace QuovaKotlin

namespace Path

/-- A name that stands for itself on a path. -/
structure IsPlain (name : String) : Prop where
  ne_empty : name ≠ ""
  ne_dot : name ≠ "."
  ne_up : name ≠ ".."
  no_slash : '/' ∉ name.toList

instance (name : String) : Decidable (IsPlain name) :=
  decidable_of_iff (name ≠ "" ∧ name ≠ "." ∧ name ≠ ".." ∧ '/' ∉ name.toList)
    ⟨fun ⟨h₁, h₂, h₃, h₄⟩ => ⟨h₁, h₂, h₃, h₄⟩, fun ⟨h₁, h₂, h₃, h₄⟩ => ⟨h₁, h₂, h₃, h₄⟩⟩

theorem pieces_of_no_slash {u : List Char} (h : '/' ∉ u) : pieces u = [u] := by
  induction u with
  | nil => rfl
  | cons x u ih =>
    have hx : ¬ x = '/' := fun hx => h (hx ▸ List.mem_cons_self)
    have hu : '/' ∉ u := fun hu => h (List.mem_cons_of_mem x hu)
    rw [pieces, if_neg hx, ih hu]

theorem pieces_ne_nil (u : List Char) : pieces u ≠ [] := by
  cases u with
  | nil => exact nofun
  | cons x u =>
    rw [pieces]
    split
    · exact nofun
    · split <;> exact nofun

theorem pieces_append_slash (u v : List Char) :
    pieces (u ++ '/' :: v) = pieces u ++ pieces v := by
  induction u with
  | nil => rfl
  | cons x u ih =>
    rw [List.cons_append, pieces, pieces, ih]
    split
    · rfl
    · cases hu : pieces u with
      | nil => exact absurd hu (pieces_ne_nil u)
      | cons piece others => rfl

theorem names_append_slash (a b : String) : names (a ++ "/" ++ b) = names a ++ names b := by
  have hchars : (a ++ "/" ++ b).toList = a.toList ++ '/' :: b.toList := by simp
  rw [names, hchars, pieces_append_slash, List.map_append, List.filter_append]
  rfl

theorem names_empty : names "" = [] := by
  decide

variable {base : String} {ns : List String}

theorem pieces_joinWith (h : ∀ name ∈ ns, IsPlain name) (hne : ns ≠ []) :
    pieces (Text.joinWith "/" ns).toList = ns.map String.toList := by
  induction ns with
  | nil => exact absurd rfl hne
  | cons name ns ih =>
    have hname := pieces_of_no_slash (h name List.mem_cons_self).no_slash
    cases ns with
    | nil => exact hname
    | cons name' ns =>
      have hrest := ih (fun n hn => h n (List.mem_cons_of_mem name hn)) (List.cons_ne_nil _ _)
      have hchars : (Text.joinWith "/" (name :: name' :: ns)).toList =
          name.toList ++ '/' :: (Text.joinWith "/" (name' :: ns)).toList := by
        simp [Text.joinWith]
      rw [hchars, pieces_append_slash, hname, hrest]
      rfl

theorem filter_of_isPlain (h : ∀ name ∈ ns, IsPlain name) :
    ns.filter (fun name => name ≠ "" && name ≠ ".") = ns := by
  refine List.filter_eq_self.mpr fun name hname => ?_
  simp [(h name hname).ne_empty, (h name hname).ne_dot]

theorem names_joinWith (h : ∀ name ∈ ns, IsPlain name) : names (Text.joinWith "/" ns) = ns := by
  by_cases hne : ns = []
  · rw [hne]
    exact names_empty
  · rw [names, pieces_joinWith h hne, List.map_map, List.map_congr_left (g := id) (by simp),
      List.map_id, filter_of_isPlain h]

theorem not_isAbsolute_joinWith (h : ∀ name ∈ ns, IsPlain name) :
    isAbsolute (Text.joinWith "/" ns) = false := by
  cases ns with
  | nil => rfl
  | cons name rest =>
    have hpieces := pieces_joinWith h (List.cons_ne_nil name rest)
    refine Bool.eq_false_iff.mpr fun habsolute => ?_
    obtain ⟨u, hu⟩ := List.head?_eq_some_iff.mp (eq_of_beq habsolute)
    -- A slash in front would leave an empty first piece.
    rw [hu, pieces, if_pos rfl, List.map_cons] at hpieces
    have hname : name.toList = [] := (List.cons.inj hpieces).1.symm
    exact (h name List.mem_cons_self).ne_empty (String.toList_eq_nil_iff.mp hname)

/-- Behind a path that is not empty, names follow a slash, which the path may end with. -/
theorem extend_eq (h : ∀ name ∈ ns, IsPlain name) (hne : ns ≠ []) (hbase : base ≠ "") :
    ∃ front : String, (base = front ∨ base = front ++ "/") ∧
      extend base ns = front ++ "/" ++ Text.joinWith "/" ns := by
  rw [extend, if_neg (by simpa using hne), join, not_isAbsolute_joinWith h,
    if_neg (by simpa using hbase)]
  split
  · next hslash =>
    obtain ⟨front, hfront⟩ := List.getLast?_eq_some_iff.mp (eq_of_beq hslash)
    have heq : base = String.ofList front ++ "/" := by
      rw [← String.toList_inj, hfront]
      simp
    exact ⟨String.ofList front, .inr heq, by rw [heq]⟩
  · exact ⟨base, .inl rfl, rfl⟩

theorem extend_nil (base : String) : extend base [] = base :=
  rfl

theorem extend_empty (h : ∀ name ∈ ns, IsPlain name) : extend "" ns = Text.joinWith "/" ns := by
  cases ns with
  | nil => rfl
  | cons name rest => rw [extend, if_neg (by simp), join, if_pos (by simp)]

theorem names_extend (h : ∀ name ∈ ns, IsPlain name) :
    names (extend base ns) = names base ++ ns := by
  by_cases hbase : base = ""
  · rw [hbase, extend_empty h, names_joinWith h, names_empty, List.nil_append]
  by_cases hne : ns = []
  · rw [hne, extend_nil, List.append_nil]
  obtain ⟨front, hfront, heq⟩ := extend_eq h hne hbase
  rw [heq, names_append_slash, names_joinWith h]
  rcases hfront with rfl | rfl
  · rfl
  · have hslash := names_append_slash front ""
    rw [names_empty, List.append_nil] at hslash
    rw [← hslash]
    simp

theorem isAbsolute_append {a b : String} (ha : a ≠ "") : isAbsolute (a ++ b) = isAbsolute a := by
  obtain ⟨x, u, hu⟩ := List.exists_cons_of_ne_nil (mt String.toList_eq_nil_iff.mp ha)
  rw [isAbsolute, isAbsolute, String.toList_append, hu]
  rfl

theorem isAbsolute_extend (h : ∀ name ∈ ns, IsPlain name) :
    isAbsolute (extend base ns) = isAbsolute base := by
  by_cases hbase : base = ""
  · rw [hbase, extend_empty h, not_isAbsolute_joinWith h]
    rfl
  by_cases hne : ns = []
  · rw [hne, extend_nil]
  obtain ⟨front, rfl | rfl, heq⟩ := extend_eq h hne hbase
  · rw [heq, String.append_assoc, isAbsolute_append hbase]
  · rw [heq, isAbsolute_append hbase]

/-- A path with a name behind it does not end like the path of a directory. -/
theorem namesDirectory_extend (h : ∀ name ∈ ns, IsPlain name) (hne : ns ≠ []) :
    namesDirectory (extend base ns) = false := by
  have hpieces : ∃ front, pieces (extend base ns).toList = front ++ ns.map String.toList := by
    by_cases hbase : base = ""
    · exact ⟨[], by rw [hbase, extend_empty h, pieces_joinWith h hne, List.nil_append]⟩
    obtain ⟨front, -, heq⟩ := extend_eq h hne hbase
    refine ⟨pieces front.toList, ?_⟩
    have hchars : (front ++ "/" ++ Text.joinWith "/" ns).toList =
        front.toList ++ '/' :: (Text.joinWith "/" ns).toList := by simp
    rw [heq, hchars, pieces_append_slash, pieces_joinWith h hne]
  obtain ⟨front, hpieces⟩ := hpieces
  obtain ⟨init, name, rfl⟩ := (List.eq_nil_or_concat ns).resolve_left hne
  have hname := h name (by simp)
  have hdot : name.toList ≠ ['.'] := fun heq => hname.ne_dot (String.toList_inj.mp heq)
  rw [namesDirectory, hpieces]
  simp [hname.ne_empty, hdot]

theorem splitName_eq_some {name stem extension : String}
    (h : splitName name = (stem, some extension)) :
    name = stem ++ "." ++ extension ∧ stem ≠ "" ∧ '.' ∉ extension.toList := by
  have hsplit := List.takeWhile_append_dropWhile (p := (· ≠ '.')) (l := name.toList.reverse)
  simp only [splitName] at h
  split at h
  · next dot c rest hdrop =>
    have hdot : dot = '.' := by
      have hhead := List.head?_dropWhile_not (· ≠ '.') name.toList.reverse
      rw [hdrop] at hhead
      simpa using hhead
    cases h
    refine ⟨?_, by simp, ?_⟩
    · rw [hdrop, hdot] at hsplit
      rw [← String.toList_inj, ← List.reverse_inj]
      exact hsplit.symm.trans (by simp)
    · simp only [String.toList_ofList, List.mem_reverse]
      intro hmem
      simpa using List.mem_takeWhile_imp hmem
  · cases h

theorem splitName_append {stem extension : String} (hstem : stem ≠ "")
    (hextension : '.' ∉ extension.toList) :
    splitName (stem ++ "." ++ extension) = (stem, some extension) := by
  have hreverse : (stem ++ "." ++ extension).toList.reverse =
      extension.toList.reverse ++ '.' :: stem.toList.reverse := by simp
  have hall : ∀ x ∈ extension.toList.reverse, decide (x ≠ '.') = true := by
    intro x hx
    refine decide_eq_true ?_
    rintro rfl
    exact hextension (List.mem_reverse.mp hx)
  have hne : stem.toList.reverse ≠ [] := by simpa using hstem
  obtain ⟨c, rest, hrest⟩ := List.exists_cons_of_ne_nil hne
  have hback : String.ofList (c :: rest).reverse = stem := by
    rw [← hrest, List.reverse_reverse, String.ofList_toList]
  simp only [splitName, hreverse]
  rw [List.dropWhile_append_of_pos hall, List.takeWhile_append_of_pos hall, hrest,
    List.dropWhile_cons_of_neg (by simp), List.takeWhile_cons_of_neg (by simp), List.append_nil,
    List.reverse_reverse, String.ofList_toList]
  exact congrArg (·, some extension) hback

theorem withExtension_concat (extension name : String) (init : List String) :
    withExtension extension (init ++ [name]) =
      init ++ [(splitName name).1 ++ "." ++ extension] := by
  induction init with
  | nil => rfl
  | cons first init ih =>
    rw [List.cons_append, withExtension, ih]
    · rfl
    · simp

end Path

namespace Place

/-- The place that names lead to. -/
def reach (place : Place) (names : List String) : Place :=
  names.foldl enter place

/-- The place that a path leads to. -/
def ofPath (path : String) : Place :=
  reach (origin path) (Path.names path)

variable {place : Place} {ns : List String}

theorem reach_append (place : Place) (ns ms : List String) :
    reach place (ns ++ ms) = reach (reach place ns) ms :=
  List.foldl_append

theorem reach_of_isPlain (h : ∀ name ∈ ns, Path.IsPlain name) : reach place ns = place ++ ns := by
  induction ns generalizing place with
  | nil => exact (List.append_nil place).symm
  | cons name ns ih =>
    have henter : place.enter name = place ++ [name] := if_neg (h name List.mem_cons_self).ne_up
    have hrest : reach (place ++ [name]) ns = place ++ [name] ++ ns :=
      ih fun n hn => h n (List.mem_cons_of_mem name hn)
    rw [reach, List.foldl_cons, henter]
    rw [reach] at hrest
    rw [hrest, List.append_assoc, List.singleton_append]

theorem origin_extend {base : String} (h : ∀ name ∈ ns, Path.IsPlain name) :
    origin (Path.extend base ns) = origin base := by
  rw [origin, origin, Path.isAbsolute_extend h]

theorem ofPath_extend {base : String} (h : ∀ name ∈ ns, Path.IsPlain name) :
    ofPath (Path.extend base ns) = ofPath base ++ ns := by
  rw [ofPath, origin_extend h, Path.names_extend h, reach_append, reach_of_isPlain h, ofPath]

end Place

end QuovaKotlin
