import QuovaKotlin.Proofs.Paths
import QuovaKotlin.Project.Build

/-!
# What writing does to a file tree

A write changes the bytes of one file and may add directories on the way to it. `Alters` says this of
any number of writes, and `Holds` says that a write has been done and that doing it once more would
change nothing.
-/

set_option autoImplicit false

namespace QuovaKotlin

namespace FileTree

variable {tree before after : FileTree} {place directory : Place} {ns : List String}

theorem follow?_eq_reach (h : tree.follow? place ns = some directory) :
    directory = place.reach ns := by
  induction ns generalizing place with
  | nil => exact (Option.some.inj h).symm
  | cons name ns ih =>
    rw [follow?] at h
    split at h
    · exact ih h
    · cases h

theorem follow?_append (tree : FileTree) (place : Place) (ns ms : List String) :
    tree.follow? place (ns ++ ms) = (tree.follow? place ns).bind (tree.follow? · ms) := by
  induction ns generalizing place with
  | nil => rfl
  | cons name ns ih =>
    rw [List.cons_append, follow?, follow?]
    split
    · exact ih _
    · rfl

theorem find?_eq_ofPath {path : String} (h : tree.find? path = some place) :
    place = Place.ofPath path := by
  obtain ⟨p, hfollow, hp⟩ := Option.bind_eq_some_iff.mp h
  split at hp
  · rw [← Option.some.inj hp]
    exact follow?_eq_reach hfollow
  · cases hp

theorem leadsToFile_of_read? {path text : String} (h : tree.read? path = some text) :
    tree.leadsToFile path := by
  obtain ⟨p, hfind, htext⟩ := Option.bind_eq_some_iff.mp h
  obtain ⟨bytes, hbytes, -⟩ := Option.bind_eq_some_iff.mp htext
  rw [leadsToFile, hfind, Option.any_some, isFile, hbytes]
  rfl

/-- A file that cannot be read has bytes that are not those of a text. -/
theorem undecodable_of_read? {path : String} (hfile : tree.leadsToFile path)
    (hread : tree.read? path = none) :
    ∃ bytes, tree.bytesAt? (Place.ofPath path) = some bytes ∧ ¬ bytes.IsValidUTF8 := by
  obtain ⟨p, hfind, hp⟩ := (Option.any_eq_true _ _).mp hfile
  obtain ⟨bytes, hbytes⟩ := Option.isSome_iff_exists.mp hp
  rw [read?, hfind, Option.bind_some, textAt?, hbytes, Option.bind_some, String.fromUTF8?] at hread
  refine ⟨bytes, find?_eq_ofPath hfind ▸ hbytes, fun hvalid => ?_⟩
  rw [dif_pos hvalid] at hread
  cases hread

theorem isDirectory_origin (tree : FileTree) (path : String) :
    tree.isDirectory (Place.origin path) := by
  rw [Place.origin]
  split <;> simp [isDirectory]

theorem follow?_mono (hkeeps : ∀ p, before.isDirectory p → after.isDirectory p)
    (h : before.follow? place ns = some directory) : after.follow? place ns = some directory := by
  induction ns generalizing place with
  | nil => exact h
  | cons name ns ih =>
    rw [follow?] at h ⊢
    split at h
    · next hplace =>
      rw [if_pos (hkeeps _ hplace)]
      exact ih h
    · cases h

/-- Names that lead to a directory start from one. -/
theorem isDirectory_of_follow? (h : tree.follow? place ns = some directory)
    (hdirectory : tree.isDirectory directory) : tree.isDirectory place := by
  cases ns with
  | nil =>
    rw [Option.some.inj h]
    exact hdirectory
  | cons name ns =>
    rw [follow?] at h
    split at h
    · next hplace => exact hplace
    · cases h

/-- The bytes of a file in `places` may have changed, and directories may have been added where no
file is. All else is as before. -/
structure Alters (before after : FileTree) (places : List Place) : Prop where
  bytesAt?_eq : ∀ p, p ∉ places → after.bytesAt? p = before.bytesAt? p
  listed_eq : ∀ q : Place → Bool, (∀ p ∈ places, q p = false) →
    (after.files.map (·.1)).filter q = (before.files.map (·.1)).filter q
  isFile_of : ∀ p, before.isFile p → after.isFile p
  isDirectory_of : ∀ p, before.isDirectory p → after.isDirectory p
  spares : ∀ p, before.isFile p → after.isDirectory p → before.isDirectory p

namespace Alters

variable {middle : FileTree} {places places' : List Place}

theorem refl (tree : FileTree) : Alters tree tree [] :=
  ⟨fun _ _ => rfl, fun _ _ => rfl, fun _ h => h, fun _ h => h, fun _ _ h => h⟩

theorem trans (h : Alters before middle places) (h' : Alters middle after places') :
    Alters before after (places ++ places') where
  bytesAt?_eq p hp := by
    rw [h'.bytesAt?_eq p fun hmem => hp (List.mem_append_right _ hmem),
      h.bytesAt?_eq p fun hmem => hp (List.mem_append_left _ hmem)]
  listed_eq q hq := by
    rw [h'.listed_eq q fun p hp => hq p (List.mem_append_right _ hp),
      h.listed_eq q fun p hp => hq p (List.mem_append_left _ hp)]
  isFile_of p hp := h'.isFile_of p (h.isFile_of p hp)
  isDirectory_of p hp := h'.isDirectory_of p (h.isDirectory_of p hp)
  spares p hfile hp := h.spares p hfile (h'.spares p (h.isFile_of p hfile) hp)

theorem weaken (h : Alters before after places) (hsub : places ⊆ places') :
    Alters before after places' where
  bytesAt?_eq p hp := h.bytesAt?_eq p fun hmem => hp (hsub hmem)
  listed_eq q hq := h.listed_eq q fun p hp => hq p (hsub hp)
  isFile_of := h.isFile_of
  isDirectory_of := h.isDirectory_of
  spares := h.spares

theorem textAt?_eq (h : Alters before after places) (hplace : place ∉ places) :
    after.textAt? place = before.textAt? place := by
  rw [textAt?, h.bytesAt?_eq place hplace, textAt?]

/-- What a path led to before, it leads to afterwards. -/
theorem find?_eq {path : String} (h : Alters before after places)
    (hfind : before.find? path = some place) : after.find? path = some place := by
  obtain ⟨p, hfollow, hcheck⟩ := Option.bind_eq_some_iff.mp hfind
  split at hcheck
  · next hok =>
    obtain rfl := Option.some.inj hcheck
    refine Option.bind_eq_some_iff.mpr ⟨p, follow?_mono h.isDirectory_of hfollow, if_pos ?_⟩
    simp only [Bool.and_eq_true, Bool.or_eq_true] at hok ⊢
    exact ⟨hok.1, hok.2.imp (h.isDirectory_of p) fun hfile => ⟨h.isFile_of p hfile.1, hfile.2⟩⟩
  · cases hcheck

theorem read?_eq {path text : String} (h : Alters before after places)
    (hplace : Place.ofPath path ∉ places) (hread : before.read? path = some text) :
    after.read? path = some text := by
  obtain ⟨p, hfind, htext⟩ := Option.bind_eq_some_iff.mp hread
  rw [read?, h.find?_eq hfind, Option.bind_some,
    h.textAt?_eq (find?_eq_ofPath hfind ▸ hplace), htext]

end Alters

theorem alters_of_directory (hfile : tree.isFile place = false) :
    Alters tree { tree with directories := tree.directories ++ [place] } [] where
  bytesAt?_eq _ _ := rfl
  listed_eq _ _ := rfl
  isFile_of _ h := h
  isDirectory_of p h := by
    simp only [isDirectory, List.contains_append, Bool.or_eq_true] at h ⊢
    exact h.imp_right .inl
  spares p hp hdirectory := by
    simp only [isDirectory, List.contains_append, Bool.or_eq_true] at hdirectory ⊢
    rcases hdirectory with h | h | h
    · exact .inl h
    · exact .inr h
    · have heq : p = place := by simpa using h
      rw [heq, hfile] at hp
      cases hp

theorem alters_makeAlong (tree : FileTree) (place : Place) (ns : List String) :
    Alters tree (tree.makeAlong place ns).1 [] := by
  fun_induction makeAlong tree place ns with
  | case1 tree place => exact .refl tree
  | case2 tree place name ns next _ ih => exact ih
  | case3 tree place name ns next _ _ => exact .refl tree
  | case4 tree place name ns next _ hfree ih =>
    have hfile : tree.isFile next = false := by
      simp only [Bool.or_eq_true, not_or, Bool.not_eq_true] at hfree
      exact hfree.1
    exact (alters_of_directory hfile).trans ih

/-- Where all directories could be made, the names can be followed. -/
theorem follow?_makeAlong (hplace : tree.isDirectory place)
    (hdone : (tree.makeAlong place ns).2) :
    (tree.makeAlong place ns).1.follow? place ns = some (place.reach ns) ∧
      (tree.makeAlong place ns).1.isDirectory (place.reach ns) := by
  fun_induction makeAlong tree place ns with
  | case1 tree place => exact ⟨rfl, hplace⟩
  | case2 tree place name ns next hnext ih =>
    obtain ⟨hfollow, hdirectory⟩ := ih hnext hdone
    refine ⟨?_, hdirectory⟩
    rw [follow?, if_pos ((alters_makeAlong tree next ns).isDirectory_of place hplace)]
    exact hfollow
  | case3 => cases hdone
  | case4 tree place name ns next _ hfree ih =>
    have hfile : tree.isFile next = false := by
      simp only [Bool.or_eq_true, not_or, Bool.not_eq_true] at hfree
      exact hfree.1
    have hadds := alters_of_directory hfile
    have hnext : ({ tree with directories := tree.directories ++ [next] } : FileTree).isDirectory
        next := by simp [isDirectory]
    obtain ⟨hfollow, hdirectory⟩ := ih hnext hdone
    refine ⟨?_, hdirectory⟩
    rw [follow?, if_pos]
    · exact hfollow
    · exact (hadds.trans (alters_makeAlong _ next ns)).isDirectory_of place hplace

/-- Directories that are there are not made again. -/
theorem makeAlong_eq_self (h : tree.follow? place ns = some directory)
    (hdirectory : tree.isDirectory directory) : tree.makeAlong place ns = (tree, true) := by
  induction ns generalizing place with
  | nil => rfl
  | cons name ns ih =>
    rw [follow?] at h
    split at h
    · rw [makeAlong, if_pos (isDirectory_of_follow? h hdirectory)]
      exact ih h
    · cases h

/-- Making directories again ends where it ended before, with all of them or in front of the first
that cannot be made. -/
theorem makeAlong_again (tree : FileTree) (place : Place) (ns : List String) :
    (tree.makeAlong place ns).1.makeAlong place ns = tree.makeAlong place ns := by
  fun_induction makeAlong tree place ns with
  | case1 tree place => rfl
  | case2 tree place name ns next hnext ih =>
    rw [makeAlong, if_pos ((alters_makeAlong tree next ns).isDirectory_of next hnext)]
    exact ih
  | case3 tree place name ns next hnext hstop => rw [makeAlong, if_neg hnext, if_pos hstop]
  | case4 tree place name ns next _ hfree ih =>
    have hnext : ({ tree with directories := tree.directories ++ [next] } : FileTree).isDirectory
        next := by simp [isDirectory]
    rw [makeAlong, if_pos ((alters_makeAlong _ next ns).isDirectory_of next hnext)]
    exact ih

section

variable {base : String} (hplain : ∀ name ∈ ns, Path.IsPlain name)

theorem alters_makeUnder (tree : FileTree) (base : String) (ns : List String) :
    Alters tree (tree.makeUnder base ns).1 [] := by
  rw [makeUnder]
  split
  · exact alters_makeAlong tree _ _
  · exact .refl tree

theorem makeUnder_again (tree : FileTree) (base : String) (ns : List String) :
    (tree.makeUnder base ns).1.makeUnder base ns = tree.makeUnder base ns := by
  simp only [makeUnder]
  split
  · exact makeAlong_again tree _ _
  · rfl

theorem makeUnder_eq_self
    (hfollow : tree.follow? (Place.origin base) (Path.names base ++ ns) =
      some (Place.ofPath base ++ ns))
    (hdirectory : tree.isDirectory (Place.ofPath base ++ ns))
    (hfollowable : Path.isFollowable (Path.extend base ns)) :
    tree.makeUnder base ns = (tree, true) := by
  rw [makeUnder, if_pos hfollowable, makeAlong_eq_self hfollow hdirectory]

include hplain

theorem follow?_makeUnder (hdone : (tree.makeUnder base ns).2) :
    (tree.makeUnder base ns).1.follow? (Place.origin base) (Path.names base ++ ns) =
        some (Place.ofPath base ++ ns) ∧
      (tree.makeUnder base ns).1.isDirectory (Place.ofPath base ++ ns) ∧
      Path.isFollowable (Path.extend base ns) := by
  have hreach : (Place.origin base).reach (Path.names base ++ ns) = Place.ofPath base ++ ns := by
    rw [Place.reach_append, Place.reach_of_isPlain hplain, Place.ofPath]
  rw [makeUnder] at hdone ⊢
  split at hdone
  · next hfollowable =>
    rw [if_pos hfollowable]
    obtain ⟨hfollow, hdirectory⟩ := follow?_makeAlong (isDirectory_origin tree base) hdone
    rw [hreach] at hfollow hdirectory
    exact ⟨hfollow, hdirectory, hfollowable⟩
  · cases hdone

end

theorem lookup_cons_eq (p q : Place) (bytes : ByteArray) (files : List (Place × ByteArray)) :
    ((q, bytes) :: files).lookup p = if p = q then some bytes else files.lookup p := by
  by_cases hp : p = q
  · rw [hp, List.lookup_cons_self, if_pos rfl]
  · rw [List.lookup_cons, beq_false_of_ne hp, if_neg hp]

theorem lookup_put (place p : Place) (bytes : ByteArray) (files : List (Place × ByteArray)) :
    (put place bytes files).lookup p = if p = place then some bytes else files.lookup p := by
  induction files with
  | nil => rw [put, lookup_cons_eq]
  | cons file files ih =>
    obtain ⟨q, b⟩ := file
    by_cases hq : q = place
    · rw [put, if_pos hq, hq, lookup_cons_eq, lookup_cons_eq]
      split <;> rfl
    · rw [put, if_neg hq, lookup_cons_eq, lookup_cons_eq, ih]
      by_cases hp : p = q
      · rw [if_pos hp, if_pos hp, if_neg (hp ▸ hq)]
      · rw [if_neg hp, if_neg hp]

theorem put_eq_self {bytes : ByteArray} {files : List (Place × ByteArray)}
    (h : files.lookup place = some bytes) : put place bytes files = files := by
  induction files with
  | nil => cases h
  | cons file files ih =>
    obtain ⟨q, b⟩ := file
    by_cases hq : q = place
    · rw [lookup_cons_eq, if_pos hq.symm] at h
      rw [put, if_pos hq, Option.some.inj h]
    · rw [lookup_cons_eq, if_neg (Ne.symm hq)] at h
      rw [put, if_neg hq, ih h]

theorem filter_map_put {q : Place → Bool} (hq : q place = false) (bytes : ByteArray)
    (files : List (Place × ByteArray)) :
    ((put place bytes files).map (·.1)).filter q = (files.map (·.1)).filter q := by
  induction files with
  | nil => simp [put, hq]
  | cons file files ih =>
    obtain ⟨p, b⟩ := file
    rw [put]
    split
    · rfl
    · rw [List.map_cons, List.map_cons, List.filter_cons, List.filter_cons, ih]

theorem alters_put (tree : FileTree) (place : Place) (bytes : ByteArray) :
    Alters tree { tree with files := put place bytes tree.files } [place] where
  bytesAt?_eq p hp := by
    rw [bytesAt?, lookup_put, if_neg (by simpa using hp)]
    rfl
  listed_eq q hq := filter_map_put (hq place List.mem_cons_self) bytes tree.files
  isFile_of p hp := by
    rw [isFile, bytesAt?, lookup_put]
    split
    · rfl
    · exact hp
  isDirectory_of p hp := hp
  spares p _ hp := hp

/-- The file that `ns` lead to from `base` can be written: the directories on the way are there, and
the path and the name are not too long. -/
structure Admits (tree : FileTree) (base : String) (ns : List String) : Prop where
  follow?_eq : tree.follow? (Place.origin base) (Path.names base ++ ns.dropLast) =
    some (Place.ofPath base ++ ns.dropLast)
  isDirectory : tree.isDirectory (Place.ofPath base ++ ns.dropLast)
  free : tree.isDirectory (Place.ofPath base ++ ns) = false
  isName : ∀ name ∈ ns.getLast?, Path.isName name
  isFollowable : Path.isFollowable (Path.extend base ns)
  isFollowable_dropLast : Path.isFollowable (Path.extend base ns.dropLast)

/-- The file is there with the bytes of its text, and could be written again. -/
structure Holds (tree : FileTree) (base : String) (ns : List String) (text : String) : Prop where
  admits : tree.Admits base ns
  bytesAt?_eq : tree.bytesAt? (Place.ofPath base ++ ns) = some text.toUTF8

theorem Holds.isFile {base text : String} (h : tree.Holds base ns text) :
    tree.isFile (Place.ofPath base ++ ns) := by
  rw [FileTree.isFile, h.bytesAt?_eq]
  rfl

theorem fromUTF8?_toUTF8 (text : String) : String.fromUTF8? text.toUTF8 = some text :=
  dif_pos text.isValidUTF8

theorem Holds.textAt?_eq {base text : String} (h : tree.Holds base ns text) :
    tree.textAt? (Place.ofPath base ++ ns) = some text := by
  rw [textAt?, h.bytesAt?_eq, Option.bind_some, fromUTF8?_toUTF8]

section

variable {base text : String} (hplain : ∀ name ∈ ns, Path.IsPlain name) (hne : ns ≠ [])

include hplain hne

/-- A path with names behind it is written through the directory of its last name. -/
theorem write?_extend (tree : FileTree) :
    tree.write? (Path.extend base ns) text =
      (tree.follow? (Place.origin base) (Path.names base ++ ns.dropLast)).bind fun directory =>
        if Path.isFollowable (Path.extend base ns) then
          tree.writeIn? directory (ns.getLast hne) text
        else none := by
  have hname := (hplain (ns.getLast hne) (List.getLast_mem hne)).ne_up
  have hlast : (Path.names base ++ ns).getLast? = some (ns.getLast hne) := by
    rw [List.getLast?_append, List.getLast?_eq_some_getLast hne]
    rfl
  have hfile : Path.fileName? (Path.extend base ns) = some (ns.getLast hne) := by
    rw [Path.fileName?, Path.names_extend hplain, hlast]
    exact if_neg hname
  rw [write?, hfile, Place.origin_extend hplain, Path.names_extend hplain,
    List.dropLast_append_of_ne_nil hne, Path.namesDirectory_extend hplain hne]
  simp only [Option.bind_eq_bind, Option.bind_some, Bool.not_false, Bool.and_true]

theorem admits_of_write? (h : tree.write? (Path.extend base ns) text = some after)
    (hdropLast : Path.isFollowable (Path.extend base ns.dropLast)) :
    tree.Admits base ns ∧
      after = { tree with files := put (Place.ofPath base ++ ns) text.toUTF8 tree.files } := by
  rw [write?_extend hplain hne] at h
  obtain ⟨directory, hfollow, h⟩ := Option.bind_eq_some_iff.mp h
  obtain rfl : directory = Place.ofPath base ++ ns.dropLast := by
    rw [follow?_eq_reach hfollow, Place.reach_append, Place.reach_of_isPlain, Place.ofPath]
    exact fun name hname => hplain name (List.dropLast_subset ns hname)
  split at h
  · next hfollowable =>
    have hsplit :
        Place.ofPath base ++ ns.dropLast ++ [ns.getLast hne] = Place.ofPath base ++ ns := by
      rw [List.append_assoc, List.dropLast_concat_getLast hne]
    simp only [writeIn?, hsplit] at h
    split at h
    · next hok =>
      simp only [Bool.and_eq_true, Bool.not_eq_true'] at hok
      refine ⟨⟨hfollow, hok.1.1, hok.1.2, ?_, hfollowable, hdropLast⟩, (Option.some.inj h).symm⟩
      intro name hname
      rw [List.getLast?_eq_some_getLast hne] at hname
      rw [← Option.some.inj hname]
      exact hok.2
    · cases h
  · cases h

theorem Admits.write?_eq (h : tree.Admits base ns) :
    tree.write? (Path.extend base ns) text =
      some { tree with files := put (Place.ofPath base ++ ns) text.toUTF8 tree.files } := by
  have hname := h.isName _ (List.getLast?_eq_some_getLast hne)
  rw [write?_extend hplain hne, h.follow?_eq, Option.bind_some, if_pos h.isFollowable, writeIn?,
    List.append_assoc, List.dropLast_concat_getLast hne, if_pos]
  simp [h.isDirectory, h.free, hname]

theorem Holds.read?_eq (h : tree.Holds base ns text) :
    tree.read? (Path.extend base ns) = some text := by
  have hname := (hplain (ns.getLast hne) (List.getLast_mem hne)).ne_up
  have hfollow : tree.follow? (Place.origin base) (Path.names base ++ ns) =
      some (Place.ofPath base ++ ns) := by
    have hlast := tree.follow?_append (Place.origin base) (Path.names base ++ ns.dropLast)
      [ns.getLast hne]
    rw [List.append_assoc, List.dropLast_concat_getLast hne, h.admits.follow?_eq, Option.bind_some,
      follow?, if_pos h.admits.isDirectory, follow?, Place.enter, if_neg hname, List.append_assoc,
      List.dropLast_concat_getLast hne] at hlast
    exact hlast
  have hfind : tree.find? (Path.extend base ns) = some (Place.ofPath base ++ ns) := by
    rw [find?, Place.origin_extend hplain, Path.names_extend hplain, hfollow]
    exact if_pos (by simp [h.admits.isFollowable, h.isFile, Path.namesDirectory_extend hplain hne])
  rw [read?, hfind, Option.bind_some, h.textAt?_eq]

end

theorem Admits.holds_put {base : String} (h : tree.Admits base ns) (text : String) :
    ({ tree with files := put (Place.ofPath base ++ ns) text.toUTF8 tree.files } : FileTree).Holds
      base ns text where
  admits := { h with
    follow?_eq := follow?_mono (alters_put tree _ text.toUTF8).isDirectory_of h.follow?_eq }
  bytesAt?_eq := by rw [bytesAt?, lookup_put, if_pos rfl]

theorem Holds.mono {base text : String} {places : List Place} (h : before.Holds base ns text)
    (halters : Alters before after places) (hplace : Place.ofPath base ++ ns ∉ places) :
    after.Holds base ns text where
  admits := {
    follow?_eq := follow?_mono halters.isDirectory_of h.admits.follow?_eq
    isDirectory := halters.isDirectory_of _ h.admits.isDirectory
    free := by
      refine Bool.eq_false_iff.mpr fun hdirectory => ?_
      have hbefore := halters.spares _ h.isFile hdirectory
      rw [h.admits.free] at hbefore
      cases hbefore
    isName := h.admits.isName
    isFollowable := h.admits.isFollowable
    isFollowable_dropLast := h.admits.isFollowable_dropLast }
  bytesAt?_eq := by rw [halters.bytesAt?_eq _ hplace, h.bytesAt?_eq]

end FileTree

namespace Work

variable {α β : Type} {tree before after : FileTree} {problem : Problem}

theorem run_bind (x : Work α) (f : α → Work β) (tree : FileTree) :
    (x >>= f).run.run tree =
      match x.run.run tree with
      | (.ok a, tree) => (f a).run.run tree
      | (.error problem, tree) => (.error problem, tree) := by
  simp only [ExceptT.run_bind, StateT.run_bind]
  cases hx : StateT.run x.run tree with
  | mk result tree' =>
    cases result <;> rfl

/-- A sequence that succeeds is a sequence of successes. -/
theorem bind_ok {x : Work α} {f : α → Work β} {b : β}
    (h : (x >>= f).run.run before = (.ok b, after)) :
    ∃ a middle, x.run.run before = (.ok a, middle) ∧ (f a).run.run middle = (.ok b, after) := by
  rw [run_bind] at h
  split at h
  · next a middle hx => exact ⟨a, middle, hx, h⟩
  · cases h

/-- A sequence fails with its first part or behind it. -/
theorem bind_error {x : Work α} {f : α → Work β}
    (h : (x >>= f).run.run before = (.error problem, after)) :
    x.run.run before = (.error problem, after) ∨
      ∃ a middle, x.run.run before = (.ok a, middle) ∧
        (f a).run.run middle = (.error problem, after) := by
  rw [run_bind] at h
  split at h
  · next a middle hx => exact .inr ⟨a, middle, hx, h⟩
  · next problem' middle hx =>
    cases h
    exact .inl hx

theorem run_ofExcept (result : Except Problem α) (tree : FileTree) :
    (ofExcept result).run.run tree = (result, tree) := by
  cases result <;> rfl

theorem run_get_bind (f : FileTree → Work α) (tree : FileTree) :
    (get >>= f).run.run tree = (f tree).run.run tree :=
  rfl

theorem run_readFile (path : String) (tree : FileTree) :
    (readFile path).run.run tree =
      match tree.read? path with
      | some text => (.ok text, tree)
      | none => (.error (.inaccessible path), tree) := by
  rw [readFile, run_get_bind]
  cases tree.read? path <;> rfl

theorem readFile_ok {path text : String}
    (h : (readFile path).run.run before = (.ok text, after)) :
    before.read? path = some text ∧ after = before := by
  rw [run_readFile] at h
  split at h
  · next hsome =>
    cases h
    exact ⟨hsome, rfl⟩
  · cases h

theorem readFile_error {path : String}
    (h : (readFile path).run.run before = (.error problem, after)) :
    before.read? path = none ∧ problem = .inaccessible path ∧ after = before := by
  rw [run_readFile] at h
  split at h
  · cases h
  · next hnone =>
    cases h
    exact ⟨hnone, rfl, rfl⟩

theorem run_writeFile (path text : String) (tree : FileTree) :
    (writeFile path text).run.run tree =
      match tree.write? path text with
      | some after => (.ok (), after)
      | none => (.error (.inaccessible path), tree) := by
  rw [writeFile, run_get_bind]
  cases tree.write? path text <;> rfl

theorem run_make (path : String) (update : FileTree → FileTree × Bool) (tree : FileTree) :
    (make path update).run.run tree =
      (if (update tree).2 then .ok () else .error (.inaccessible path), (update tree).1) := by
  rw [make, run_get_bind]
  cases update tree with
  | mk after done => cases done <;> rfl

section

variable {base text : String} {ns : List String} (hplain : ∀ name ∈ ns, Path.IsPlain name)
  (hne : ns ≠ [])

/-- A write that fails leaves nothing but directories behind, and would fail again. -/
theorem writeUnder_error (h : (writeUnder base ns text).run.run before = (.error problem, after)) :
    before.Alters after [] ∧
      (writeUnder base ns text).run.run after = (.error problem, after) := by
  have hmade := before.alters_makeUnder base ns.dropLast
  have hagain := before.makeUnder_again base ns.dropLast
  rcases bind_error h with hmake | ⟨_, middle, hmake, hwrite⟩
  · rw [run_make] at hmake
    obtain ⟨hstop, rfl⟩ := Prod.mk.inj hmake
    refine ⟨hmade, ?_⟩
    rw [writeUnder, run_bind, run_make, hagain, hstop]
  · rw [run_make] at hmake
    obtain ⟨hdone, rfl⟩ := Prod.mk.inj hmake
    rw [run_writeFile] at hwrite
    split at hwrite
    · cases hwrite
    · next hnone =>
      cases hwrite
      refine ⟨hmade, ?_⟩
      rw [writeUnder, run_bind, run_make, hagain, hdone]
      simp only
      rw [run_writeFile, hnone]

include hplain hne

/-- A write that succeeds leaves the file with its text, and alters no other file. -/
theorem writeUnder_ok (h : (writeUnder base ns text).run.run before = (.ok (), after)) :
    after.Holds base ns text ∧ before.Alters after [Place.ofPath base ++ ns] := by
  have hmade := before.alters_makeUnder base ns.dropLast
  obtain ⟨_, middle, hmake, hwrite⟩ := bind_ok h
  rw [run_make] at hmake
  split at hmake
  · next hdone =>
    cases hmake
    obtain ⟨-, -, hfollowable⟩ := FileTree.follow?_makeUnder
      (fun name hname => hplain name (List.dropLast_subset ns hname)) hdone
    rw [run_writeFile] at hwrite
    split at hwrite
    · next after' hwritten =>
      cases hwrite
      obtain ⟨hadmits, rfl⟩ := FileTree.admits_of_write? hplain hne hwritten hfollowable
      exact ⟨hadmits.holds_put text, hmade.trans (FileTree.alters_put _ _ text.toUTF8)⟩
    · cases hwrite
  · cases hmake

/-- What is there already is not changed by writing it. -/
theorem writeUnder_of_holds {tree : FileTree} (h : tree.Holds base ns text) :
    (writeUnder base ns text).run.run tree = (.ok (), tree) := by
  have hmake := FileTree.makeUnder_eq_self
    h.admits.follow?_eq h.admits.isDirectory h.admits.isFollowable_dropLast
  rw [writeUnder, run_bind, run_make, hmake]
  simp only [if_true]
  rw [run_writeFile, h.admits.write?_eq hplain hne, FileTree.put_eq_self h.bytesAt?_eq]

end

end Work

end QuovaKotlin
