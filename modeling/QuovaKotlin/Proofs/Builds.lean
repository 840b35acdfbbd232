import QuovaKotlin.Proofs.Discovery

/-!
# What a build leaves behind

A build is followed unit by unit. Each unit that is built alters the file of its own target and no
other, so a build that succeeds changes exactly the targets and the two build files, and doing it
again changes nothing. A build that fails leaves the units in front of the failure built.
-/

set_option autoImplicit false

namespace QuovaKotlin.Project

variable {config : Config} {dir out : String} {listed before middle after : FileTree}
  {source : Place} {sources : List Place} {problem : Problem}

/-- The target of a source file holds what its text compiles to. The text is that of the tree before
the build, and it can still be read. -/
def IsBuilt (config : Config) (dir out : String) (before after : FileTree) (source : Place) :
    Prop :=
  ∃ text kotlin, before.textAt? (Place.ofPath dir ++ source) = some text ∧
    compileSource config (Text.joinWith "/" source) text = .ok kotlin ∧
    after.read? (Path.extend dir source) = some text ∧
    after.Holds out (targetOf source) kotlin

/-- Why a unit cannot be built in a tree. -/
inductive UnitFails (config : Config) (dir out : String) (tree : FileTree) (source : Place) :
    Problem → Prop
  | missing : tree.leadsToFile (Path.extend dir source) = false →
      UnitFails config dir out tree source (.inaccessible (Path.extend dir source))
  | undecodable {bytes} : tree.bytesAt? (Place.ofPath (Path.extend dir source)) = some bytes →
      ¬ bytes.IsValidUTF8 →
      UnitFails config dir out tree source (.inaccessible (Path.extend dir source))
  | compiling {text problem} : tree.read? (Path.extend dir source) = some text →
      compileSource config (Text.joinWith "/" source) text = .error problem →
      UnitFails config dir out tree source problem
  | writing {text kotlin problem} : tree.read? (Path.extend dir source) = some text →
      compileSource config (Text.joinWith "/" source) text = .ok kotlin →
      (Work.writeUnder out (targetOf source) kotlin).run.run tree = (.error problem, tree) →
      UnitFails config dir out tree source problem

/-- The place of what a source file becomes. -/
def targetPlace (out : String) (source : Place) : Place :=
  Place.ofPath out ++ targetOf source

theorem textAt?_of_read? {tree : FileTree} {text : String}
    (hplain : ∀ name ∈ source, Path.IsPlain name)
    (h : tree.read? (Path.extend dir source) = some text) :
    tree.textAt? (Place.ofPath dir ++ source) = some text := by
  obtain ⟨place, hfind, htext⟩ := Option.bind_eq_some_iff.mp h
  rw [FileTree.find?_eq_ofPath hfind, Place.ofPath_extend hplain] at htext
  exact htext

theorem source_ne_target {extension : String} {source' : Place}
    (h : IsSource listed dir extension source) (h' : IsSource listed dir extension source')
    (hkt : extension ≠ "kt") : Place.ofPath dir ++ source ≠ targetPlace out source' := by
  intro heq
  have hextension := h.extension?_eq
  rw [heq, targetPlace, Place.extension?_append h'.hasTarget.ne_nil,
    h'.hasTarget.extension?_eq] at hextension
  exact hkt (Option.some.inj hextension).symm

theorem UnitFails.of_read? {tree : FileTree} (h : tree.read? (Path.extend dir source) = none) :
    UnitFails config dir out tree source (.inaccessible (Path.extend dir source)) := by
  by_cases hfile : tree.leadsToFile (Path.extend dir source)
  · obtain ⟨bytes, hbytes, hinvalid⟩ := FileTree.undecodable_of_read? hfile h
    exact .undecodable hbytes hinvalid
  · exact .missing (Bool.eq_false_iff.mpr hfile)

theorem buildSource_error
    (h : (buildSource config dir out source).run.run before = (.error problem, after)) :
    before.Alters after [] ∧ UnitFails config dir out after source problem := by
  rcases Work.bind_error h with hread | ⟨text, middle, hread, hrest⟩
  · obtain ⟨hnone, rfl, rfl⟩ := Work.readFile_error hread
    exact ⟨.refl _, .of_read? hnone⟩
  · obtain ⟨hsome, rfl⟩ := Work.readFile_ok hread
    rcases Work.bind_error hrest with hcompile | ⟨kotlin, middle, hcompile, hrest⟩
    · rw [Work.run_ofExcept] at hcompile
      obtain ⟨hcompiled, rfl⟩ := Prod.mk.inj hcompile
      exact ⟨.refl _, .compiling hsome hcompiled⟩
    · rw [Work.run_ofExcept] at hcompile
      obtain ⟨hcompiled, rfl⟩ := Prod.mk.inj hcompile
      rcases Work.bind_error hrest with hwrite | ⟨_, middle, hwrite, hreturn⟩
      · obtain ⟨halters, hagain⟩ := Work.writeUnder_error hwrite
        have hstill := halters.read?_eq List.not_mem_nil hsome
        exact ⟨halters, .writing hstill hcompiled hagain⟩
      · cases hreturn

theorem buildSource_ok {extension path : String} (hsource : IsSource listed dir extension source)
    (hkt : extension ≠ "kt")
    (h : (buildSource config dir out source).run.run before = (.ok path, after)) :
    path = Path.extend out (targetOf source) ∧ IsBuilt config dir out before after source ∧
      before.Alters after [targetPlace out source] := by
  have htarget := hsource.hasTarget
  obtain ⟨text, middle, hread, hrest⟩ := Work.bind_ok h
  obtain ⟨hsome, rfl⟩ := Work.readFile_ok hread
  obtain ⟨kotlin, middle, hcompile, hrest⟩ := Work.bind_ok hrest
  rw [Work.run_ofExcept] at hcompile
  obtain ⟨hcompiled, rfl⟩ := Prod.mk.inj hcompile
  obtain ⟨_, middle, hwrite, hreturn⟩ := Work.bind_ok hrest
  obtain ⟨hholds, halters⟩ :=
    Work.writeUnder_ok (htarget.isPlain hsource.isPlain) htarget.ne_nil hwrite
  cases hreturn
  have hother : Place.ofPath (Path.extend dir source) ∉ [targetPlace out source] := by
    rw [Place.ofPath_extend hsource.isPlain, List.mem_singleton]
    exact source_ne_target hsource hsource hkt
  exact ⟨rfl, ⟨text, kotlin, textAt?_of_read? hsource.isPlain hsome, hcompiled,
    halters.read?_eq hother hsome, hholds⟩, halters⟩

/-- The units of a list are built, and no file but their targets is altered. -/
structure Builds (config : Config) (dir out : String) (before after : FileTree)
    (done : List Place) : Prop where
  isBuilt : ∀ source ∈ done, IsBuilt config dir out before after source
  alters : before.Alters after (done.map (targetPlace out))

section

variable {extension : String} (hkt : extension ≠ "kt")

theorem targetPlace_inj {source' : Place} (h : IsSource listed dir extension source)
    (h' : IsSource listed dir extension source')
    (heq : targetPlace out source = targetPlace out source') : source = source' :=
  h.hasTarget.inj h'.hasTarget (List.append_cancel_left heq)

theorem IsBuilt.mono {places : List Place} (hsource : IsSource listed dir extension source)
    (h : IsBuilt config dir out before middle source) (halters : middle.Alters after places)
    (hkept : Place.ofPath dir ++ source ∉ places) (htarget : targetPlace out source ∉ places) :
    IsBuilt config dir out before after source := by
  obtain ⟨text, kotlin, htext, hcompiled, hread, hholds⟩ := h
  refine ⟨text, kotlin, htext, hcompiled, halters.read?_eq ?_ hread, hholds.mono halters htarget⟩
  rw [Place.ofPath_extend hsource.isPlain]
  exact hkept

include hkt

/-- A unit that is built stays built while others are, and its text is the one from before. -/
theorem Builds.cons {done : List Place}
    (hsources : ∀ s ∈ source :: done, IsSource listed dir extension s) (hnew : source ∉ done)
    (hfirst : Builds config dir out before middle [source])
    (hrest : Builds config dir out middle after done) :
    Builds config dir out before after (source :: done) where
  isBuilt s hs := by
    have hsource := hsources source List.mem_cons_self
    have hdone : ∀ s ∈ done, IsSource listed dir extension s :=
      fun s hs => hsources s (List.mem_cons_of_mem source hs)
    have hkeeps : ∀ s ∈ source :: done, ∀ units : List Place, (∀ u ∈ units, u ∈ source :: done) →
        Place.ofPath dir ++ s ∉ units.map (targetPlace out) := by
      intro s hs units hunits hmem
      obtain ⟨u, hu, heq⟩ := List.mem_map.mp hmem
      exact source_ne_target (hsources s hs) (hsources u (hunits u hu)) hkt heq.symm
    rcases List.mem_cons.mp hs with rfl | hs
    · refine (hfirst.isBuilt s List.mem_cons_self).mono hsource hrest.alters ?_ fun hmem => ?_
      · exact hkeeps s List.mem_cons_self done fun u hu => List.mem_cons_of_mem s hu
      · obtain ⟨u, hu, heq⟩ := List.mem_map.mp hmem
        exact hnew (targetPlace_inj (hdone u hu) hsource heq ▸ hu)
    · obtain ⟨text, kotlin, htext, hcompile, hread, hholds⟩ := hrest.isBuilt s hs
      refine ⟨text, kotlin, ?_, hcompile, hread, hholds⟩
      rw [← hfirst.alters.textAt?_eq, htext]
      exact hkeeps s (List.mem_cons_of_mem source hs) [source] (by simp)
  alters := hfirst.alters.trans hrest.alters

theorem buildSources_ok (hsources : ∀ s ∈ sources, IsSource listed dir extension s)
    (hnodup : sources.Nodup) {paths : List String}
    (h : (buildSources config dir out sources).run.run before = (.ok paths, after)) :
    paths = sources.map (fun s => Path.extend out (targetOf s)) ∧
      Builds config dir out before after sources := by
  induction sources generalizing before paths with
  | nil =>
    cases h
    exact ⟨rfl, by simp, .refl _⟩
  | cons source sources ih =>
    obtain ⟨hnew, hnodup⟩ := List.nodup_cons.mp hnodup
    obtain ⟨path, middle, hhead, hbehind⟩ := Work.bind_ok h
    obtain ⟨paths', middle', hrest, hreturn⟩ := Work.bind_ok hbehind
    cases hreturn
    obtain ⟨rfl, hbuilt, halters⟩ := buildSource_ok (hsources source List.mem_cons_self) hkt hhead
    obtain ⟨rfl, hbuilds⟩ :=
      ih (fun s hs => hsources s (List.mem_cons_of_mem source hs)) hnodup hrest
    exact ⟨rfl, .cons hkt hsources hnew ⟨by simpa using hbuilt, halters⟩ hbuilds⟩

/-- The first unit that fails ends the row, and those in front of it are built. -/
theorem buildSources_error (hsources : ∀ s ∈ sources, IsSource listed dir extension s)
    (hnodup : sources.Nodup)
    (h : (buildSources config dir out sources).run.run before = (.error problem, after)) :
    ∃ done source rest, sources = done ++ source :: rest ∧
      UnitFails config dir out after source problem ∧ Builds config dir out before after done := by
  induction sources generalizing before with
  | nil => cases h
  | cons source sources ih =>
    obtain ⟨hnew, hnodup⟩ := List.nodup_cons.mp hnodup
    rcases Work.bind_error h with hhead | ⟨path, middle, hhead, hrest⟩
    · obtain ⟨halters, hfails⟩ := buildSource_error hhead
      exact ⟨[], source, sources, rfl, hfails, by simp, halters⟩
    · rcases Work.bind_error hrest with hrest | ⟨paths, middle', -, hreturn⟩
      · obtain ⟨-, hbuilt, halters⟩ := buildSource_ok (hsources source List.mem_cons_self) hkt hhead
        obtain ⟨done, unit, rest, rfl, hfails, hbuilds⟩ :=
          ih (fun s hs => hsources s (List.mem_cons_of_mem source hs)) hnodup hrest
        refine ⟨source :: done, unit, rest, rfl, hfails, ?_⟩
        refine .cons hkt (fun s hs => hsources s ?_) (fun hmem => hnew ?_)
          ⟨by simpa using hbuilt, halters⟩ hbuilds
        · exact (List.mem_cons.mp hs).elim (· ▸ List.mem_cons_self) fun hs => by simp [hs]
        · simp [hmem]
      · cases hreturn

end

theorem buildSource_of_isBuilt (hsource : IsSource listed dir config.sourceExtension source)
    (h : IsBuilt config dir out before after source) :
    (buildSource config dir out source).run.run after =
      (.ok (Path.extend out (targetOf source)), after) := by
  obtain ⟨text, kotlin, -, hcompiled, hread, hholds⟩ := h
  have hwrite := Work.writeUnder_of_holds (hsource.hasTarget.isPlain hsource.isPlain)
    hsource.hasTarget.ne_nil hholds
  rw [buildSource, Work.run_bind, Work.run_readFile, hread]
  simp only
  rw [Work.run_bind, Work.run_ofExcept, hcompiled]
  simp only
  rw [Work.run_bind, hwrite]
  rfl

/-- Units that are built can be built again, and nothing changes. -/
theorem buildSources_of_isBuilt
    (hsources : ∀ s ∈ sources, IsSource listed dir config.sourceExtension s)
    (h : ∀ s ∈ sources, IsBuilt config dir out before after s) :
    (buildSources config dir out sources).run.run after =
      (.ok (sources.map fun s => Path.extend out (targetOf s)), after) := by
  induction sources with
  | nil => rfl
  | cons source sources ih =>
    have hrest := ih (fun s hs => hsources s (List.mem_cons_of_mem source hs))
      fun s hs => h s (List.mem_cons_of_mem source hs)
    rw [buildSources, Work.run_bind, buildSource_of_isBuilt (hsources source List.mem_cons_self)
      (h source List.mem_cons_self)]
    simp only
    rw [Work.run_bind, hrest]
    rfl

/-- The places of the files that a module description becomes. -/
def gradlePlaces (out : String) : List Place :=
  [Place.ofPath out ++ ["build.gradle"], Place.ofPath out ++ ["settings.gradle"]]

theorem isPlain_gradle : (∀ name ∈ ["build.gradle"], Path.IsPlain name) ∧
    ∀ name ∈ ["settings.gradle"], Path.IsPlain name := by
  decide

theorem extension?_of_mem_gradlePlaces {place : Place} (h : place ∈ gradlePlaces out) :
    place.extension? = some "gradle" := by
  simp only [gradlePlaces, List.mem_cons, List.not_mem_nil, or_false] at h
  rcases h with rfl | rfl
  · rw [Place.extension?_append (by simp)]
    decide
  · rw [Place.extension?_append (by simp)]
    decide

theorem buildModule_ok {paths : List String}
    (h : (buildModule config dir out).run.run before = (.ok paths, after)) :
    (before.leadsToFile (Path.join dir config.moduleFile) = false ∧ paths = [] ∧
        after = before) ∨
      ∃ text files, before.read? (Path.join dir config.moduleFile) = some text ∧
        compileModule config text = .ok files ∧
        paths = [Path.join out "build.gradle", Path.join out "settings.gradle"] ∧
        after.Holds out ["build.gradle"] files.build ∧
        after.Holds out ["settings.gradle"] files.settings ∧
        before.Alters after (gradlePlaces out) := by
  rw [buildModule, Work.run_get_bind] at h
  split at h
  · obtain ⟨text, middle, hread, hrest⟩ := Work.bind_ok h
    obtain ⟨hsome, rfl⟩ := Work.readFile_ok hread
    obtain ⟨files, middle, hcompile, hrest⟩ := Work.bind_ok hrest
    rw [Work.run_ofExcept] at hcompile
    obtain ⟨hcompiled, rfl⟩ := Prod.mk.inj hcompile
    obtain ⟨_, middle, hbuild, hrest⟩ := Work.bind_ok hrest
    obtain ⟨_, middle', hsettings, hreturn⟩ := Work.bind_ok hrest
    cases hreturn
    obtain ⟨hbuilt, halters⟩ := Work.writeUnder_ok isPlain_gradle.1 (by simp) hbuild
    obtain ⟨hset, halters'⟩ := Work.writeUnder_ok isPlain_gradle.2 (by simp) hsettings
    refine .inr ⟨text, files, hsome, hcompiled, rfl, hbuilt.mono halters' ?_, hset,
      halters.trans halters'⟩
    simp
  · next hmissing =>
    cases h
    exact .inl ⟨Bool.eq_false_iff.mpr hmissing, rfl, rfl⟩

/-- A description cannot be read or fails to compile, or one of its files cannot be written. -/
theorem buildModule_error
    (h : (buildModule config dir out).run.run before = (.error problem, after)) :
    (before.leadsToFile (Path.join dir config.moduleFile) ∧
        before.read? (Path.join dir config.moduleFile) = none ∧
        problem = .inaccessible (Path.join dir config.moduleFile) ∧ after = before) ∨
      ∃ text, before.read? (Path.join dir config.moduleFile) = some text ∧
        ((compileModule config text = .error problem ∧ after = before) ∨
          ∃ files, compileModule config text = .ok files ∧
            ((before.Alters after [] ∧
                (Work.writeUnder out ["build.gradle"] files.build).run.run after =
                  (.error problem, after)) ∨
              (before.Alters after [Place.ofPath out ++ ["build.gradle"]] ∧
                after.Holds out ["build.gradle"] files.build ∧
                (Work.writeUnder out ["settings.gradle"] files.settings).run.run after =
                  (.error problem, after)))) := by
  rw [buildModule, Work.run_get_bind] at h
  split at h
  · next hfile =>
    rcases Work.bind_error h with hread | ⟨text, middle, hread, hrest⟩
    · obtain ⟨hnone, hproblem, hafter⟩ := Work.readFile_error hread
      exact .inl ⟨hfile, hnone, hproblem, hafter⟩
    obtain ⟨hsome, rfl⟩ := Work.readFile_ok hread
    refine .inr ⟨text, hsome, ?_⟩
    rcases Work.bind_error hrest with hcompile | ⟨files, middle, hcompile, hrest⟩
    · rw [Work.run_ofExcept] at hcompile
      obtain ⟨hcompiled, rfl⟩ := Prod.mk.inj hcompile
      exact .inl ⟨hcompiled, rfl⟩
    · rw [Work.run_ofExcept] at hcompile
      obtain ⟨hcompiled, rfl⟩ := Prod.mk.inj hcompile
      refine .inr ⟨files, hcompiled, ?_⟩
      rcases Work.bind_error hrest with hbuild | ⟨_, middle, hbuild, hrest⟩
      · exact .inl (Work.writeUnder_error hbuild)
      · obtain ⟨hbuilt, halters⟩ := Work.writeUnder_ok isPlain_gradle.1 (by simp) hbuild
        rcases Work.bind_error hrest with hsettings | ⟨_, _, -, hreturn⟩
        · obtain ⟨halters', hagain⟩ := Work.writeUnder_error hsettings
          exact .inr ⟨by simpa using halters.trans halters', hbuilt.mono halters' (by simp), hagain⟩
        · cases hreturn
  · cases h

theorem buildModule_of_holds {text : String} {files : GradleFiles}
    (hread : after.read? (Path.join dir config.moduleFile) = some text)
    (hcompiled : compileModule config text = .ok files)
    (hbuild : after.Holds out ["build.gradle"] files.build)
    (hsettings : after.Holds out ["settings.gradle"] files.settings) :
    (buildModule config dir out).run.run after =
      (.ok [Path.join out "build.gradle", Path.join out "settings.gradle"], after) := by
  rw [buildModule, Work.run_get_bind, if_pos (FileTree.leadsToFile_of_read? hread), Work.run_bind,
    Work.run_readFile, hread]
  simp only
  rw [Work.run_bind, Work.run_ofExcept, hcompiled]
  simp only
  rw [Work.run_bind, Work.writeUnder_of_holds isPlain_gradle.1 (by simp) hbuild]
  simp only
  rw [Work.run_bind, Work.writeUnder_of_holds isPlain_gradle.2 (by simp) hsettings]
  rfl

theorem extend_singleton (base name : String) : Path.extend base [name] = Path.join base name :=
  rfl

theorem ofPath_join_gradle :
    [Path.join out "build.gradle", Path.join out "settings.gradle"].map Place.ofPath =
      gradlePlaces out := by
  rw [List.map_cons, List.map_singleton, ← extend_singleton, ← extend_singleton,
    Place.ofPath_extend isPlain_gradle.1, Place.ofPath_extend isPlain_gradle.2, gradlePlaces]

/-- A description that is not among the build files is read once more, and becomes the same. -/
theorem buildModule_again {paths : List String}
    (h : (buildModule config dir out).run.run before = (.ok paths, after))
    (hmodule : Place.ofPath (Path.join dir config.moduleFile) ∉ paths.map Place.ofPath) :
    before.Alters after (gradlePlaces out) ∧
      (after.leadsToFile (Path.join dir config.moduleFile) →
        ∃ text, after.read? (Path.join dir config.moduleFile) = some text) ∧
      after.read? (Path.join dir config.moduleFile) =
        before.read? (Path.join dir config.moduleFile) ∧
      (buildModule config dir out).run.run after = (.ok paths, after) := by
  rcases buildModule_ok h with ⟨hmissing, rfl, rfl⟩ |
      ⟨text, files, hread, hcompiled, rfl, hbuild, hsettings, halters⟩
  · refine ⟨(FileTree.Alters.refl _).weaken (List.nil_subset _), fun hfile => ?_, rfl, h⟩
    rw [hmissing] at hfile
    cases hfile
  · rw [ofPath_join_gradle] at hmodule
    have hstill := halters.read?_eq hmodule hread
    exact ⟨halters, fun _ => ⟨text, hstill⟩, hstill.trans hread.symm,
      buildModule_of_holds hstill hcompiled hbuild hsettings⟩

theorem buildModule_of_none {paths : List String}
    (h : (buildModule config dir out).run.run before = (.ok paths, after))
    (hnone : before.read? (Path.join dir config.moduleFile) = none) :
    paths = [] ∧ after = before := by
  rcases buildModule_ok h with ⟨-, hpaths, hafter⟩ | ⟨text, -, hsome, -⟩
  · exact ⟨hpaths, hafter⟩
  · rw [hnone] at hsome
    cases hsome

theorem buildModule_of_some {paths : List String} {text : String}
    (h : (buildModule config dir out).run.run before = (.ok paths, after))
    (hread : before.read? (Path.join dir config.moduleFile) = some text) :
    ∃ files, compileModule config text = .ok files ∧
      paths = [Path.join out "build.gradle", Path.join out "settings.gradle"] ∧
      after.read? (Path.join out "build.gradle") = some files.build ∧
      after.read? (Path.join out "settings.gradle") = some files.settings := by
  rcases buildModule_ok h with ⟨hmissing, -⟩ |
      ⟨text', files, hsome, hcompiled, hpaths, hbuild, hsettings, -⟩
  · rw [FileTree.leadsToFile_of_read? hread] at hmissing
    cases hmissing
  · obtain rfl := Option.some.inj (hread.symm.trans hsome)
    rw [← extend_singleton, ← extend_singleton] at hpaths ⊢
    exact ⟨files, hcompiled, hpaths, hbuild.read?_eq isPlain_gradle.1 (by simp),
      hsettings.read?_eq isPlain_gradle.2 (by simp)⟩

/-- What a build leaves behind: the targets of `done` hold what their sources compile to, and every
file that is neither a target nor one of the `others` has the bytes it had. -/
structure Leaves (config : Config) (dir out : String) (before after : FileTree)
    (done others : List Place) : Prop where
  target : ∀ source ∈ done, ∃ text kotlin,
    before.textAt? (Place.ofPath dir ++ source) = some text ∧
    compileSource config (Text.joinWith "/" source) text = .ok kotlin ∧
    after.read? (Path.extend out (targetOf source)) = some kotlin
  unchanged : ∀ place, place ∉ done.map (targetPlace out) → place ∉ others →
    after.bytesAt? place = before.bytesAt? place

section

variable {extension : String}

theorem extension?_targetPlace (h : IsSource listed dir extension source) :
    (targetPlace out source).extension? = some "kt" := by
  rw [targetPlace, Place.extension?_append h.hasTarget.ne_nil, h.hasTarget.extension?_eq]

theorem target_not_mem_gradlePlaces (h : IsSource listed dir extension source) :
    targetPlace out source ∉ gradlePlaces out := by
  intro hmem
  have hgradle := extension?_of_mem_gradlePlaces hmem
  rw [extension?_targetPlace h] at hgradle
  exact absurd hgradle (by decide)

variable (hsources : ∀ s ∈ sources, IsSource listed dir extension s)

include hsources

theorem Builds.leaves {others : List Place} (h : Builds config dir out before middle sources)
    (halters : middle.Alters after others) (hothers : others ⊆ gradlePlaces out) :
    Leaves config dir out before after sources others where
  target source hmem := by
    have hsource := hsources source hmem
    obtain ⟨text, kotlin, htext, hcompiled, -, hholds⟩ := h.isBuilt source hmem
    have hlater := hholds.mono halters fun hother =>
      target_not_mem_gradlePlaces hsource (hothers hother)
    exact ⟨text, kotlin, htext, hcompiled,
      hlater.read?_eq (hsource.hasTarget.isPlain hsource.isPlain) hsource.hasTarget.ne_nil⟩
  unchanged place htarget hother := by
    rw [halters.bytesAt?_eq place hother, h.alters.bytesAt?_eq place htarget]

/-- No target is a build file. -/
theorem Leaves.gradle_unchanged (h : Leaves config dir out before after sources []) :
    ∀ place ∈ gradlePlaces out, after.bytesAt? place = before.bytesAt? place := by
  intro place hplace
  refine h.unchanged place (fun htarget => ?_) List.not_mem_nil
  obtain ⟨source, hmem, rfl⟩ := List.mem_map.mp htarget
  exact target_not_mem_gradlePlaces (hsources source hmem) hplace

theorem ofPath_targets :
    (sources.map fun s => Path.extend out (targetOf s)).map Place.ofPath =
      sources.map (targetPlace out) := by
  rw [List.map_map]
  refine List.map_congr_left fun s hs => ?_
  rw [Function.comp_apply, targetPlace,
    Place.ofPath_extend ((hsources s hs).hasTarget.isPlain (hsources s hs).isPlain)]

theorem nodup_targets (hnodup : sources.Nodup) : (sources.map (targetPlace out)).Nodup :=
  List.Nodup.map_on (fun s hs s' hs' => targetPlace_inj (hsources s hs) (hsources s' hs')) hnodup

end

theorem Lists.nodup {tree : FileTree} {extension : String}
    (h : Lists tree dir extension sources) : sources.Nodup :=
  h.ordered.imp fun hpair => hpair.2

theorem build_ok {report : Report}
    (h : (build config dir out).run.run before = (.ok report, after)) :
    ∃ sources middle, discover? before dir config.sourceExtension = some sources ∧
      (buildSources config dir out sources).run.run before = (.ok report.sources, middle) ∧
      (buildModule config dir out).run.run middle = (.ok report.buildFiles, after) := by
  obtain ⟨sources, tree, hdiscover, hrest⟩ := Work.bind_ok h
  rw [run_discover] at hdiscover
  split at hdiscover
  · next hfound =>
    cases hdiscover
    obtain ⟨paths, middle, hunits, hrest⟩ := Work.bind_ok hrest
    obtain ⟨buildFiles, last, hmodule, hreturn⟩ := Work.bind_ok hrest
    cases hreturn
    exact ⟨sources, middle, hfound, hunits, hmodule⟩
  · cases hdiscover

theorem build_error (h : (build config dir out).run.run before = (.error problem, after)) :
    (discover? before dir config.sourceExtension = none ∧ problem = .inaccessible dir ∧
        after = before) ∨
      ∃ sources, discover? before dir config.sourceExtension = some sources ∧
        ((buildSources config dir out sources).run.run before = (.error problem, after) ∨
          ∃ paths middle,
            (buildSources config dir out sources).run.run before = (.ok paths, middle) ∧
            (buildModule config dir out).run.run middle = (.error problem, after)) := by
  rcases Work.bind_error h with hdiscover | ⟨sources, tree, hdiscover, hrest⟩
  · rw [run_discover] at hdiscover
    split at hdiscover
    · cases hdiscover
    · next hnone =>
      cases hdiscover
      exact .inl ⟨hnone, rfl, rfl⟩
  · rw [run_discover] at hdiscover
    split at hdiscover
    · next hfound =>
      cases hdiscover
      refine .inr ⟨sources, hfound, ?_⟩
      rcases Work.bind_error hrest with hunits | ⟨paths, middle, hunits, hrest⟩
      · exact .inl hunits
      · rcases Work.bind_error hrest with hmodule | ⟨_, _, -, hreturn⟩
        · exact .inr ⟨paths, middle, hunits, hmodule⟩
        · cases hreturn
    · cases hdiscover

theorem run_build_of_discover?
    (hfound : discover? before dir config.sourceExtension = some sources) :
    (build config dir out).run.run before =
      (do
        let paths ← buildSources config dir out sources
        let buildFiles ← buildModule config dir out
        return { sources := paths, buildFiles } : Work Report).run.run before := by
  rw [build, Work.run_bind, run_discover, hfound]

theorem run_build {paths buildFiles : List String}
    (hfound : discover? before dir config.sourceExtension = some sources)
    (hunits : (buildSources config dir out sources).run.run before = (.ok paths, middle))
    (hmodule : (buildModule config dir out).run.run middle = (.ok buildFiles, after)) :
    (build config dir out).run.run before = (.ok ⟨paths, buildFiles⟩, after) := by
  rw [run_build_of_discover? hfound, Work.run_bind, hunits]
  simp only
  rw [Work.run_bind, hmodule]
  rfl

/-- Nothing that a build has written has the extension of a source file, so a second build finds the
same files, and finds what they compile to in their targets. -/
theorem build_again {buildFiles : List String}
    (hsources : ∀ s ∈ sources, IsSource before dir config.sourceExtension s)
    (hkt : config.sourceExtension ≠ "kt") (hgradle : config.sourceExtension ≠ "gradle")
    (hfound : discover? before dir config.sourceExtension = some sources)
    (hbuilds : Builds config dir out before middle sources)
    (halters : middle.Alters after (gradlePlaces out))
    (hmodule : (buildModule config dir out).run.run after = (.ok buildFiles, after)) :
    (build config dir out).run.run after =
      (.ok ⟨sources.map fun s => Path.extend out (targetOf s), buildFiles⟩, after) := by
  have hothers : ∀ p ∈ sources.map (targetPlace out) ++ gradlePlaces out,
      p.extension? ≠ some config.sourceExtension := by
    intro p hp heq
    rcases List.mem_append.mp hp with hp | hp
    · obtain ⟨s, hs, rfl⟩ := List.mem_map.mp hp
      rw [extension?_targetPlace (hsources s hs)] at heq
      exact hkt (Option.some.inj heq).symm
    · rw [extension?_of_mem_gradlePlaces hp] at heq
      exact hgradle (Option.some.inj heq).symm
  have hfoundAgain := discover?_eq_of_alters (hbuilds.alters.trans halters) hothers hfound
  have hbuilt : ∀ s ∈ sources, IsBuilt config dir out before after s := by
    intro s hs
    refine (hbuilds.isBuilt s hs).mono (hsources s hs) halters (fun hmem => ?_)
      (target_not_mem_gradlePlaces (hsources s hs))
    exact hothers _ (List.mem_append_right _ hmem) (hsources s hs).extension?_eq
  exact run_build hfoundAgain (buildSources_of_isBuilt hsources hbuilt) hmodule

/-- What a build has done that compiled the source files of a list. -/
structure Completed (config : Config) (dir out : String) (before after : FileTree) (report : Report)
    (sources : List Place) : Prop where
  lists : Lists before dir config.sourceExtension sources
  sources_eq : report.sources = sources.map fun source => Path.extend out (targetOf source)
  /-- No two targets are at one place. -/
  distinct : (report.sources.map Place.ofPath).Nodup
  leaves : Leaves config dir out before after sources (gradlePlaces out)
  description_kept : ∀ text, before.read? (Path.join dir config.moduleFile) = some text →
    after.read? (Path.join dir config.moduleFile) = some text
  /-- What is there in its place is a text. -/
  description_read : after.leadsToFile (Path.join dir config.moduleFile) →
    ∃ text, after.read? (Path.join dir config.moduleFile) = some text
  without_description : after.read? (Path.join dir config.moduleFile) = none →
    report.buildFiles = [] ∧
    ∀ place ∈ gradlePlaces out, after.bytesAt? place = before.bytesAt? place
  with_description : ∀ text, after.read? (Path.join dir config.moduleFile) = some text →
    ∃ files, compileModule config text = .ok files ∧
      report.buildFiles = [Path.join out "build.gradle", Path.join out "settings.gradle"] ∧
      after.read? (Path.join out "build.gradle") = some files.build ∧
      after.read? (Path.join out "settings.gradle") = some files.settings

/--
A build that succeeds has compiled every source file under the directory, once each and in the order
of their paths. The two build files are those of the module description, if there is one, and no
other file is changed. The same build then succeeds with the same report, and changes nothing.
-/
theorem build_completed_and_again {report : Report} (hregular : before.IsRegular)
    (hkt : config.sourceExtension ≠ "kt") (hgradle : config.sourceExtension ≠ "gradle")
    (h : (build config dir out).run.run before = (.ok report, after))
    (hmodule : ∀ path ∈ report.sources ++ report.buildFiles,
      Place.ofPath path ≠ Place.ofPath (Path.join dir config.moduleFile)) :
    ∃ sources, Completed config dir out before after report sources ∧
      (build config dir out).run.run after = (.ok report, after) := by
  obtain ⟨sources, middle, hfound, hunits, hlast⟩ := build_ok h
  have hlists := lists_of_discover? hregular hfound
  have hsources : ∀ s ∈ sources, IsSource before dir config.sourceExtension s :=
    fun s hs => (hlists.mem_iff s).mp hs
  obtain ⟨hpaths, hbuilds⟩ := buildSources_ok hkt hsources hlists.nodup hunits
  have hplaces : report.sources.map Place.ofPath = sources.map (targetPlace out) := by
    rw [hpaths, ofPath_targets hsources]
  obtain ⟨halters, hdescribed, hkept, hmoduleAgain⟩ := buildModule_again hlast fun hmem => by
    obtain ⟨path, hpath, heq⟩ := List.mem_map.mp hmem
    exact hmodule path (List.mem_append_right _ hpath) heq
  refine ⟨sources, ?_, ?_⟩
  · refine ⟨hlists, hpaths, ?_, hbuilds.leaves hsources halters (List.Subset.refl _),
      fun text hread => ?_, hdescribed, fun hnone => ?_, fun text hread => ?_⟩
    · rw [hplaces]
      exact nodup_targets hsources hlists.nodup
    · rw [hkept]
      refine hbuilds.alters.read?_eq (fun hmem => ?_) hread
      obtain ⟨path, hpath, heq⟩ := List.mem_map.mp (hplaces ▸ hmem)
      exact hmodule path (List.mem_append_left _ hpath) heq
    · obtain ⟨hfiles, rfl⟩ := buildModule_of_none hlast (hkept ▸ hnone)
      have hleaves := hbuilds.leaves hsources (.refl after) (List.nil_subset _)
      exact ⟨hfiles, hleaves.gradle_unchanged hsources⟩
    · exact buildModule_of_some hlast (hkept ▸ hread)
  · have hagain := build_again hsources hkt hgradle hfound hbuilds halters hmoduleAgain
    rwa [← hpaths] at hagain

/-- A directory with two units and a file that is not a text. The output is to lie inside it. -/
def twoUnits : FileTree where
  files := [
    (["app", "module.qvm"], "project p\ngroup g\nversion 1".toUTF8),
    (["app", "b.qv"], "class B \x7b\x7d".toUTF8),
    (["app", "a", "b.qv"], "int b;".toUTF8),
    (["app", "notes.bin"], ⟨#[0xff]⟩)]
  directories := [["app"], ["app", "a"]]

def twoUnitsReport : Report where
  sources := ["app/build/src/main/kotlin/a/b.kt", "app/build/src/main/kotlin/b.kt"]
  buildFiles := ["app/build/build.gradle", "app/build/settings.gradle"]

theorem twoUnits_isRegular : twoUnits.IsRegular :=
  FileTree.isRegular_of_isPlain (by decide +kernel) (by decide +kernel)

theorem twoUnits_found : discover? twoUnits "app" "qv" = some [["a", "b.qv"], ["b.qv"]] := by
  have hfind : twoUnits.find? "app" = some ["app"] := by decide +kernel
  exact discover?_eq_of_perm hfind (by decide +kernel) (by decide +kernel)

theorem twoUnits_completed_and_again :
    ∃ after, (build {} "app" "app/build").run.run twoUnits = (.ok twoUnitsReport, after) ∧
      ∃ sources, Completed {} "app" "app/build" twoUnits after twoUnitsReport sources ∧
        (build {} "app" "app/build").run.run after = (.ok twoUnitsReport, after) := by
  have hreport : ((build {} "app" "app/build").run.run twoUnits).1 = .ok twoUnitsReport := by
    rw [run_build_of_discover? twoUnits_found]
    decide +kernel
  have h := Prod.ext (y := (_, _)) hreport rfl
  exact ⟨_, h, build_completed_and_again twoUnits_isRegular (by decide) (by decide) h
    (by decide +kernel)⟩

/-- How a build ends with a problem, and what it leaves behind then. -/
inductive Failed (config : Config) (dir out : String) (before after : FileTree)
    (problem : Problem) : Prop
  /-- The directory is not there. -/
  | missing : before.find? dir = none → problem = .inaccessible dir → after = before →
      Failed config dir out before after problem
  /-- A unit cannot be read, compiled or written. -/
  | unit {sources done rest : List Place} {unit : Place} :
      Lists before dir config.sourceExtension sources → sources = done ++ unit :: rest →
      UnitFails config dir out after unit problem →
      Leaves config dir out before after done [] →
      (∀ place ∈ gradlePlaces out, after.bytesAt? place = before.bytesAt? place) →
      Failed config dir out before after problem
  /-- The module description is there, but its bytes are not those of a text. -/
  | undecodable {sources : List Place} {bytes : ByteArray} :
      Lists before dir config.sourceExtension sources →
      after.bytesAt? (Place.ofPath (Path.join dir config.moduleFile)) = some bytes →
      ¬ bytes.IsValidUTF8 → problem = .inaccessible (Path.join dir config.moduleFile) →
      Leaves config dir out before after sources [] →
      (∀ place ∈ gradlePlaces out, after.bytesAt? place = before.bytesAt? place) →
      Failed config dir out before after problem
  /-- The module description cannot be compiled. -/
  | description {sources : List Place} {text : String} :
      Lists before dir config.sourceExtension sources →
      after.read? (Path.join dir config.moduleFile) = some text →
      compileModule config text = .error problem →
      Leaves config dir out before after sources [] →
      (∀ place ∈ gradlePlaces out, after.bytesAt? place = before.bytesAt? place) →
      Failed config dir out before after problem
  /-- The first of the two build files cannot be written. -/
  | buildFile {sources : List Place} {text : String} {files : GradleFiles} :
      Lists before dir config.sourceExtension sources →
      after.read? (Path.join dir config.moduleFile) = some text →
      compileModule config text = .ok files →
      (Work.writeUnder out ["build.gradle"] files.build).run.run after = (.error problem, after) →
      Leaves config dir out before after sources [] →
      (∀ place ∈ gradlePlaces out, after.bytesAt? place = before.bytesAt? place) →
      Failed config dir out before after problem
  /-- The second cannot be written, and the first one has been. -/
  | settingsFile {sources : List Place} {text : String} {files : GradleFiles} :
      Lists before dir config.sourceExtension sources →
      compileModule config text = .ok files →
      after.read? (Path.join out "build.gradle") = some files.build →
      (Work.writeUnder out ["settings.gradle"] files.settings).run.run after =
        (.error problem, after) →
      Leaves config dir out before after sources [Place.ofPath out ++ ["build.gradle"]] →
      Failed config dir out before after problem

/-- A build that fails leaves the units in front of the failure built, and nothing else changed. -/
theorem build_error_leaves_prefix (hregular : before.IsRegular)
    (hkt : config.sourceExtension ≠ "kt")
    (h : (build config dir out).run.run before = (.error problem, after)) :
    Failed config dir out before after problem := by
  rcases build_error h with ⟨hnone, hproblem, hafter⟩ | ⟨sources, hfound, hrest⟩
  · exact .missing (Option.map_eq_none_iff.mp hnone) hproblem hafter
  have hlists := lists_of_discover? hregular hfound
  have hsources : ∀ s ∈ sources, IsSource before dir config.sourceExtension s :=
    fun s hs => (hlists.mem_iff s).mp hs
  rcases hrest with hunits | ⟨paths, middle, hunits, hmodule⟩
  · obtain ⟨done, unit, rest, heq, hfails, hbuilds⟩ :=
      buildSources_error hkt hsources hlists.nodup hunits
    have hdone : ∀ s ∈ done, IsSource before dir config.sourceExtension s :=
      fun s hs => hsources s (heq ▸ List.mem_append_left _ hs)
    have hleaves := hbuilds.leaves hdone (.refl after) (List.nil_subset _)
    exact .unit hlists heq hfails hleaves (hleaves.gradle_unchanged hdone)
  · obtain ⟨-, hbuilds⟩ := buildSources_ok hkt hsources hlists.nodup hunits
    rcases buildModule_error hmodule with ⟨hfile, hnone, hproblem, rfl⟩ |
        ⟨text, hread, ⟨hcompiled, rfl⟩ |
          ⟨files, hcompiled, ⟨halters, hfails⟩ | ⟨halters, hholds, hfails⟩⟩⟩
    · have hleaves := hbuilds.leaves hsources (.refl after) (List.nil_subset _)
      obtain ⟨bytes, hbytes, hinvalid⟩ := FileTree.undecodable_of_read? hfile hnone
      exact .undecodable hlists hbytes hinvalid hproblem hleaves (hleaves.gradle_unchanged hsources)
    · have hleaves := hbuilds.leaves hsources (.refl after) (List.nil_subset _)
      exact .description hlists hread hcompiled hleaves (hleaves.gradle_unchanged hsources)
    · have hleaves := hbuilds.leaves hsources halters (List.nil_subset _)
      have hread := halters.read?_eq List.not_mem_nil hread
      exact .buildFile hlists hread hcompiled hfails hleaves (hleaves.gradle_unchanged hsources)
    · have hwritten := hholds.read?_eq isPlain_gradle.1 (by simp)
      rw [extend_singleton] at hwritten
      exact .settingsFile hlists hcompiled hwritten hfails
        (hbuilds.leaves hsources halters (by simp [gradlePlaces]))

/-- The second of three units is cut off. -/
def brokenUnit : FileTree where
  files := [
    (["app", "module.qvm"], "project p\ngroup g\nversion 1".toUTF8),
    (["app", "a.qv"], "int a;".toUTF8),
    (["app", "b.qv"], "class".toUTF8),
    (["app", "c.qv"], "int c;".toUTF8)]
  directories := [["app"]]

theorem brokenUnit_isRegular : brokenUnit.IsRegular :=
  FileTree.isRegular_of_isPlain (by decide +kernel) (by decide +kernel)

theorem brokenUnit_found :
    discover? brokenUnit "app" "qv" = some [["a.qv"], ["b.qv"], ["c.qv"]] := by
  have hfind : brokenUnit.find? "app" = some ["app"] := by decide +kernel
  exact discover?_eq_of_perm hfind (by decide +kernel) (by decide +kernel)

theorem brokenUnit_leaves_first :
    ∃ problem after, (build {} "app" "out").run.run brokenUnit = (.error problem, after) ∧
      (brokenUnit.changes after).map (·.1) = [["out", "src", "main", "kotlin", "a.kt"]] ∧
      Failed {} "app" "out" brokenUnit after problem := by
  have hchanges : (brokenUnit.changes ((build {} "app" "out").run.run brokenUnit).2).map (·.1) =
      [["out", "src", "main", "kotlin", "a.kt"]] := by
    rw [run_build_of_discover? brokenUnit_found]
    decide +kernel
  have hfails : ((build {} "app" "out").run.run brokenUnit).1.toOption = none := by
    rw [run_build_of_discover? brokenUnit_found]
    decide +kernel
  cases hproblem : ((build {} "app" "out").run.run brokenUnit).1 with
  | ok report =>
    rw [hproblem] at hfails
    cases hfails
  | error problem =>
    have h := Prod.ext (y := (_, _)) hproblem rfl
    exact ⟨problem, _, h, hchanges, build_error_leaves_prefix brokenUnit_isRegular (by decide) h⟩

end QuovaKotlin.Project
