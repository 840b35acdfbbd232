import QuovaKotlin.Module.Baseline

/-!
# Runs of baselines

Baselines may be asked for any number of times, with other versions and repositories each time. The
two ways to place an entry share one specification, `PutsOnce`: the entry is there once, and all
other entries stay as they are. What a run of calls does to a list follows from it by induction.
-/

set_option autoImplicit false

namespace QuovaKotlin.Module

section

variable {α : Type} [DecidableEq α]

/-- A way to put an entry into a list. The entry is there exactly once afterwards, and no selection
of other entries changes. -/
structure PutsOnce (put : α → List α → List α) : Prop where
  count_self (a : α) (items : List α) : (put a items).count a = 1
  filter_others (a : α) (items : List α) (p : α → Bool) :
    p a = false → (put a items).filter p = items.filter p

theorem filter_of_ne {a : α} {p : α → Bool} (hp : p a = false) (items : List α) :
    (items.filter (· ≠ a)).filter p = items.filter p := by
  rw [List.filter_filter]
  refine List.filter_congr fun x _ => ?_
  by_cases hx : x = a
  · rw [hx, hp, Bool.false_and]
  · rw [decide_eq_true hx, Bool.and_true]

theorem count_filter_ne (a : α) (items : List α) : (items.filter (· ≠ a)).count a = 0 :=
  List.count_eq_zero_of_not_mem fun h => of_decide_eq_true (List.mem_filter.mp h).2 rfl

theorem putFirst_putsOnce : PutsOnce (putFirst (α := α)) where
  count_self a items := by
    rw [putFirst, List.count_cons_self, count_filter_ne]
  filter_others a items p hp := by
    rw [putFirst, List.filter_cons_of_neg (by rw [hp]; exact Bool.false_ne_true), filter_of_ne hp]

theorem keepOnce_putsOnce : PutsOnce (keepOnce (α := α)) where
  count_self a items := by
    induction items with
    | nil => exact List.count_singleton_self
    | cons item items ih =>
      by_cases hitem : item = a
      · rw [keepOnce, if_pos hitem, List.count_cons_self, count_filter_ne]
      · rw [keepOnce, if_neg hitem, List.count_cons_of_ne hitem, ih]
  filter_others a items p hp := by
    have hnot : ¬ p a = true := by rw [hp]; exact Bool.false_ne_true
    induction items with
    | nil => rw [keepOnce, List.filter_cons_of_neg hnot]
    | cons item items ih =>
      by_cases hitem : item = a
      · rw [keepOnce, if_pos hitem, hitem, List.filter_cons_of_neg hnot,
          List.filter_cons_of_neg hnot, filter_of_ne hp]
      · rw [keepOnce, if_neg hitem, List.filter_cons, List.filter_cons, ih]

theorem filter_ne_of_not_mem {a : α} {items : List α} (h : a ∉ items) :
    items.filter (· ≠ a) = items :=
  List.filter_eq_self.mpr fun _ hx => decide_eq_true fun heq => h (heq ▸ hx)

theorem putFirst_putFirst (a : α) (items : List α) :
    putFirst a (putFirst a items) = putFirst a items := by
  have hcons : (a :: items.filter (· ≠ a)).filter (· ≠ a) = items.filter (· ≠ a) := by
    rw [List.filter_cons_of_neg (by simp), List.filter_filter]
    simp
  rw [putFirst, putFirst, hcons]

theorem keepOnce_keepOnce (a : α) (items : List α) :
    keepOnce a (keepOnce a items) = keepOnce a items := by
  induction items with
  | nil => simp [keepOnce]
  | cons item items ih =>
    by_cases hitem : item = a
    · have hrest : a ∉ items.filter (· ≠ a) := List.count_eq_zero.mp (count_filter_ne a items)
      rw [keepOnce, if_pos hitem, keepOnce, if_pos rfl, filter_ne_of_not_mem hrest]
    · rw [keepOnce, if_neg hitem, keepOnce, if_neg hitem, ih]

/-- Puts the entries of the first list one after the other. -/
def putAll (put : α → List α → List α) (baselines items : List α) : List α :=
  baselines.foldl (fun items a => put a items) items

variable {put : α → List α → List α} (hput : PutsOnce put)

include hput

theorem PutsOnce.count_other {a b : α} (hab : b ≠ a) (items : List α) :
    (put b items).count a = items.count a := by
  rw [List.count_eq_length_filter, List.count_eq_length_filter,
    hput.filter_others b items (· == a) (beq_false_of_ne hab)]

/-- What was put at some time, or was there once before, is there once at the end. -/
theorem PutsOnce.count_putAll {a : α} {baselines items : List α}
    (ha : a ∈ baselines ∨ items.count a = 1) : (putAll put baselines items).count a = 1 := by
  induction baselines generalizing items with
  | nil => exact ha.resolve_left List.not_mem_nil
  | cons b baselines ih =>
    by_cases hab : b = a
    · exact ih (.inr (hab ▸ hput.count_self b items))
    · refine ih (ha.imp ?_ fun hcount => ?_)
      · exact fun hmem => (List.mem_cons.mp hmem).resolve_left (Ne.symm hab)
      · rw [hput.count_other hab, hcount]

theorem PutsOnce.filter_putAll {p : α → Bool} {baselines : List α}
    (hp : ∀ a ∈ baselines, p a = false) (items : List α) :
    (putAll put baselines items).filter p = items.filter p := by
  induction baselines generalizing items with
  | nil => rfl
  | cons b baselines ih =>
    have hrest : ∀ a ∈ baselines, p a = false := fun a ha => hp a (List.mem_cons_of_mem b ha)
    calc (putAll put baselines (put b items)).filter p = (put b items).filter p := ih hrest _
      _ = items.filter p := hput.filter_others b items p (hp b List.mem_cons_self)

theorem PutsOnce.filter_not_mem_putAll (baselines items : List α) :
    (putAll put baselines items).filter (· ∉ baselines) = items.filter (· ∉ baselines) :=
  hput.filter_putAll (fun _ ha => decide_eq_false (not_not_intro ha)) items

theorem PutsOnce.count_putAll_of_not_mem {a : α} {baselines : List α} (ha : a ∉ baselines)
    (items : List α) : (putAll put baselines items).count a = items.count a := by
  have hne : ∀ b ∈ baselines, (b == a) = false :=
    fun b hb => beq_false_of_ne fun heq => ha (heq ▸ hb)
  rw [List.count_eq_length_filter, List.count_eq_length_filter, hput.filter_putAll hne]

/-- How often an entry is there at the end does not depend on the order of the run. -/
theorem PutsOnce.putAll_perm {baselines others : List α} (h : baselines.Perm others)
    (items : List α) : (putAll put baselines items).Perm (putAll put others items) := by
  refine List.perm_iff_count.mpr fun a => ?_
  by_cases ha : a ∈ baselines
  · rw [hput.count_putAll (.inl ha), hput.count_putAll (.inl (h.mem_iff.mp ha))]
  · have hothers : a ∉ others := fun hmem => ha (h.mem_iff.mpr hmem)
    rw [hput.count_putAll_of_not_mem ha, hput.count_putAll_of_not_mem hothers]

end

namespace Description

/-- Asks for a baseline with each Kotlin version and repository of the list, in order. -/
def withBaselines (calls : List (String × String)) (description : Description) : Description :=
  calls.foldl (fun description call => description.withBaseline call.1 call.2) description

/-- The plugins that a run of calls asks for. -/
def baselinePlugins (calls : List (String × String)) : List Plugin :=
  calls.map fun call => kotlinPlugin call.1

/-- The repositories that a run of calls asks for. -/
def baselineRepositories (calls : List (String × String)) : List Repository :=
  calls.map fun call => .named call.2

/-- The two lists change independently of each other, and nothing else changes. -/
theorem withBaselines_eq (calls : List (String × String)) (description : Description) :
    description.withBaselines calls =
      { description with
        plugins := putAll putFirst (baselinePlugins calls) description.plugins
        repositories := putAll keepOnce (baselineRepositories calls) description.repositories } := by
  induction calls generalizing description with
  | nil => rfl
  | cons call calls ih => exact ih _

theorem withBaseline_withBaseline (version repository : String) (description : Description) :
    (description.withBaseline version repository).withBaseline version repository =
      description.withBaseline version repository := by
  simp only [withBaseline, putFirst_putFirst, keepOnce_keepOnce]

theorem withBaselines_concat (calls : List (String × String)) (call : String × String)
    (description : Description) :
    description.withBaselines (calls ++ [call]) =
      (description.withBaselines calls).withBaseline call.1 call.2 :=
  List.foldl_append

/-- A description with an older Kotlin plugin and a repository named twice. -/
def olderKotlin : Description where
  project := "demo"
  group := "org.demo"
  version := "1"
  plugins := [.declared "application" none, kotlinPlugin "1.3", .declared "application" none]
  repositories := [.named "jcenter", .raw "local()", .named "jcenter"]
  dependencies := []
  definitions := []
  options := []

def threeCalls : List (String × String) :=
  [("1.4", "google"), ("1.3", "jcenter"), ("1.4", "mavenCentral")]

end Description

end QuovaKotlin.Module
