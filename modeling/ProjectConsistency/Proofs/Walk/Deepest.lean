import ProjectConsistency.Proofs.Walk.Coherent

/-!
# Deepest — which entry is named when a project is too deep

A walk reports files and directories among each other, and a snapshot lists them apart.  This file
defines:

* `Walk.firstAt?` — the first entry at a depth that a walk reports;
* `Walk.firstDirectoryAt?` — the first directory at a depth.

The entry that is named is looked for among the directories first, so it is the first directory at the
greatest depth, and the first entry only if there is no such directory (`find?_listed`).  It is the first
entry of the walk at that depth just if this is a directory or no directory is as deep
(`target_tooDeep_iff`, `deepest_not_first`).
-/

namespace ProjectConsistency

open FileSystem Walk Walk.Event

namespace Walk

def firstAt? (depth : Nat) (events : List Event) : Option Event :=
  events.find? fun e => e.isEntry && e.depth = depth

def firstDirectoryAt? (depth : Nat) (events : List Event) : Option Event :=
  events.find? fun e => e.namesDirectory && e.depth = depth

variable {events : List Event} {depth : Nat} {e : Event}

theorem Event.isEntry_of_namesDirectory (h : e.namesDirectory = true) : e.isEntry = true := by
  cases e with
  | directory _ => rfl
  | file _ _ => cases h
  | unreadable _ _ => cases h
  | cancelled => cases h

/-- What is found at a depth is an entry at this depth. -/
theorem firstAt?_cases (h : firstAt? depth events = some e) :
    e ∈ events ∧ e.isEntry = true ∧ e.depth = depth := by
  have hfound := List.find?_some h
  exact ⟨List.mem_of_find?_eq_some h, by simpa using hfound⟩

theorem firstDirectoryAt?_cases (h : firstDirectoryAt? depth events = some e) :
    e ∈ events ∧ e.namesDirectory = true ∧ e.depth = depth := by
  have hfound := List.find?_some h
  exact ⟨List.mem_of_find?_eq_some h, by simpa using hfound⟩

/-- No directory is found at a depth where there is none. -/
theorem firstDirectoryAt?_eq_none_iff :
    firstDirectoryAt? depth events = none ↔
      ∀ e ∈ events, e.namesDirectory = true → e.depth ≠ depth := by
  simp [firstDirectoryAt?, List.find?_eq_none]

/-- If the first entry is a directory, it is the first directory. -/
theorem firstDirectoryAt?_of_firstAt? (h : firstAt? depth events = some e)
    (hdirectory : e.namesDirectory = true) : firstDirectoryAt? depth events = some e := by
  obtain ⟨hhere, before, after, hevents, hbefore⟩ := List.find?_eq_some_iff_append.1 h
  refine List.find?_eq_some_iff_append.2 ⟨?_, before, after, hevents, ?_⟩
  · have hdepth : e.depth = depth := (firstAt?_cases h).2.2
    simp [hdirectory, hdepth]
  · intro other hother
    have hnot := hbefore other hother
    cases hnames : other.namesDirectory with
    | false => rfl
    | true => simpa [Event.isEntry_of_namesDirectory hnames] using hnot

end Walk

namespace Analysis

variable {events : List Event}

/-- Of the directories at a depth the first is found. -/
theorem find?_directories (hproper : ∀ e ∈ events, e.Proper) (depth : Nat) :
    (events.filterMap Event.directory?).find? (fun path => depthOf path = depth)
      = (firstDirectoryAt? depth events).map fun e => pathText e.path := by
  induction events with
  | nil => rfl
  | cons e events ih =>
      obtain ⟨he, hothers⟩ := List.forall_mem_cons.1 hproper
      cases e with
      | directory path =>
          have hdepth : depthOf (pathText path) = path.length := depthOf_pathText he rfl
          by_cases hhere : path.length = depth
          · simp [firstDirectoryAt?, directory?, namesDirectory, Event.depth, hdepth, hhere, Event.path]
          · simpa [firstDirectoryAt?, directory?, namesDirectory, Event.depth, hdepth, hhere]
              using ih hothers
      | file _ _ => simpa [firstDirectoryAt?, directory?, namesDirectory] using ih hothers
      | unreadable _ _ => simpa [firstDirectoryAt?, directory?, namesDirectory] using ih hothers
      | cancelled => simpa [firstDirectoryAt?, directory?, namesDirectory] using ih hothers

/-- Where no directory is at a depth, the first file at it is the first entry. -/
theorem find?_files (hproper : ∀ e ∈ events, e.Proper) {depth : Nat}
    (hnone : firstDirectoryAt? depth events = none) :
    ((events.filterMap Event.file?).map Prod.fst).find? (fun path => depthOf path = depth)
      = (firstAt? depth events).map fun e => pathText e.path := by
  induction events with
  | nil => rfl
  | cons e events ih =>
      obtain ⟨he, hothers⟩ := List.forall_mem_cons.1 hproper
      have hrest : firstDirectoryAt? depth events = none :=
        firstDirectoryAt?_eq_none_iff.2 fun d hd =>
          firstDirectoryAt?_eq_none_iff.1 hnone d (List.mem_cons_of_mem _ hd)
      cases e with
      | directory path =>
          have hother : path.length ≠ depth :=
            firstDirectoryAt?_eq_none_iff.1 hnone _ List.mem_cons_self rfl
          simpa [firstAt?, file?, Event.depth, hother] using ih hothers hrest
      | file path content =>
          have hdepth : depthOf (pathText path) = path.length := depthOf_pathText he rfl
          by_cases hhere : path.length = depth
          · simp [firstAt?, file?, isEntry, Event.shape?, Event.depth, hdepth, hhere, Event.path]
          · simpa [firstAt?, file?, Event.depth, hdepth, hhere] using ih hothers hrest
      | unreadable _ _ => simpa [firstAt?, file?, isEntry, Event.shape?] using ih hothers hrest
      | cancelled => simpa [firstAt?, file?, isEntry, Event.shape?] using ih hothers hrest

/-- Of all that is listed at a depth, the first directory is found, or else the first entry. -/
theorem find?_listed (hproper : ∀ e ∈ events, e.Proper) (depth : Nat) :
    (events.filterMap Event.directory? ++ (events.filterMap Event.file?).map Prod.fst).find?
        (fun path => depthOf path = depth)
      = ((firstDirectoryAt? depth events).or (firstAt? depth events)).map fun e => pathText e.path := by
  rw [List.find?_append, find?_directories hproper]
  cases hdirectory : firstDirectoryAt? depth events with
  | some e => rfl
  | none => exact find?_files hproper hdirectory

/-- If anything is reported below the root, there is an entry at the greatest depth. -/
theorem exists_firstAt? (hpos : 0 < (events.map Event.depth).foldl max 0) :
    ∃ first, firstAt? ((events.map Event.depth).foldl max 0) events = some first := by
  generalize hmax : (events.map Event.depth).foldl max 0 = depth at hpos
  obtain ⟨e, he, hdepth⟩ : ∃ e ∈ events, e.depth = depth := by
    rw [foldl_max_eq] at hmax
    cases hfound : (events.map Event.depth).max? with
    | none =>
        rw [hfound] at hmax
        exact absurd hmax (Nat.ne_of_lt hpos)
    | some found =>
        obtain ⟨e, he, hdepth⟩ := List.mem_map.1 (List.max?_mem hfound)
        rw [hfound] at hmax
        exact ⟨e, he, hdepth.trans hmax⟩
  have hentry : e.isEntry = true := by
    cases e with
    | directory _ => rfl
    | file _ _ => rfl
    | unreadable _ _ => exact absurd hdepth (Nat.ne_of_lt hpos)
    | cancelled => exact absurd hdepth (Nat.ne_of_lt hpos)
  refine Option.isSome_iff_exists.1 (List.find?_isSome.2 ⟨e, he, ?_⟩)
  simp [hentry, hdepth]

/-- The issue about a snapshot that is too deep names the first directory at the greatest depth, or else
the first entry. -/
theorem target_tooDeep {rules : StructureRules} {s : Snapshot} {first : Event}
    (hproper : ∀ e ∈ events, e.Proper) (hdirectories : s.directories = events.filterMap Event.directory?)
    (hfiles : s.files = (events.filterMap Event.file?).map Prod.fst)
    (hfirst : firstAt? s.maxDepth events = some first) (hdeep : rules.maxDepth < s.maxDepth) :
    ∃ issue, Rules.Structure.tooDeep rules s = [issue] ∧
      issue.target = some (pathText ((firstDirectoryAt? s.maxDepth events).getD first).path) := by
  refine ⟨_, if_pos hdeep, ?_⟩
  show Rules.Structure.deepest? s = _
  rw [Rules.Structure.deepest?, hdirectories, hfiles, find?_listed hproper, hfirst]
  cases firstDirectoryAt? s.maxDepth events <;> rfl

/-- That is the first entry just if it is a directory, or no directory is found. -/
theorem getD_eq_first_iff (hproper : ∀ e ∈ events, e.Proper)
    (hdistinct : events.Pairwise fun a b => a.path ≠ b.path) {depth : Nat} {first : Event}
    (hfirst : firstAt? depth events = some first) :
    pathText ((firstDirectoryAt? depth events).getD first).path = pathText first.path ↔
      first.namesDirectory = true ∨ firstDirectoryAt? depth events = none := by
  constructor
  · intro hsame
    cases hdirectory : firstDirectoryAt? depth events with
    | none => exact .inr rfl
    | some d =>
        -- Two events of one walk have the same path only if they are the same.
        obtain ⟨hd, hnames, _⟩ := firstDirectoryAt?_cases hdirectory
        obtain ⟨hmem, hentry, _⟩ := firstAt?_cases hfirst
        have hshape : (d.shape?).isSome := d.isEntry_of_namesDirectory hnames
        have hpath : d.path = first.path := by
          refine pathText_injective ((hproper d hd).ne_nil hshape) ((hproper first hmem).ne_nil hentry)
            (hproper d hd).plain (hproper first hmem).plain ?_
          simpa [hdirectory] using hsame
        obtain rfl : d = first := by
          by_contra hne
          have hsymm : Std.Symm fun a b : Event => a.path ≠ b.path := ⟨fun _ _ h => h.symm⟩
          exact hdistinct.forall hd hmem hne hpath
        exact .inl hnames
  · rintro (hnames | hnone)
    · rw [firstDirectoryAt?_of_firstAt? hfirst hnames, Option.getD_some]
    · rw [hnone, Option.getD_none]

/-- No directory is found at a depth just if none is listed there. -/
theorem listed_depth_ne_iff (hproper : ∀ e ∈ events, e.Proper) (depth : Nat) :
    (∀ d ∈ events.filterMap Event.directory?, depthOf d ≠ depth) ↔
      firstDirectoryAt? depth events = none := by
  have hfind := find?_directories hproper depth
  rw [← Option.map_eq_none_iff (f := fun e : Event => pathText e.path), ← hfind, List.find?_eq_none]
  simp only [decide_eq_true_eq, ne_eq]

/--
A project that is deeper than allowed gives one issue about it.  The issue names the first directory at
the greatest depth, and the first entry only if no directory is that deep.  So it names the first of all
entries at that depth, in the order of the walk, just if this is a directory or no directory is that deep.
-/
theorem target_tooDeep_iff {fs : FileSystem} (hfs : fs.tree.WellFormed) {settings : Settings}
    {path : String} {s : Snapshot} (hs : analyze fs settings path = .ok s)
    (hdeep : settings.standards.structural.maxDepth < s.maxDepth) :
    ∃ filter first issue, NameFilter.ofPatterns settings.scanner.exclude = .ok filter ∧
      let events := walk fs filter settings.scanner.followLinks path
      firstAt? s.maxDepth events = some first ∧
        Rules.Structure.tooDeep settings.standards.structural s = [issue] ∧
        issue.target
          = some (pathText ((firstDirectoryAt? s.maxDepth events).getD first).path) ∧
        (issue.target = some (pathText first.path) ↔
          first.namesDirectory = true ∨ ∀ d ∈ s.directories, depthOf d ≠ s.maxDepth) := by
  obtain ⟨_, root, entries, hlocate, _⟩ := cases_of_analyze hs
  obtain ⟨filter, hfilter, rfl⟩ := filter_of_analyze hfs hlocate hs
  have hproper := proper_walk hfs filter settings.scanner.followLinks path
  have hdistinct := (spread_walk hfs hlocate filter settings.scanner.followLinks).distinct
  obtain ⟨first, hfirst⟩ := exists_firstAt? (Nat.zero_lt_of_lt hdeep)
  obtain ⟨issue, hissue, htarget⟩ := target_tooDeep hproper rfl rfl hfirst hdeep
  refine ⟨filter, first, issue, hfilter, hfirst, hissue, htarget, ?_⟩
  rw [htarget, Option.some_inj]
  exact (getD_eq_first_iff hproper hdistinct hfirst).trans
    (or_congr_right (listed_depth_ne_iff hproper _).symm)

/-! ## A sample -/

def laterProject : Node :=
  .directory [
    ("lib", .directory [("a.ts", .file ⟨#[120]⟩)]),
    ("src", .directory [("b", .directory [])])]

def laterSample : FileSystem where
  tree := .directory [("app", laterProject)]

def shallowSettings : Settings :=
  { standards := { structural := { maxDepth := 1 } }, scanner := { exclude := [] } }

theorem wellFormed_laterSample : laterSample.tree.WellFormed :=
  have hlib : (Node.directory [("a.ts", .file ⟨#[120]⟩)]).WellFormed :=
    .cons (by decide) (by decide) (by decide) (.file _) .nil
  have hsrc : (Node.directory [("b", .directory [])]).WellFormed :=
    .cons (by decide) (by decide) (by decide) .nil .nil
  have hproject : laterProject.WellFormed :=
    .cons (by decide) (by decide) (by decide) hlib
      (.cons (by decide) (by decide) (by decide) hsrc .nil)
  .cons (by decide) (by decide) (by decide) hproject .nil

theorem walk_laterSample : walk laterSample ⟨[], []⟩ true "/app" =
    [.directory ["lib"], .file ["lib", "a.ts"] ⟨#[120]⟩, .directory ["src"],
      .directory ["src", "b"]] := by
  have hsorted : laterSample.tree.sorted = laterSample.tree := by
    simp [laterSample, laterProject, Node.sorted, Node.sortedEntries, List.mergeSort,
      Node.inOrder_eq, RawName.isText, RawName.mark, List.MergeSort.Internal.splitInTwo]
  have hlocate : laterSample.locate true "/app" = .ok (["app"], laterProject) := rfl
  rw [walk_of_sorted hsorted hlocate]
  rfl

theorem analyze_laterSample :
    ∃ s, analyze laterSample shallowSettings "/app" = .ok s ∧
      s.directories = ["lib", "src", "src/b"] ∧ s.files = ["lib/a.ts"] ∧ s.maxDepth = 2 := by
  have hfilter : NameFilter.ofPatterns shallowSettings.scanner.exclude = .ok ⟨[], []⟩ := rfl
  have hlocate : laterSample.locate true "/app" = .ok (["app"], laterProject) := rfl
  exact ⟨_, analyze_eq_ok wellFormed_laterSample hfilter hlocate rfl walk_laterSample, rfl, rfl, rfl⟩

/-- The file comes first in the walk, and the directory after it is named. -/
theorem target_tooDeep_iff_later :
    ∃ s first issue, analyze laterSample shallowSettings "/app" = .ok s ∧
      shallowSettings.standards.structural.maxDepth < s.maxDepth ∧
      firstAt? s.maxDepth (walk laterSample ⟨[], []⟩ true "/app") = some first ∧
      Rules.Structure.tooDeep shallowSettings.standards.structural s = [issue] ∧
      issue.target = some "src/b" ∧ pathText first.path = "lib/a.ts" := by
  obtain ⟨s, hs, _, _, hmax⟩ := analyze_laterSample
  have hdeep : shallowSettings.standards.structural.maxDepth < s.maxDepth := by
    rw [hmax]
    decide
  obtain ⟨filter, first, issue, hfilter, hfirst, hissue, htarget, _⟩ :=
    target_tooDeep_iff wellFormed_laterSample hs hdeep
  obtain rfl : filter = ⟨[], []⟩ := (Except.ok.inj hfilter).symm
  have hwalk : walk laterSample ⟨[], []⟩ shallowSettings.scanner.followLinks "/app" = _ :=
    walk_laterSample
  rw [hmax, hwalk] at htarget
  have hfound := hfirst
  rw [hmax, hwalk] at hfound
  obtain rfl : first = .file ["lib", "a.ts"] ⟨#[120]⟩ := (Option.some.inj hfound).symm
  exact ⟨s, _, issue, hs, hdeep, hfirst, hissue, htarget.trans (by decide), rfl⟩

/-- So the first entry at the greatest depth is not the one that is named. -/
theorem deepest_not_first :
    ¬ ∀ (fs : FileSystem) (settings : Settings) (path : String) (s : Snapshot) (filter : NameFilter)
        (first : Event) (issue : Issue),
      fs.tree.WellFormed → analyze fs settings path = .ok s →
      settings.standards.structural.maxDepth < s.maxDepth →
      NameFilter.ofPatterns settings.scanner.exclude = .ok filter →
      firstAt? s.maxDepth (walk fs filter settings.scanner.followLinks path) = some first →
      issue ∈ Rules.Structure.tooDeep settings.standards.structural s →
      issue.target = some (pathText first.path) := by
  intro hclaim
  obtain ⟨s, hs, hdirectories, hfiles, hmax⟩ := analyze_laterSample
  have hdeep : shallowSettings.standards.structural.maxDepth < s.maxDepth := by
    rw [hmax]
    decide
  have hwalk : walk laterSample ⟨[], []⟩ shallowSettings.scanner.followLinks "/app" = _ :=
    walk_laterSample
  -- The walk comes to the file first; the search goes through the directories before.
  have hfirst : firstAt? s.maxDepth (walk laterSample ⟨[], []⟩ shallowSettings.scanner.followLinks "/app")
      = some (.file ["lib", "a.ts"] ⟨#[120]⟩) := by
    rw [hmax, hwalk]
    rfl
  have htarget := hclaim laterSample shallowSettings "/app" s ⟨[], []⟩ _ _ wellFormed_laterSample hs hdeep
    rfl hfirst (by rw [Rules.Structure.tooDeep, if_pos hdeep]; exact List.mem_singleton_self _)
  have hnamed : Rules.Structure.deepest? s = some "src/b" := by
    rw [Rules.Structure.deepest?, hdirectories, hfiles, hmax]
    decide
  exact absurd (hnamed.symm.trans htarget) (by decide)

end Analysis
end ProjectConsistency
