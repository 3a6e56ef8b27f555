import ProjectConsistency.Proofs.Walk.Inventory

/-!
# Opened — a directory that is reported is reported with its entries

A directory is reported when it is opened, whether it was met as an entry or behind a link.  This
file defines:

* `Walk.Shows` — an event reports an entry of a directory that is kept and is no link;
* `Walk.Yields` — an event is reported when an entry has its turn.

By the run of a walk, all that is left of open directories still has its turn (`Run.yields`), so the
entries of a directory that is reported and can be read have theirs, and its path leads to it
(`Run.opens`).  A directory that a snapshot lists was reported (`Analysis.reported_of_listed`).
-/

namespace ProjectConsistency
namespace Walk

variable {plan : Plan}

/-- The event reports an entry of the directory at a path, which is kept and is no link. -/
inductive Shows (filter : NameFilter) (path : List String) : String → Node → Event → Prop where
  | file {name : String} (content : ByteArray) (hkept : filter.isExcluded name false = false) :
      Shows filter path name (.file content) (.file (path ++ [name]) content)
  | directory {name : String} (entries : List (String × Node))
      (hkept : filter.isExcluded name true = false) :
      Shows filter path name (.directory entries) (.directory (path ++ [name]))

/-- When an entry of the directory at a path has its turn, the event is reported. -/
def Yields (plan : Plan) (failure : Failures) (path : List String) (name : String) (node : Node)
    (e : Event) : Prop :=
  ∀ pos : Position, pos.path = path → ∀ below linked,
    e ∈ (Iterator.turn plan failure pos name below linked node).events

theorem Shows.yields {path : List String} {name : String} {node : Node} {e : Event}
    (h : Shows plan.filter path name node e) : Yields plan noFailure path name node e := by
  intro pos hpos below linked
  cases h with
  | file content hkept => simp [Iterator.turn, Iterator.fileEvent, noFailure, hkept, hpos]
  | directory entries hkept =>
      simp [Iterator.turn, hkept, hpos, Iterator.opened_noFailure, Position.child]

namespace Iterator

variable {failure : Failures}

/-- Opening a directory yields no directory but the one opened. -/
theorem directory_mem_opened_iff {pos : Position} {entries : List (String × Node)}
    {entered : Option Location} {below : List Frame} {linked : Linked} {path : List String} :
    Event.directory path ∈ (opened failure pos entries entered below linked).events ↔
      path = pos.path := by
  cases hfailure : failure.opening pos.path <;> simp [opened, hfailure]

/-- Opening a directory keeps the frames below. -/
theorem subset_opened (pos : Position) (entries : List (String × Node)) (entered : Option Location)
    (below : List Frame) (linked : Linked) :
    below ⊆ (opened failure pos entries entered below linked).next.stack := by
  cases hfailure : failure.opening pos.path <;> simp [opened, hfailure]

/-- A turn leaves the directories open that are open below it. -/
theorem subset_turn (plan : Plan) (failure : Failures) (pos : Position) (name : String)
    (node : Node) (below : List Frame) (linked : Linked) :
    below ⊆ (turn plan failure pos name below linked node).next.stack := by
  cases node with
  | file _ =>
      by_cases hexcluded : plan.filter.isExcluded name false = true <;> simp [turn, hexcluded]
  | directory _ =>
      by_cases hexcluded : plan.filter.isExcluded name true = true
      · simp [turn, hexcluded]
      · simpa [turn, hexcluded] using subset_opened _ _ _ _ _
  | link _ =>
      cases hpassage : passage plan failure pos name linked with
      | passed _ => simp [turn, hpassage]
      | into _ _ => simpa [turn, hpassage] using subset_opened _ _ _ _ _

/-- Until no directory is open any more, everything that is left of open directories has its turn.
-/
theorem Run.yields {it last : Iterator} {emitted : List (Nat × Event)} {entered : List Location}
    (h : Run plan failure it emitted entered last) (hlast : last.stack = []) {pos : Position}
    {entries : List (String × Node)} (hopen : (pos, entries) ∈ it.stack) {name : String}
    {node : Node} (hmem : (name, node) ∈ entries) {e : Event}
    (he : Yields plan failure pos.path name node e) : e ∈ emitted.map Prod.snd := by
  induction h generalizing entries with
  | here it => simp [hlast] at hopen
  | @step it last t emitted entered hstep _ ih =>
      rw [map_snd_step, List.mem_append]
      obtain ⟨stack, linked⟩ := it
      cases stack with
      | nil => simp at hopen
      | cons frame below =>
          obtain ⟨top, left⟩ := frame
          cases left with
          | nil =>
              obtain rfl : (⟨[], none, ⟨below, linked⟩⟩ : Turn) = t := Option.some.inj hstep
              -- The innermost directory has nothing left, so the entry is in one below it.
              have hbelow : (pos, entries) ∈ below := by
                rcases List.mem_cons.1 hopen with heq | hbelow
                · cases heq
                  simp at hmem
                · exact hbelow
              exact .inr (ih hlast hbelow hmem)
          | cons entry rest =>
              obtain ⟨first, child⟩ := entry
              obtain rfl : turn plan failure top first ((top, rest) :: below) linked child = t :=
                Option.some.inj hstep
              have hkept := subset_turn plan failure top first child ((top, rest) :: below) linked
              -- It is the entry of this turn, a later one of the same directory, or one below.
              rcases List.mem_cons.1 hopen with heq | hbelow
              · cases heq
                rcases List.mem_cons.1 hmem with heq | hrest
                · cases heq
                  exact .inl (he _ rfl _ _)
                · exact .inr (ih hlast (hkept (by simp)) hrest)
              · exact .inr (ih hlast (hkept (List.mem_cons_of_mem _ hbelow)) hmem)

/-- The step that reports a directory opens it if it can be read, and its path leads to it. -/
theorem opened_of_step {it : Iterator} {t : Turn} (h : it.step plan failure = some t)
    (hplaced : ∀ frame ∈ it.stack, Placed plan frame) {path : List String}
    (hpath : Event.directory path ∈ t.events) (hreadable : failure.opening path = none) :
    ∃ pos entries, (pos, entries) ∈ t.next.stack ∧ pos.path = path ∧
      plan.follow path = .ok (.found pos.at' (.directory entries)) := by
  cases step_cases h with
  | leave => simp at hpath
  | pass _ _ _ _ _ hnone => exact absurd hpath (hnone path)
  | @descend pos name entries rest below linked _ =>
      obtain rfl : path = (pos.child name).path := directory_mem_opened_iff.1 hpath
      rw [opened_of_readable _ _ _ _ hreadable]
      exact ⟨pos.child name, entries, by simp, rfl,
        hplaced _ List.mem_cons_self name entries List.mem_cons_self⟩
  | @jump pos name _ _ _ _ target entries hentered =>
      obtain rfl : path = (pos.linked name target).path := directory_mem_opened_iff.1 hpath
      rw [opened_of_readable _ _ _ _ hreadable]
      exact ⟨pos.linked name target, entries, by simp, rfl, hentered.leads⟩

/-- A directory that is reported and can be read is one to which its path leads, and all its entries
have their turn. -/
theorem Run.opens (hwell : plan.tree.WellFormed) {it last : Iterator}
    {emitted : List (Nat × Event)} {entered : List Location}
    (h : Run plan failure it emitted entered last) (hlast : last.stack = [])
    (hplaced : ∀ frame ∈ it.stack, Placed plan frame) {path : List String}
    (hpath : Event.directory path ∈ emitted.map Prod.snd) (hreadable : failure.opening path = none) :
    ∃ at' entries, plan.follow path = .ok (.found at' (.directory entries)) ∧
      ∀ name node e, (name, node) ∈ entries → Yields plan failure path name node e →
        e ∈ emitted.map Prod.snd := by
  induction h with
  | here it => simp at hpath
  | @step it last t emitted entered hstep next ih =>
      rw [map_snd_step, List.mem_append] at hpath
      simp only [map_snd_step, List.mem_append]
      rcases hpath with hnow | hlater
      · rcases opened_of_step hstep hplaced hnow hreadable with ⟨pos, entries, hopen, rfl, hleads⟩
        exact ⟨_, _, hleads, fun _ _ _ hmem he => .inr (next.yields hlast hopen hmem he)⟩
      · rcases ih hlast (placed_step hwell hstep hplaced) hlater with
          ⟨at', entries, hleads, hyields⟩
        exact ⟨at', entries, hleads, fun _ _ _ hmem he => .inr (hyields _ _ _ hmem he)⟩

end Iterator

/-! ## Whole walks -/

/-- The root and every directory that a run reports lie where their paths lead, and their entries
are shown. -/
theorem opens_run (hwell : plan.tree.WellFormed)
    (hroot : plan.follow [] = .ok (.found plan.root (.directory plan.entries)))
    {names : List String} (hnames : names = [] ∨ Event.directory names ∈ plan.run.1) :
    ∃ at' entries, plan.follow names = .ok (.found at' (.directory entries)) ∧
      ∀ name node e, (name, node) ∈ entries → Shows plan.filter names name node e →
        e ∈ plan.run.1 := by
  obtain ⟨emitted, entered, hrun, hevents⟩ := emits_run plan
  rw [Iterator.start_of_readable rfl] at hrun
  rw [← hevents] at hnames ⊢
  rcases hnames with rfl | hreported
  · have hopen : ((⟨plan.root, [], []⟩, plan.entries) : Frame)
        ∈ [((⟨plan.root, [], []⟩, plan.entries) : Frame)] := by simp
    exact ⟨_, _, hroot, fun name node e hmem he => hrun.yields rfl hopen hmem he.yields⟩
  · have hplaced : Placed plan (⟨plan.root, [], []⟩, plan.entries) := placed_of_follow hwell hroot
    rcases hrun.opens hwell rfl (by simpa using hplaced) hreported rfl with
      ⟨at', entries, hleads, hyields⟩
    exact ⟨at', entries, hleads, fun name node e hmem he => hyields name node e hmem he.yields⟩

section

open FileSystem

variable {fs : FileSystem} {filter : NameFilter} {followLinks : Bool} {path : String}
  {root : Location} {project : Node}

/-- What a path below the root names is found from the top through the names of the root. -/
theorem leads_of_follow_ofRoot (hfs : fs.tree.WellFormed)
    (hlocate : fs.locate true path = .ok (root, project)) (hproject : project.isDirectory = true)
    {names : List String} {at' : Location} {node : Node}
    (h : (Plan.ofRoot fs filter followLinks path root).follow names = .ok (.found at' node)) :
    Leads fs.tree.sorted true linkLimit [] (root ++ names) (.found at' node) := by
  have hnode : fs.tree.sorted.get? root = some project.sorted := by
    simp [hfs.get?_sorted, Analysis.get?_of_locate hlocate]
  have hentry : ∀ n ∈ root, EntryName n := fun n hn =>
    let hname := hfs.names_of_get? (Analysis.get?_of_locate hlocate) n hn
    hname.1.entryName hname.2
  have hdir : fs.tree.sorted.shapeAt ([] ++ root) = some .directory := by
    cases project with
    | file _ => cases hproject
    | link _ => cases hproject
    | directory _ => exact Node.shapeAt_of_get? hnode
  exact Leads.descend hentry hdir (leads_of_follow_below hfs hlocate h)

/-- The directories that a walk reports lie where their paths lead, and their entries are shown. -/
theorem opens_walk (hfs : fs.tree.WellFormed) (hlocate : fs.locate true path = .ok (root, project))
    (hproject : project.isDirectory = true) {names : List String}
    (hnames : names = [] ∨ Event.directory names ∈ walk fs filter followLinks path) :
    ∃ at' entries,
      Leads fs.tree.sorted true linkLimit [] (root ++ names) (.found at' (.directory entries)) ∧
      ∀ name node e, (name, node) ∈ entries → Shows filter names name node e →
        e ∈ walk fs filter followLinks path := by
  rw [walk_of_locate hlocate] at hnames ⊢
  have hroot : (Plan.ofRoot fs filter followLinks path root).follow []
      = .ok (.found root project.sorted) := follow_ofRoot hfs hlocate
  have hentries : (Plan.ofRoot fs filter followLinks path root).entries = project.sorted.entries :=
    entries_ofRoot hfs hlocate
  have hsorted : project.sorted = .directory project.sorted.entries := by
    cases project with
    | file _ => cases hproject
    | link _ => cases hproject
    | directory _ => rfl
  rw [hsorted, ← hentries] at hroot
  rcases opens_run hfs.sorted hroot hnames with ⟨at', entries, hfollow, hshows⟩
  exact ⟨at', entries, leads_of_follow_ofRoot hfs hlocate hproject hfollow, hshows⟩

end

end Walk

/-! ## Snapshots -/

namespace Analysis

open FileSystem Walk Walk.Event

variable {fs : FileSystem} {settings : Settings} {filter : NameFilter} {path : String}
  {root : Location} {project : Node} {s : Snapshot}

/-- A directory that is listed under plain names is reported under them. -/
theorem reported_of_listed (hfs : fs.tree.WellFormed)
    (hlocate : fs.locate true path = .ok (root, project))
    (hfilter : NameFilter.ofPatterns settings.scanner.exclude = .ok filter)
    (hs : analyze fs settings path = .ok s) {names : List String} (hne : names ≠ [])
    (hplain : ∀ n ∈ names, PlainName n) (h : pathText names ∈ s.directories) :
    Event.directory names ∈ walk fs filter settings.scanner.followLinks path := by
  rw [eq_describe hfs hlocate hfilter hs] at h
  rcases List.mem_filterMap.1 h with ⟨e, he, hsome⟩
  rcases eq_of_directory? hsome with ⟨found, rfl, htext⟩
  have hproper := proper_walk hfs filter settings.scanner.followLinks path _ he
  obtain rfl : names = found :=
    pathText_injective hne (hproper.ne_nil rfl) hplain hproper.plain htext
  exact he

end Analysis
end ProjectConsistency
