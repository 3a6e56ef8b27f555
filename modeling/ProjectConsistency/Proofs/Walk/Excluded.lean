import ProjectConsistency.Proofs.Walk.Opened

/-!
# Excluded — excluded names in the events of a walk

An entry whose name is excluded is passed over with all that is below it.  Where a link leads is
looked up before its name is looked at, though, so a link that leads to nothing, or to what cannot be
examined, is reported whatever its name is.  This file defines:

* `Walk.Met` — an entry stands in a directory that a walk has opened, under kept names;
* `Walk.Stray` — an event reports a link that leads to nothing that can be used, and whose name is
  excluded;
* `Walk.Iterator.Explored` — all that is left of open directories has been met.

What is left of open directories has been met after each step (`explored_step`), so every event
comes from the turn of an entry that has been met (`Run.exists_met`).  In its turn, the path of an
entry with an excluded name is reported just if the entry is a link that is followed and leads to
nothing that can be used (`mem_turn_iff_of_excluded`).  Hence of all paths with excluded names a walk
reports those of stray links and no others, whatever fails to be examined or opened
(`excluded_reported_iff`).
-/

namespace ProjectConsistency

/-- A name that is excluded for all entries is excluded for directories. -/
theorem NameFilter.isExcluded_directory {filter : NameFilter} {name : String}
    (h : filter.isExcluded name false = true) : filter.isExcluded name true = true := by
  simp only [isExcluded, Bool.false_and, Bool.or_false] at h
  rw [isExcluded, h, Bool.true_or]

namespace Walk

/-- The entry stands in a directory that can be opened.  The directory is the root or has been
reported, and all names on the way to it are kept. -/
structure Met (plan : Plan) (failure : Failures) (events : List Event) (base : List String)
    (name : String) (node : Node) : Prop where
  kept : plan.filter.opens base = true
  reported : base = [] ∨ Event.directory base ∈ events
  readable : failure.opening base = none
  there : ∃ at' entries, plan.follow base = .ok (.found at' (.directory entries)) ∧
    (name, node) ∈ entries

/-- The event reports a link that is followed and leads to nothing, or to what cannot be examined,
although the name of the link is excluded. -/
inductive Stray (plan : Plan) (failure : Failures) (events : List Event) : Event → Prop where
  | intro {base : List String} {name link : String} {reason : OsError}
      (hfollows : plan.followLinks = true) (hexcluded : plan.filter.isExcluded name false = true)
      (hmet : Met plan failure events base name (.link link))
      (hdead : plan.deadEnd? failure (base ++ [name]) = some reason) :
      Stray plan failure events (.unreadable (base ++ [name]) reason)

variable {plan : Plan} {failure : Failures}

theorem Met.mono {events more : List Event} {base : List String} {name : String} {node : Node}
    (h : Met plan failure events base name node) (hsub : events ⊆ more) :
    Met plan failure more base name node :=
  { h with reported := h.reported.imp_right fun hmem => hsub hmem }

theorem Stray.hasExcluded {events : List Event} {e : Event} (h : Stray plan failure events e) :
    ∃ name ∈ e.path, plan.filter.isExcluded name false = true := by
  cases h with
  | @intro base name _ _ _ hexcluded _ _ => exact ⟨name, by simp [Event.path], hexcluded⟩

namespace Iterator

/-! ## Turns -/

/-- A link that leads to nothing that can be used is reported when it has its turn. -/
theorem yields_of_deadEnd {base : List String} {name link : String} {reason : OsError}
    (hfollows : plan.followLinks = true)
    (hdead : plan.deadEnd? failure (base ++ [name]) = some reason) :
    Yields plan failure base name (.link link) (.unreadable (base ++ [name]) reason) := by
  rintro pos rfl below linked
  have hpassage : passage plan failure pos name linked = _ := passage_of_deadEnd hfollows hdead
  simp [turn, hpassage]

section

variable {pos : Position} {name : String} {below : List Frame} {linked : Linked} {node : Node}
  {e : Event}

/-- An event of a turn has the path of the entry, unless it is an error that tells none. -/
theorem path_of_mem_turn (h : e ∈ (turn plan failure pos name below linked node).events)
    (hpath : e.path ≠ []) : e.path = pos.path ++ [name] := by
  cases node with
  | file content =>
      by_cases hexcluded : plan.filter.isExcluded name false = true
      · simp [turn, hexcluded] at h
      · obtain rfl : e = fileEvent failure (pos.path ++ [name]) content := by
          simpa [turn, hexcluded] using h
        exact fileEvent_path failure _ content
  | directory entries =>
      by_cases hexcluded : plan.filter.isExcluded name true = true
      · simp [turn, hexcluded] at h
      · exact path_of_mem_opened (pos.child name) entries none below linked e
          (by simpa [turn, hexcluded] using h)
  | link _ =>
      cases hpassage : passage plan failure pos name linked with
      | passed events =>
          have hmem : e ∈ events := by simpa [turn, hpassage] using h
          cases passed_of_passage hpassage with
          | nothing => cases hmem
          | deadEnd => rw [List.mem_singleton.1 hmem, Event.path]
          -- This event has no path.
          | closed =>
              rw [List.mem_singleton.1 hmem] at hpath
              exact absurd rfl hpath
          | file => rw [List.mem_singleton.1 hmem, Event.path]
      | into target entries =>
          exact path_of_mem_opened (pos.linked name target) entries (some target) below
            (target :: linked) e (by simpa [turn, hpassage] using h)

/-- The path of an entry with an excluded name is reported just if the entry is a link that is
followed and leads to nothing that can be used. -/
theorem mem_turn_iff_of_excluded (hexcluded : plan.filter.isExcluded name false = true) :
    e ∈ (turn plan failure pos name below linked node).events ∧ e.path ≠ [] ↔
      ∃ link reason, node = .link link ∧ plan.followLinks = true ∧
        plan.deadEnd? failure (pos.path ++ [name]) = some reason ∧
        e = .unreadable (pos.path ++ [name]) reason := by
  cases node with
  | file content => simp [turn, hexcluded]
  | directory entries => simp [turn, NameFilter.isExcluded_directory hexcluded]
  | link link =>
      constructor
      · rintro ⟨h, hpath⟩
        cases hpassage : passage plan failure pos name linked with
        | passed events =>
            have hmem : e ∈ events := by simpa [turn, hpassage] using h
            cases passed_of_passage hpassage with
            | nothing => cases hmem
            | deadEnd reason hfollows hdead =>
                exact ⟨link, reason, rfl, hfollows, hdead, List.mem_singleton.1 hmem⟩
            | closed =>
                -- The error of a directory that cannot be opened tells no path.
                rw [List.mem_singleton.1 hmem] at hpath
                exact absurd rfl hpath
            | file _ _ _ hkept => exact absurd hexcluded (by simp [hkept])
        | into target entries =>
            have hkept := (entered_of_passage hpassage).kept
            exact absurd (NameFilter.isExcluded_directory hexcluded) (by simp [hkept])
      · rintro ⟨_, reason, _, hfollows, hdead, rfl⟩
        exact ⟨yields_of_deadEnd hfollows hdead pos rfl below linked, by simp [Event.path]⟩

end

/-! ## Steps -/

/-- All that is left of open directories has been met, and the paths lead there. -/
structure Explored (plan : Plan) (failure : Failures) (events : List Event) (it : Iterator) :
    Prop where
  placed : ∀ frame ∈ it.stack, Placed plan frame
  met : ∀ frame ∈ it.stack, ∀ entry ∈ frame.2,
    Met plan failure events frame.1.path entry.1 entry.2

theorem explored_of_nil (plan : Plan) (failure : Failures) (events : List Event) {it : Iterator}
    (h : ∀ frame ∈ it.stack, frame.2 = []) : Explored plan failure events it := by
  refine ⟨?_, ?_⟩
  · intro frame hframe name entries hmem
    simp [h frame hframe] at hmem
  · intro frame hframe entry hentry
    simp [h frame hframe] at hentry

/-- What the root holds has been met at the start, if the root is a directory. -/
theorem explored_start (hwell : plan.tree.WellFormed) {project : Node}
    (hroot : plan.follow [] = .ok (.found plan.root project)) :
    Explored plan failure (start plan failure).1 (start plan failure).2 := by
  have hnode : plan.tree.get? plan.root = some project :=
    (FileSystem.leads_of_follow hroot).get?_of_found
  have hentries : plan.entries = project.entries := by simp [Plan.entries, hnode]
  have hnone : project.entries = [] →
      Explored plan failure (start plan failure).1 (start plan failure).2 := by
    intro hempty
    refine explored_of_nil _ _ _ ?_
    rcases start_cases plan failure with h | ⟨_, _, h⟩ <;> simp [h, hentries, hempty]
  cases project with
  | file _ => exact hnone rfl
  | link _ => exact hnone rfl
  | directory entries =>
      cases hfailure : failure.opening [] with
      | some reason => exact explored_of_nil _ _ _ (by simp [start, hnode, hfailure])
      | none =>
          rw [start_of_readable hfailure, hentries, Node.entries]
          have hplaced : Placed plan (⟨plan.root, [], []⟩, entries) := placed_of_follow hwell hroot
          refine ⟨by simpa using hplaced, ?_⟩
          intro frame hframe entry hentry
          obtain rfl : frame = (⟨plan.root, [], []⟩, entries) := by simpa using hframe
          exact ⟨rfl, .inl rfl, hfailure, plan.root, entries, hroot, hentry⟩

theorem explored_step (hwell : plan.tree.WellFormed) {it : Iterator} {t : Turn}
    (h : it.step plan failure = some t) {events : List Event}
    (hit : Explored plan failure events it) :
    Explored plan failure (events ++ t.events) t.next := by
  refine ⟨placed_step hwell h hit.placed, ?_⟩
  intro frame hframe entry hentry
  rcases frames_step h hit.placed frame hframe with ⟨former, hformer, hpos, hrest⟩ | hfresh
  · have hmet := hit.met former hformer entry (hrest hentry)
    rw [hpos] at hmet
    exact hmet.mono (List.subset_append_left _ _)
  · -- The names above the directory are kept, as the directory was met, and its own is as well.
    obtain ⟨above, habove, inside, hinside, hpath, hkept⟩ := hfresh.inside
    have hbase := (hit.met above habove inside hinside).kept
    refine ⟨?_, .inr (List.mem_append_right _ hfresh.reported), hfresh.readable, _, _,
      hfresh.leads, hentry⟩
    rw [NameFilter.opens] at hbase
    simp [hpath, NameFilter.opens, hbase, hkept]

/-- The events of a step come from the turn of an entry that is left of an open directory. -/
theorem exists_turn_of_step {it : Iterator} {t : Turn} (h : it.step plan failure = some t)
    {e : Event} (he : e ∈ t.events) :
    ∃ frame ∈ it.stack, ∃ entry ∈ frame.2, ∃ below linked,
      e ∈ (turn plan failure frame.1 entry.1 below linked entry.2).events := by
  obtain ⟨stack, linked⟩ := it
  cases stack with
  | nil => cases h
  | cons frame below =>
      obtain ⟨pos, entries⟩ := frame
      cases entries with
      | nil =>
          obtain rfl : (⟨[], none, ⟨below, linked⟩⟩ : Turn) = t := Option.some.inj h
          simp at he
      | cons entry rest =>
          obtain rfl : turn plan failure pos entry.1 ((pos, rest) :: below) linked entry.2 = t :=
            Option.some.inj h
          exact ⟨_, List.mem_cons_self, entry, List.mem_cons_self, _, _, he⟩

/-! ## Runs -/

/-- Every event of a run comes from the turn of an entry that has been met. -/
theorem Run.exists_met (hwell : plan.tree.WellFormed) {it last : Iterator}
    {emitted : List (Nat × Event)} {entered : List Location}
    (h : Run plan failure it emitted entered last) {before : List Event}
    (hit : Explored plan failure before it) {e : Event} (he : e ∈ emitted.map Prod.snd) :
    ∃ pos name node below linked,
      Met plan failure (before ++ emitted.map Prod.snd) pos.path name node ∧
        e ∈ (turn plan failure pos name below linked node).events := by
  induction h generalizing before with
  | here it => simp at he
  | @step it last t emitted entered hstep _ ih =>
      rw [map_snd_step] at he ⊢
      rcases List.mem_append.1 he with hnow | hlater
      · rcases exists_turn_of_step hstep hnow with
          ⟨frame, hframe, entry, hentry, below, linked, hturn⟩
        have hmet := (hit.met frame hframe entry hentry).mono
          (List.subset_append_left before (t.events ++ emitted.map Prod.snd))
        exact ⟨frame.1, entry.1, entry.2, below, linked, hmet, hturn⟩
      · have hlast := ih (explored_step hwell hstep hit) hlater
        rwa [List.append_assoc] at hlast

/-- At any time, an event whose path has an excluded name is stray. -/
theorem Run.stray (hwell : plan.tree.WellFormed) {it last : Iterator}
    {emitted : List (Nat × Event)} {entered : List Location}
    (h : Run plan failure it emitted entered last) {before : List Event}
    (hit : Explored plan failure before it) {e : Event} (he : e ∈ emitted.map Prod.snd)
    {name : String} (hname : name ∈ e.path)
    (hexcluded : plan.filter.isExcluded name false = true) :
    Stray plan failure (before ++ emitted.map Prod.snd) e := by
  obtain ⟨pos, last, node, below, linked, hmet, hturn⟩ := h.exists_met hwell hit he
  have hpath : e.path ≠ [] := List.ne_nil_of_mem hname
  rw [path_of_mem_turn hturn hpath] at hname
  rcases List.mem_append.1 hname with habove | hlast
  · -- The names above the entry are those of directories that were opened.
    have hkept : plan.filter.isExcluded name true = false := by
      have hopens := List.all_eq_true.1 hmet.kept name habove
      simpa using hopens
    exact absurd (NameFilter.isExcluded_directory hexcluded) (by simp [hkept])
  · obtain rfl : name = last := List.mem_singleton.1 hlast
    obtain ⟨link, reason, rfl, hfollows, hdead, rfl⟩ :=
      (mem_turn_iff_of_excluded hexcluded).1 ⟨hturn, hpath⟩
    exact .intro hfollows hexcluded hmet hdead

/-- In the end, every entry that has been met has had its turn. -/
theorem Run.yields_of_met (hwell : plan.tree.WellFormed) {project : Node}
    (hroot : plan.follow [] = .ok (.found plan.root project)) {last : Iterator}
    {emitted : List (Nat × Event)} {entered : List Location}
    (h : Run plan failure (start plan failure).2 emitted entered last) (hlast : last.stack = [])
    {base : List String} {name : String} {node : Node}
    (hmet : Met plan failure ((start plan failure).1 ++ emitted.map Prod.snd) base name node)
    {e : Event} (he : Yields plan failure base name node e) : e ∈ emitted.map Prod.snd := by
  obtain ⟨at', entries, hleads, hmem⟩ := hmet.there
  by_cases hbase : base = []
  · subst hbase
    obtain ⟨rfl, rfl⟩ : plan.root = at' ∧ project = .directory entries := by
      simpa [hroot] using hleads
    have hentries : plan.entries = entries := by
      simp [Plan.entries, (FileSystem.leads_of_follow hroot).get?_of_found, Node.entries]
    have hopen : ((⟨plan.root, [], []⟩, entries) : Frame) ∈ (start plan failure).2.stack := by
      simp [start_of_readable hmet.readable, hentries]
    exact h.yields hlast hopen hmem he
  · -- The directory was reported on the way, so it was opened and all of it had its turn.
    have hreported : Event.directory base ∈ emitted.map Prod.snd := by
      have hmem := List.mem_append.1 (hmet.reported.resolve_left hbase)
      rcases start_cases plan failure with hstart | ⟨_, _, hstart⟩ <;>
        simpa [hstart] using hmem
    obtain ⟨place, found, hfound, hyields⟩ :=
      h.opens hwell hlast (explored_start hwell hroot).placed hreported hmet.readable
    obtain ⟨rfl, rfl⟩ : place = at' ∧ found = entries := by simpa [hfound] using hleads
    exact hyields name node e hmem he

end Iterator

/-! ## Whole walks -/

open Iterator

/-- At any time only stray events have paths with excluded names, and in the end all of them are
there. -/
theorem stray_run (hwell : plan.tree.WellFormed) {project : Node}
    (hroot : plan.follow [] = .ok (.found plan.root project)) {it : Iterator}
    {emitted : List (Nat × Event)} {entered : List Location}
    (hrun : Run plan failure (start plan failure).2 emitted entered it) :
    let events := (start plan failure).1 ++ emitted.map Prod.snd
    (∀ e ∈ events, (∃ name ∈ e.path, plan.filter.isExcluded name false = true) →
      Stray plan failure events e) ∧
    (it.step plan failure = none → ∀ e, Stray plan failure events e → e ∈ events) := by
  intro events
  refine ⟨?_, ?_⟩
  · rintro e he ⟨name, hname, hexcluded⟩
    rcases List.mem_append.1 he with hfirst | hlater
    · -- The only event before the first step is that of a root that cannot be read.
      rcases start_cases plan failure with hstart | ⟨reason, _, hstart⟩
      · simp [hstart] at hfirst
      · obtain rfl : e = .unreadable [] reason := by simpa [hstart] using hfirst
        cases hname
    · exact hrun.stray hwell (explored_start hwell hroot) hlater hname hexcluded
  · rintro hend e ⟨hfollows, _, hmet, hdead⟩
    have hlast : it.stack = [] := step_eq_none_iff.1 hend
    exact List.mem_append_right _
      (hrun.yields_of_met hwell hroot hlast hmet (yields_of_deadEnd hfollows hdead))

/--
Of all paths with names that are excluded for every entry, a walk reports those of stray links: links
that are followed, in directories that were opened, and lead to nothing or to what cannot be examined.
Nothing else is reported at such a path, whatever the links are and whatever fails to be examined or
opened, at any time, so also if the walk is stopped; and in the end each stray link is reported.
-/
theorem excluded_reported_iff {fs : FileSystem} (hfs : fs.tree.WellFormed) (filter : NameFilter)
    (followLinks : Bool) (path : String) :
    ((∀ place, fs.locate true path ≠ .ok place) →
      ∀ e ∈ walk fs filter followLinks path, e.path = []) ∧
    ∀ root project, fs.locate true path = .ok (root, project) →
      let plan := Plan.ofRoot fs filter followLinks path root
      let events := walk fs filter followLinks path
      (∀ e, (e ∈ events ∧ ∃ name ∈ e.path, filter.isExcluded name false = true) ↔
        Stray plan noFailure events e) ∧
      ∀ failure emitted entered it, Run plan failure (start plan failure).2 emitted entered it →
        let events := (start plan failure).1 ++ emitted.map Prod.snd
        (∀ e ∈ events, (∃ name ∈ e.path, filter.isExcluded name false = true) →
          Stray plan failure events e) ∧
        (it.step plan failure = none → ∀ e, Stray plan failure events e → e ∈ events) := by
  refine ⟨?_, ?_⟩
  · intro hnowhere e he
    rcases walk_cases fs filter followLinks path with ⟨reason, hwalk⟩ | ⟨root, node, hlocate, _⟩
    · rw [hwalk] at he
      rw [List.mem_singleton.1 he, Event.path]
    · exact absurd hlocate (hnowhere _)
  · intro root project hlocate plan events
    have hroot : plan.follow [] = .ok (.found plan.root project.sorted) :=
      follow_ofRoot hfs hlocate
    refine ⟨?_, fun failure emitted entered it hrun => stray_run hfs.sorted hroot hrun⟩
    -- The walk is what comes of a run to the end in which nothing fails.
    obtain ⟨emitted, entered, last, hrun, hend, hwalk⟩ :=
      exists_run_ofRoot hlocate noFailure
    obtain ⟨hsound, hall⟩ := stray_run hfs.sorted hroot hrun
    rw [hwalk rfl] at hsound hall
    intro e
    constructor
    · rintro ⟨he, hname⟩
      exact hsound e he hname
    · intro hstray
      exact ⟨hall hend e hstray, hstray.hasExcluded⟩

/-! ## A sample -/

def logFilter : NameFilter :=
  (NameFilter.ofPatterns ["*.log"]).toOption.getD .empty

def logProject : Node :=
  .directory [
    ("a.log", .file ⟨#[120]⟩), ("debug.log", .link "nowhere"),
    ("src", .directory [("old.log", .link "old.log")])]

def logSample : FileSystem where
  tree := .directory [("app", logProject)]

theorem wellFormed_logSample : logSample.tree.WellFormed :=
  have hsrc : (Node.directory [("old.log", .link "old.log")]).WellFormed :=
    .cons (by decide) (by decide) (by decide) (.link _) .nil
  have happ : logProject.WellFormed :=
    .cons (by decide) (by decide) (by decide) (.file _)
      (.cons (by decide) (by decide) (by decide) (.link _)
        (.cons (by decide) (by decide) (by decide) hsrc .nil))
  .cons (by decide) (by decide) (by decide) happ .nil

theorem sorted_logSample : logSample.tree.sorted = logSample.tree := by
  simp [logSample, logProject, Node.sorted, Node.sortedEntries, List.mergeSort, Node.inOrder_eq,
    RawName.isText, RawName.mark, List.MergeSort.Internal.splitInTwo]

theorem isExcluded_logFilter :
    (∀ name ∈ ["a.log", "debug.log", "old.log"], logFilter.isExcluded name false = true) ∧
      logFilter.isExcluded "src" true = false := by
  decide +kernel

/-- Both links are reported, although the pattern has no slash at its end and matches their names.
-/
theorem excluded_links_reported :
    NameFilter.ofPatterns ["*.log"] = .ok logFilter ∧
      (∀ name ∈ ["debug.log", "old.log"], logFilter.isExcluded name false = true) ∧
      walk logSample logFilter true "/app"
        = [.unreadable ["debug.log"] .notFound, .directory ["src"],
          .unreadable ["src", "old.log"] .tooManyLinks] := by
  obtain ⟨hlogs, hsrc⟩ := isExcluded_logFilter
  refine ⟨rfl, fun name hname => hlogs name (List.mem_cons_of_mem _ hname), ?_⟩
  have hlocate : logSample.locate true "/app" = .ok (["app"], logProject) := rfl
  let plan : Plan := ⟨logSample.tree, ["app"], [], ["app"], logFilter, true⟩
  let pos : Position := ⟨["app"], [], []⟩
  have hdebug : passage plan noFailure pos "debug.log" [] = .passed [.unreadable ["debug.log"] .notFound] :=
    passage_of_deadEnd rfl rfl
  have hold : passage plan noFailure (pos.child "src") "old.log" []
      = .passed [.unreadable ["src", "old.log"] .tooManyLinks] := passage_of_deadEnd rfl rfl
  rw [walk_of_sorted sorted_logSample hlocate]
  change (enter plan 3 pos [("a.log", .file _), ("debug.log", .link _), ("src", .directory _)] []).1
    = _
  simp [enter, visitEntries, visitNode_file, visitNode_directory, visitNode_link,
    visitLink_passed hdebug, visitLink_passed hold, plan, pos, hlogs, hsrc]

/-- The link to nothing is reported, and the file is not. -/
theorem excluded_reported_iff_logSample :
    let events := walk logSample logFilter true "/app"
    Event.unreadable ["debug.log"] .notFound ∈ events ∧ ∀ e ∈ events, e.path ≠ ["a.log"] := by
  intro events
  have hplan : Plan.ofRoot logSample logFilter true "/app" ["app"]
      = ⟨logSample.tree, ["app"], [], ["app"], logFilter, true⟩ := by
    rw [Plan.ofRoot, sorted_logSample]
    rfl
  obtain ⟨hlogs, _⟩ := isExcluded_logFilter
  obtain ⟨hiff, _⟩ :=
    (excluded_reported_iff wellFormed_logSample logFilter true "/app").2 ["app"] logProject rfl
  rw [hplan] at hiff
  refine ⟨?_, ?_⟩
  · have hmet : Met ⟨logSample.tree, ["app"], [], ["app"], logFilter, true⟩ noFailure events []
        "debug.log" (.link "nowhere") :=
      ⟨rfl, .inl rfl, rfl, ["app"], logProject.entries, rfl, by simp [logProject, Node.entries]⟩
    exact ((hiff _).2 (.intro rfl (hlogs _ (by simp)) hmet rfl)).1
  · intro e he hpath
    obtain ⟨_, _, _, hdead⟩ := (hiff e).1 ⟨he, "a.log", by simp [hpath], hlogs _ (by simp)⟩
    -- What is at the path of the file is there.
    rw [Event.path] at hpath
    rw [hpath] at hdead
    cases hdead

end Walk
end ProjectConsistency
